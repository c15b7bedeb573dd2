import FilterSql.Proofs.Written

/-! Reading as rules. What is cut off the front of a text has the form of its shape, so a text that is read
is blanks and lexemes by turns, and each of its tokens is made of one lexeme. -/
namespace FilterSql

namespace Lexeme

open FilterSql.Text

/-- What may stand between two quotes: no quote, except behind a backslash, which takes the next character
with it. -/
inductive Closed : List Char → Prop where
  | nil : Closed []
  | plain : c ≠ '"' → c ≠ '\\' → Closed cs → Closed (c :: cs)
  | pair (c : Char) : Closed cs → Closed ('\\' :: c :: cs)

/-- The form of a lexeme by its shape, and what has to follow it. -/
def Shaped (lexeme rest : List Char) : Shape → Prop
  | .closedString => ∃ body, lexeme = '"' :: (body ++ ['"']) ∧ Closed body
  | .openString => lexeme.head? = some '"' ∧ rest = []
  | .number => ∃ sign digits fraction, lexeme = sign ++ digits ++ fraction ∧ (sign = [] ∨ sign = ['-']) ∧
      digits ≠ [] ∧ (∀ c ∈ digits, c.isDigit = true) ∧
      (fraction = [] ∨ ∃ more, fraction = '.' :: more ∧ more ≠ [] ∧ ∀ c ∈ more, c.isDigit = true) ∧
      continuesWord rest = false
  | .badNumber => ∃ sign digit more, lexeme = sign ++ digit :: more ∧ (sign = [] ∨ sign = ['-']) ∧
      digit.isDigit = true ∧ (∀ c ∈ more, isWordChar c = true) ∧ continuesWord rest = false
  | .symbol sign => lexeme = sign.text.toList
  | .boolean value => lexeme = (boolText value).toList ∧ continuesWord rest = false
  | .call => isIdentifier lexeme = true ∧ rest.head? = some '('
  | .name => isDottedName lexeme = true
  | .illegal => ∃ c, lexeme = [c]

def Finds (cs : List Char) (shape : Shape) (n : Nat) : Prop :=
  ∃ lexeme rest, cs = lexeme ++ rest ∧ n = lexeme.length ∧ Shaped lexeme rest shape

section Strings

theorem closed_of_closingQuote? {n m : Nat} {cs : List Char} (h : closingQuote? n cs = some m) :
    ∃ body rest, cs = body ++ '"' :: rest ∧ m = n + body.length + 1 ∧ Closed body := by
  fun_induction closingQuote? n cs with
  | case1 => cases h
  | case2 n rest =>
    cases h
    exact ⟨[], rest, rfl, rfl, .nil⟩
  | case3 n c cs ih =>
    obtain ⟨body, rest, rfl, rfl, hbody⟩ := ih h
    refine ⟨'\\' :: c :: body, rest, rfl, ?_, .pair c hbody⟩
    simp only [List.length_cons]
    omega
  | case4 n c cs hquote hpair ih =>
    obtain ⟨body, rest, rfl, rfl, hbody⟩ := ih h
    have hbackslash : c ≠ '\\' := by
      rintro rfl
      cases body with
      | nil => exact hpair _ _ rfl rfl
      | cons d body => exact hpair _ _ rfl rfl
    refine ⟨c :: body, rest, rfl, ?_, .plain hquote hbackslash hbody⟩
    simp only [List.length_cons]
    omega

theorem Closed.closingQuote? {body : List Char} (h : Closed body) (n : Nat) (rest : List Char) :
    closingQuote? n (body ++ '"' :: rest) = some (n + body.length + 1) := by
  induction h generalizing n with
  | nil => rfl
  | @plain c cs hquote hbackslash _ ih =>
    have hstep : Lexeme.closingQuote? n (c :: cs ++ '"' :: rest) =
        Lexeme.closingQuote? (n + 1) (cs ++ '"' :: rest) := by
      simp [Lexeme.closingQuote?, hbackslash]
    rw [hstep, ih, List.length_cons]
    congr 1
    omega
  | @pair cs c _ ih =>
    have hstep : Lexeme.closingQuote? n ('\\' :: c :: cs ++ '"' :: rest) =
        Lexeme.closingQuote? (n + 2) (cs ++ '"' :: rest) := by
      simp [Lexeme.closingQuote?]
    rw [hstep, ih, List.length_cons, List.length_cons]
    congr 1
    omega

end Strings

section Numbers

theorem exists_sign (cs : List Char) :
    ∃ sign rest, cs = sign ++ rest ∧ signLength cs = sign.length ∧ (sign = [] ∨ sign = ['-']) := by
  unfold signLength
  split
  case h_1 rest => exact ⟨['-'], rest, rfl, rfl, .inr rfl⟩
  case h_2 => exact ⟨[], cs, rfl, rfl, .inl rfl⟩

theorem exists_digits (cs : List Char) :
    ∃ digits rest, cs = digits ++ rest ∧ digitsLength cs = digits.length ∧ ∀ c ∈ digits, c.isDigit = true :=
  ⟨cs.takeWhile Char.isDigit, cs.dropWhile Char.isDigit, List.takeWhile_append_dropWhile.symm, rfl,
    List.all_eq_true.mp List.all_takeWhile⟩

theorem exists_fraction (cs : List Char) :
    ∃ fraction rest, cs = fraction ++ rest ∧ fractionLength cs = fraction.length ∧
      (fraction = [] ∨ ∃ more, fraction = '.' :: more ∧ more ≠ [] ∧ ∀ c ∈ more, c.isDigit = true) := by
  unfold fractionLength
  split
  case h_1 cs =>
    obtain ⟨digits, rest, rfl, hlength, hdigits⟩ := exists_digits cs
    rw [hlength]
    split
    case isTrue => exact ⟨[], _, rfl, rfl, .inl rfl⟩
    case isFalse hne =>
      have hne : digits ≠ [] := by simpa using hne
      exact ⟨'.' :: digits, rest, rfl, rfl, .inr ⟨digits, rfl, hne, hdigits⟩⟩
  case h_2 => exact ⟨[], cs, rfl, rfl, .inl rfl⟩

theorem finds_of_number? {cs : List Char} {n : Nat} (h : number? cs = some n) : Finds cs .number n := by
  obtain ⟨sign, tail, rfl, hsign, hminus⟩ := exists_sign cs
  obtain ⟨digits, tail, rfl, hwhole, hdigits⟩ := exists_digits tail
  obtain ⟨fraction, rest, rfl, hfraction, hpoint⟩ := exists_fraction tail
  have hbehind : (sign ++ (digits ++ (fraction ++ rest))).drop (sign.length + digits.length) =
      fraction ++ rest := by
    rw [← List.append_assoc, ← List.length_append, List.drop_left]
  have hrest : (sign ++ (digits ++ (fraction ++ rest))).drop
      (sign.length + digits.length + fraction.length) = rest := by
    rw [← List.append_assoc, ← List.append_assoc, ← List.length_append, ← List.length_append, List.drop_left]
  unfold number? at h
  simp only [hsign, List.drop_left, hwhole, hbehind, hfraction, hrest] at h
  split at h
  case isTrue => cases h
  case isFalse hfound =>
    cases h
    simp only [not_or, Bool.not_eq_true] at hfound
    refine ⟨sign ++ digits ++ fraction, rest, by simp, by simp [Nat.add_assoc], ?_⟩
    exact ⟨sign, digits, fraction, rfl, hminus, by simpa using hfound.1, hdigits, hpoint, hfound.2⟩

theorem continuesWord_dropWhile (cs : List Char) : continuesWord (cs.dropWhile isWordChar) = false := by
  cases hcs : cs.dropWhile isWordChar with
  | nil => rfl
  | cons c rest =>
    have hne : cs.dropWhile isWordChar ≠ [] := by simp [hcs]
    have hhead := List.head_dropWhile_not isWordChar hne
    simpa [hcs, continuesWord] using hhead

theorem finds_of_badNumber? {cs : List Char} {n : Nat} (h : badNumber? cs = some n) :
    Finds cs .badNumber n := by
  obtain ⟨sign, tail, rfl, hsign, hminus⟩ := exists_sign cs
  unfold badNumber? at h
  simp only [hsign, List.drop_left] at h
  split at h
  case h_1 digit more =>
    split at h
    case isTrue hdigit =>
      cases h
      refine ⟨sign ++ digit :: more.takeWhile isWordChar, more.dropWhile isWordChar, ?_, ?_, ?_⟩
      · simp [List.takeWhile_append_dropWhile]
      · simp only [List.length_append, List.length_cons]
        omega
      · exact ⟨sign, digit, _, rfl, hminus, hdigit, List.all_eq_true.mp List.all_takeWhile,
          continuesWord_dropWhile more⟩
    case isFalse => cases h
  case h_2 => cases h

end Numbers

section Words

theorem finds_of_symbol? {cs : List Char} {sign : Symbol} {n : Nat} (h : symbol? cs = some (sign, n)) :
    Finds cs (.symbol sign) n := by
  unfold symbol? at h
  split at h
  case h_13 => cases h
  all_goals
    cases h
    exact ⟨_, _, rfl, rfl, rfl⟩

theorem finds_of_boolean? {cs : List Char} {value : Bool} {n : Nat} (h : boolean? cs = some (value, n)) :
    Finds cs (.boolean value) n := by
  unfold boolean? at h
  split at h
  case h_3 => cases h
  all_goals
    split at h
    case isTrue => cases h
    case isFalse hrest =>
      cases h
      exact ⟨_, _, rfl, rfl, rfl, by simpa using hrest⟩

theorem finds_of_call? {cs : List Char} {n : Nat} (h : call? cs = some n) : Finds cs .call n := by
  obtain ⟨hword, hopen⟩ := Option.filter_eq_some_iff.mp h
  unfold word? at hword
  split at hword
  case h_1 c cs =>
    split at hword
    case isTrue hstart =>
      cases hword
      have hsplit : c :: cs = (c :: cs.takeWhile isNamePart) ++ cs.dropWhile isNamePart := by
        rw [List.cons_append, List.takeWhile_append_dropWhile]
      have hlength : 1 + (cs.takeWhile isNamePart).length = (c :: cs.takeWhile isNamePart).length := by
        rw [List.length_cons, Nat.add_comm]
      rw [hlength, hsplit, List.drop_left] at hopen
      refine ⟨_, _, hsplit, hlength, ?_, by simpa using hopen⟩
      simp [isIdentifier, hstart]
    case isFalse => cases hword
  case h_2 => cases hword

def Trails (cs : List Char) : Prop :=
  ∃ first others, cs.splitOn '.' = first :: others ∧ first.all isNamePart = true ∧ others.all isIdentifier = true

theorem splitOn_cons_of_ne {c sep : Char} (h : c ≠ sep) (cs : List Char) :
    (c :: cs).splitOn sep = (cs.splitOn sep).modifyHead (c :: ·) := by
  rw [List.splitOn_cons_eq_if_modifyHead, if_neg (by simpa using h)]

theorem trails_cons {c : Char} {cs : List Char} (hc : isNamePart c = true) (h : Trails cs) :
    Trails (c :: cs) := by
  obtain ⟨first, others, hsplit, hfirst, hothers⟩ := h
  have hdot : c ≠ '.' := by
    rintro rfl
    cases hc
  refine ⟨c :: first, others, ?_, ?_, hothers⟩
  · rw [splitOn_cons_of_ne hdot, hsplit, List.modifyHead_cons]
  · rw [List.all_cons, hc, hfirst, Bool.and_self]

theorem trails_dot {cs : List Char} (h : isDottedName cs = true) : Trails ('.' :: cs) :=
  ⟨[], cs.splitOn '.', List.splitOn_append_cons_self [] cs, rfl, h⟩

theorem flatten_splitOn (sep : Char) (cs : List Char) : (cs.splitOn sep).flatten = cs.filter (· ≠ sep) := by
  induction cs with
  | nil => rfl
  | cons c cs ih =>
    by_cases hc : c = sep
    · rw [List.splitOn_cons_eq_if_modifyHead, if_pos (by simpa using hc)]
      simpa [hc] using ih
    · obtain ⟨part, parts, hparts⟩ := List.exists_cons_of_ne_nil (List.splitOn_ne_nil sep cs)
      rw [splitOn_cons_of_ne hc]
      simpa [hc, hparts] using ih

theorem isWordChar_of_isDottedName {cs : List Char} (h : isDottedName cs = true) :
    ∀ c ∈ cs, isWordChar c = true := by
  intro c hc
  by_cases hdot : c = '.'
  · rw [hdot]
    rfl
  · have hpart : c ∈ (cs.splitOn '.').flatten := by
      rw [flatten_splitOn]
      exact List.mem_filter.mpr ⟨hc, by simpa using hdot⟩
    obtain ⟨part, hmem, hc⟩ := List.mem_flatten.mp hpart
    exact isWordChar_of_isNamePart (isNamePart_of_isIdentifier (List.all_eq_true.mp h part hmem) c hc)

theorem isDottedName_of_trails {cs : List Char} (hstarts : startsName cs = true) (h : Trails cs) :
    isDottedName cs = true := by
  obtain ⟨first, others, hsplit, hfirst, hothers⟩ := h
  cases cs with
  | nil => cases hstarts
  | cons c cs =>
    have hc : isNameStart c = true := hstarts
    rw [isDottedName, hsplit, List.all_cons, hothers, Bool.and_true]
    obtain ⟨part, parts, hparts⟩ := List.exists_cons_of_ne_nil (List.splitOn_ne_nil '.' cs)
    rw [splitOn_cons_of_ne (ne_of_isNameStart hc (by decide)), hparts, List.modifyHead_cons] at hsplit
    cases hsplit
    rw [List.all_cons, Bool.and_eq_true_iff] at hfirst
    rw [isIdentifier, hc, hfirst.2]
    rfl

theorem trails_of_dotted (n : Nat) (cs : List Char) :
    ∃ name rest, cs = name ++ rest ∧ dotted n cs = n + name.length ∧ Trails name ∧
      (startsName cs = true → startsName name = true) := by
  fun_induction dotted n cs with
  | case1 n => exact ⟨[], [], rfl, rfl, ⟨[], [], rfl, rfl, rfl⟩, id⟩
  | case2 n c cs hpart ih =>
    obtain ⟨name, rest, rfl, hlength, hname, hstarts⟩ := ih
    refine ⟨c :: name, rest, rfl, by rw [hlength, List.length_cons]; omega, ?_, id⟩
    by_cases hc : isNamePart c = true
    · exact trails_cons hc hname
    · simp only [hc, Bool.false_or, Bool.and_eq_true, beq_iff_eq] at hpart
      obtain ⟨rfl, hnext⟩ := hpart
      exact trails_dot (isDottedName_of_trails (hstarts hnext) hname)
  | case3 n c cs hpart =>
    refine ⟨[], c :: cs, rfl, rfl, ⟨[], [], rfl, rfl, rfl⟩, ?_⟩
    intro hstarts
    have hc : isNameStart c = true := hstarts
    simp [isNamePart, hc] at hpart

theorem finds_of_name? {cs : List Char} {n : Nat} (h : name? cs = some n) : Finds cs .name n := by
  unfold name? at h
  split at h
  case isTrue hstarts =>
    obtain ⟨name, rest, rfl, hlength, hname, hkept⟩ := trails_of_dotted 0 cs
    cases h
    exact ⟨name, rest, rfl, by rw [hlength, Nat.zero_add], isDottedName_of_trails (hkept hstarts) hname⟩
  case isFalse => cases h

end Words

theorem finds_of_cut {c : Char} {cs : List Char} {shape : Shape} {n : Nat}
    (h : cut (c :: cs) = (shape, n)) : Finds (c :: cs) shape n := by
  unfold cut at h
  split at h
  case h_1 body heq =>
    cases heq
    split at h
    case h_1 m hclose =>
      cases h
      obtain ⟨body, rest, rfl, rfl, hbody⟩ := closed_of_closingQuote? hclose
      refine ⟨'"' :: (body ++ ['"']), rest, by simp, ?_, body, rfl, hbody⟩
      simp only [List.length_cons, List.length_append, List.length_nil]
      omega
    case h_2 =>
      cases h
      exact ⟨'"' :: cs, [], by simp, rfl, rfl, rfl⟩
  case h_2 =>
    dsimp only at h
    generalize hfound : ((number? (c :: cs)).map (Prod.mk Shape.number) <|> _) = found at h
    cases found with
    | none =>
      cases h
      exact ⟨[c], cs, rfl, rfl, c, rfl⟩
    | some result =>
      cases h
      -- The rules in their order; the first that finds a lexeme decides.
      simp only [Option.orElse_eq_orElse, Option.orElse_eq_or, Option.or_eq_some_iff,
        Option.map_eq_some_iff] at hfound
      obtain ⟨m, hrule, heq⟩ | ⟨-, ⟨m, hrule, heq⟩ | ⟨-, ⟨m, hrule, heq⟩ | ⟨-, ⟨m, hrule, heq⟩ |
        ⟨-, ⟨m, hrule, heq⟩ | ⟨-, m, hrule, heq⟩⟩⟩⟩⟩ := hfound
      all_goals cases heq
      · exact finds_of_number? hrule
      · exact finds_of_badNumber? hrule
      · exact finds_of_symbol? hrule
      · exact finds_of_boolean? hrule
      · exact finds_of_call? hrule
      · exact finds_of_name? hrule

theorem Shaped.ne_nil {lexeme rest : List Char} {shape : Shape} (h : Shaped lexeme rest shape) :
    lexeme ≠ [] := by
  rintro rfl
  cases shape with
  | closedString =>
    obtain ⟨body, hlexeme, -⟩ := h
    cases hlexeme
  | openString => cases h.1
  | number =>
    obtain ⟨sign, digits, fraction, hlexeme, -, hne, -⟩ := h
    simp [hne] at hlexeme
  | badNumber =>
    obtain ⟨sign, digit, more, hlexeme, -⟩ := h
    simp at hlexeme
  | symbol sign =>
    have htext : [] = sign.text.toList := h
    cases sign with
    | compare operator => cases operator <;> cases htext
    | connect connective => cases connective <;> cases htext
    | _ => cases htext
  | boolean value => cases value <;> cases h.1
  | call => cases h.1
  | name => cases h
  | illegal =>
    obtain ⟨c, hlexeme⟩ := h
    cases hlexeme

theorem shaped_of_cut {c : Char} {cs rest : List Char} {shape : Shape}
    (h : cut (c :: cs ++ rest) = (shape, (c :: cs).length)) : Shaped (c :: cs) rest shape := by
  obtain ⟨lexeme, behind, hsplit, hlength, hshaped⟩ := finds_of_cut h
  obtain ⟨hlexeme, hbehind⟩ := List.append_inj hsplit hlength
  rw [hlexeme, hbehind]
  exact hshaped

theorem kind_cases {p : Position} {lexeme : List Char} {shape : Shape} {k : Token.Kind}
    (h : kind p lexeme shape = .ok k) :
    (shape = .closedString ∧ ∃ s, k = .literal (.text s)) ∨
    (shape = .number ∧ ((∃ n, k = .literal (.integer n)) ∨ ∃ x, k = .literal (.decimal x))) ∨
    (∃ value, shape = .boolean value ∧ k = .literal (.boolean value)) ∨
    (∃ sign, shape = .symbol sign ∧ k = .symbol sign) ∨
    (shape = .call ∧ k = .call (String.ofList lexeme)) ∨
    (shape = .name ∧ k = .name (String.ofList lexeme)) := by
  cases shape with
  | closedString =>
    unfold kind at h
    dsimp only at h
    split at h
    · cases h
      exact .inl ⟨rfl, _, rfl⟩
    · cases h
  | number =>
    unfold kind numberKind at h
    dsimp only at h
    split at h
    · cases h
      exact .inr (.inl ⟨rfl, .inr ⟨_, rfl⟩⟩)
    · split at h
      · cases h
        exact .inr (.inl ⟨rfl, .inl ⟨_, rfl⟩⟩)
      · cases h
  | openString => cases h
  | badNumber => cases h
  | illegal => cases h
  | _ =>
    cases h
    simp

theorem Closed.cut {body : List Char} (h : Closed body) (rest : List Char) :
    cut ('"' :: (body ++ ['"']) ++ rest) = (.closedString, ('"' :: (body ++ ['"'])).length) := by
  have hclose := h.closingQuote? 1 rest
  simp only [List.cons_append, List.append_assoc, List.nil_append, Lexeme.cut, hclose, List.length_cons,
    List.length_append, List.length_nil]
  congr 1
  omega

end Lexeme

/-- The tokens of a text from a place on: blanks and a lexeme by turns, each lexeme cut off whole, and blanks
before the end. -/
inductive Lexed : Position → List Char → List Token → Prop where
  | finish {p : Position} : (∀ b ∈ blanks, Text.isBlank b = true) →
      Lexed p blanks [.finish ((p.after blanks).span [])]
  | token {p : Position} : (∀ b ∈ blanks, Text.isBlank b = true) → Text.isBlank c = false →
      Lexeme.cut (c :: cs ++ rest) = (shape, (c :: cs).length) →
      Lexeme.kind (p.after blanks) (c :: cs) shape = .ok k →
      Lexed ((p.after blanks).after (c :: cs)) rest ts →
      Lexed p (blanks ++ (c :: cs ++ rest))
        (⟨k, String.ofList (c :: cs), (p.after blanks).span (c :: cs)⟩ :: ts)

/-- A lexeme is what the reader takes off the front of a text, and the rest is what it leaves. -/
theorem cut_split {c : Char} {cs : List Char} {shape : Lexeme.Shape} {n : Nat}
    (h : Lexeme.cut (c :: cs) = (shape, n)) :
    c :: cs = c :: cs.take (n - 1) ++ cs.drop (n - 1) ∧
      Lexeme.cut (c :: cs.take (n - 1) ++ cs.drop (n - 1)) = (shape, (c :: cs.take (n - 1)).length) := by
  obtain ⟨lexeme, rest, hsplit, hlength, hshaped⟩ := Lexeme.finds_of_cut h
  obtain ⟨d, lexeme, rfl⟩ := List.exists_cons_of_ne_nil hshaped.ne_nil
  rw [List.cons_append, List.cons.injEq] at hsplit
  obtain ⟨rfl, rfl⟩ := hsplit
  have hsame : c :: (lexeme ++ rest).take (n - 1) ++ (lexeme ++ rest).drop (n - 1) = c :: (lexeme ++ rest) := by
    simp
  have hcount : (c :: (lexeme ++ rest).take (n - 1)).length = n := by
    simp [hlength]
  exact ⟨hsame.symm, by rw [hsame, hcount, h]⟩

theorem blanks_before {cs rest : List Char} {c : Char} (h : cs.dropWhile Text.isBlank = c :: rest) :
    cs = cs.takeWhile Text.isBlank ++ c :: rest ∧ (∀ b ∈ cs.takeWhile Text.isBlank, Text.isBlank b = true) ∧
      Text.isBlank c = false := by
  refine ⟨by rw [← h, List.takeWhile_append_dropWhile], List.all_eq_true.mp List.all_takeWhile, ?_⟩
  have hne : cs.dropWhile Text.isBlank ≠ [] := by simp [h]
  have hhead := List.head_dropWhile_not Text.isBlank hne
  simpa [h] using hhead

theorem lexed_of_tokensFrom {p : Position} {done : List Token} {cs : List Char} {tokens : List Token}
    (h : tokensFrom p done cs = .ok tokens) :
    ∃ ts, tokens = done.reverse ++ ts ∧ Lexed p cs (ts ++ [.finish ((p.after cs).span [])]) := by
  fun_induction tokensFrom p done cs with
  | case1 p done cs hblank =>
    cases h
    have hblanks : ∀ b ∈ cs.takeWhile Text.isBlank, Text.isBlank b = true :=
      List.all_eq_true.mp List.all_takeWhile
    have htake : cs.takeWhile Text.isBlank = cs := by
      rw [← List.append_nil (cs.takeWhile Text.isBlank), ← hblank, List.takeWhile_append_dropWhile]
    rw [htake] at hblanks
    exact ⟨[], by simp, .finish hblanks⟩
  | case2 => cases h
  | case3 p done cs c rest hcs here shape length hcut lexeme kind hkind token ih =>
    obtain ⟨ts, rfl, hts⟩ := ih h
    refine ⟨token :: ts, by simp, ?_⟩
    obtain ⟨hsplit, hcut⟩ := cut_split hcut
    obtain ⟨hwhole, hblanks, hc⟩ := blanks_before hcs
    rw [hwhole, hsplit, p.after_append, Position.after_append]
    exact .token hblanks hc hcut hkind hts

theorem Lexed.tokensFrom {p : Position} {cs : List Char} {ts : List Token} (h : Lexed p cs ts)
    (done : List Token) :
    ∃ us, ts = us ++ [.finish ((p.after cs).span [])] ∧
      FilterSql.tokensFrom p done cs = .ok (done.reverse ++ us) := by
  induction h generalizing done with
  | @finish blanks p hblanks =>
    have hblank := tokensFrom_blanks hblanks p done []
    rw [List.append_nil] at hblank
    refine ⟨[], rfl, ?_⟩
    rw [hblank, FilterSql.tokensFrom]
    simp
  | @token blanks c cs rest shape k ts p hblanks hc hcut hkind _ ih =>
    let first : Token := ⟨k, String.ofList (c :: cs), (p.after blanks).span (c :: cs)⟩
    obtain ⟨us, rfl, hread⟩ := ih (first :: done)
    refine ⟨first :: us, ?_, ?_⟩
    · rw [p.after_append, Position.after_append, List.cons_append]
    · rw [tokensFrom_blanks hblanks, tokensFrom_lexeme hc hcut hkind, hread, List.reverse_cons, List.append_assoc]
      rfl

/-- Reading a text from its start follows the rules and accepts all that they give tokens. -/
theorem tokenize_eq_ok_iff {source : String} {tokens : List Token} :
    tokenize source = .ok tokens ↔ Lexed .start source.toList tokens := by
  constructor
  · intro h
    obtain ⟨ts, hts, rfl⟩ := tokenize_eq_ok h
    obtain ⟨us, rfl, hlexed⟩ := lexed_of_tokensFrom hts
    rwa [Source.start_after] at hlexed
  · intro h
    obtain ⟨us, rfl, hread⟩ := h.tokensFrom []
    rw [Source.start_after, tokenize, hread]
    rfl

theorem Lexed.ne_nil {p : Position} {cs : List Char} {ts : List Token} (h : Lexed p cs ts) : ts ≠ [] := by
  cases h <;> exact List.cons_ne_nil _ _

theorem Lexed.first {p : Position} {c : Char} {cs : List Char} {tokens : List Token}
    (h : Lexed p (c :: cs) tokens) (hc : Text.isBlank c = false) :
    ∃ lexeme rest shape k ts, cs = lexeme ++ rest ∧
      Lexeme.cut (c :: cs) = (shape, (c :: lexeme).length) ∧ Lexeme.kind p (c :: lexeme) shape = .ok k ∧
      tokens = ⟨k, String.ofList (c :: lexeme), p.span (c :: lexeme)⟩ :: ts ∧
      Lexed (p.after (c :: lexeme)) rest ts := by
  generalize hwhole : c :: cs = whole at h
  cases h with
  | finish hblanks =>
    subst hwhole
    rw [hblanks c List.mem_cons_self] at hc
    cases hc
  | @token blanks d lexeme rest shape k ts _ hblanks hd hcut hkind hrest =>
    cases blanks with
    | nil =>
      cases hwhole
      exact ⟨lexeme, rest, shape, k, ts, rfl, hcut, hkind, rfl, hrest⟩
    | cons b blanks =>
      cases hwhole
      rw [hblanks _ List.mem_cons_self] at hc
      cases hc

/-- A lexeme at the front of a text is the first that is read, and the rest is read behind it. -/
theorem Lexed.behind {p : Position} {c : Char} {cs rest : List Char} {shape : Lexeme.Shape} {tokens : List Token}
    (h : Lexed p (c :: cs ++ rest) tokens) (hc : Text.isBlank c = false)
    (hcut : Lexeme.cut (c :: cs ++ rest) = (shape, (c :: cs).length)) :
    ∃ k ts, Lexeme.kind p (c :: cs) shape = .ok k ∧
      tokens = ⟨k, String.ofList (c :: cs), p.span (c :: cs)⟩ :: ts ∧ Lexed (p.after (c :: cs)) rest ts := by
  rw [List.cons_append] at h hcut
  obtain ⟨lexeme, behind, found, k, ts, hsplit, hfound, hkind, htokens, hts⟩ := h.first hc
  rw [hcut] at hfound
  obtain ⟨rfl, hlength⟩ := Prod.mk.inj hfound
  obtain ⟨rfl, rfl⟩ := List.append_inj hsplit (Nat.succ.inj hlength)
  exact ⟨k, ts, hkind, htokens, hts⟩

theorem Lexed.blank {p : Position} {cs : List Char} {t : Token} (h : Lexed p cs [t]) :
    ∀ b ∈ cs, Text.isBlank b = true := by
  cases h with
  | finish hblanks => exact hblanks
  | token _ _ _ _ hrest => exact absurd rfl hrest.ne_nil

theorem Lexed.lexeme_of_mem {p : Position} {cs : List Char} {ts : List Token} (h : Lexed p cs ts) {t : Token}
    (ht : t ∈ ts) :
    t.kind = .finish ∨ ∃ q lexeme rest shape, Lexeme.Shaped lexeme rest shape ∧
      Lexeme.kind q lexeme shape = .ok t.kind ∧ t.lexeme = String.ofList lexeme := by
  induction h with
  | finish =>
    cases List.mem_singleton.mp ht
    exact .inl rfl
  | @token blanks c cs rest shape k ts p _ _ hcut hkind _ ih =>
    rcases List.mem_cons.mp ht with rfl | ht
    · exact .inr ⟨p.after blanks, c :: cs, rest, shape, Lexeme.shaped_of_cut hcut, hkind, rfl⟩
    · exact ih ht

theorem lexeme_of_error {p : Position} {done : List Token} {cs : List Char} {e : LexError}
    (h : tokensFrom p done cs = .error e) :
    ∃ q lexeme rest shape, Lexeme.Shaped lexeme rest shape ∧ Lexeme.kind q lexeme shape = .error e := by
  fun_induction tokensFrom p done cs with
  | case1 => cases h
  | case2 p done cs c rest hcs here shape length hcut lexeme error hkind =>
    cases h
    exact ⟨here, lexeme, _, shape, Lexeme.shaped_of_cut (cut_split hcut).2, hkind⟩
  | case3 p done cs c rest hcs here shape length hcut lexeme kind hkind token ih => exact ih h

def kindsIn (source : String) : Except LexError (List Token.Kind) := (tokenize source).map (List.map Token.kind)

theorem kindsIn_eq_ok_iff {source : String} {kinds : List Token.Kind} :
    kindsIn source = .ok kinds ↔ ∃ ts, Lexed .start source.toList ts ∧ ts.map Token.kind = kinds := by
  simp only [← tokenize_eq_ok_iff, kindsIn]
  cases tokenize source with
  | error e => simp [Except.map]
  | ok tokens => simp [Except.map]

theorem kindsIn_lexeme {source : String} {c : Char} {cs : List Char} {shape : Lexeme.Shape}
    (hsource : source.toList = c :: cs) (hc : Text.isBlank c = false)
    (hcut : Lexeme.cut (c :: cs) = (shape, (c :: cs).length)) {k : Token.Kind} :
    kindsIn source = .ok [k, .finish] ↔ Lexeme.kind .start (c :: cs) shape = .ok k := by
  have hwhole : c :: cs ++ [] = c :: cs := List.append_nil _
  have hcut : Lexeme.cut (c :: cs ++ []) = (shape, (c :: cs).length) := by rw [hwhole, hcut]
  rw [← hwhole] at hsource
  rw [kindsIn_eq_ok_iff, hsource]
  constructor
  · rintro ⟨ts, hts, hkinds⟩
    obtain ⟨k', ts, hkind, rfl, -⟩ := hts.behind hc hcut
    obtain ⟨rfl, -⟩ := List.cons.inj hkinds
    exact hkind
  · intro hkind
    have hlexed : Lexed .start ([] ++ (c :: cs ++ [])) _ :=
      .token (List.forall_mem_nil _) hc hcut hkind (.finish (List.forall_mem_nil _))
    exact ⟨_, hlexed, rfl⟩

end FilterSql
