import FilterSql.Expr.Basic
import FilterSql.Proofs.TokenLayout

/-! What is cut off the front of a text that begins with a symbol, a word, a number or a string and goes on
with something else: the whole of it, as what it is, whatever the rest may be. -/
namespace FilterSql

namespace Text

theorem isAlpha_iff {c : Char} : c.isAlpha = true ↔ 'A' ≤ c ∧ c ≤ 'Z' ∨ 'a' ≤ c ∧ c ≤ 'z' := by
  have h : c.isAlpha = (decide ('A' ≤ c ∧ c ≤ 'Z') || decide ('a' ≤ c) && decide (c ≤ 'z')) := rfl
  simp [h]

theorem isDigit_of_isNameStart {c : Char} (h : isNameStart c = true) : c.isDigit = false := by
  simp only [isNameStart, Bool.or_eq_true, isAlpha_iff, beq_iff_eq, Char.le_def, UInt32.le_iff_toNat_le] at h
  simp only [Char.isDigit, Bool.and_eq_false_iff, decide_eq_false_iff_not, ge_iff_le, UInt32.le_iff_toNat_le]
  rcases h with (⟨hlow, -⟩ | ⟨hlow, -⟩) | rfl
  · right
    simp at hlow ⊢
    omega
  · right
    simp at hlow ⊢
    omega
  · right
    decide

theorem splitOn_join {separator : Char} {parts : List String} (hne : parts ≠ [])
    (h : ∀ s ∈ parts, separator ∉ s.toList) :
    ((String.singleton separator).intercalate parts).toList.splitOn separator = parts.map String.toList := by
  rw [String.toList_intercalate, String.toList_singleton]
  exact List.splitOn_intercalate separator (by simpa using h) (by simpa using hne)

theorem isWordChar_of_isNamePart {c : Char} (h : isNamePart c = true) : isWordChar c = true := by
  rw [isWordChar, h, Bool.true_or]

theorem isWordChar_of_isDigit {c : Char} (h : c.isDigit = true) : isWordChar c = true :=
  isWordChar_of_isNamePart (by rw [isNamePart, h, Bool.or_true])

theorem isBlank_of_isWordChar {c : Char} (h : isWordChar c = true) : isBlank c = false := by
  rw [Bool.eq_false_iff]
  intro hblank
  simp only [isBlank, Bool.or_eq_true, beq_iff_eq] at hblank
  rcases hblank with ((rfl | rfl) | rfl) | rfl <;> exact absurd h (by decide)

theorem isWordChar_of_isNameStart {c : Char} (h : isNameStart c = true) : isWordChar c = true :=
  isWordChar_of_isNamePart (by rw [isNamePart, h, Bool.true_or])

theorem exists_cons_of_isIdentifier {word : List Char} (h : isIdentifier word = true) :
    ∃ c cs, word = c :: cs ∧ isNameStart c = true := by
  cases word with
  | nil => cases h
  | cons c cs => exact ⟨c, cs, rfl, (Bool.and_eq_true_iff.mp h).1⟩

theorem isNamePart_of_isIdentifier {word : List Char} (h : isIdentifier word = true) :
    ∀ c ∈ word, isNamePart c = true := by
  cases word with
  | nil => simp
  | cons c cs =>
    simp only [isIdentifier, Bool.and_eq_true, List.all_eq_true] at h
    simpa [isNamePart, h.1] using h.2

end Text

namespace Lexeme

open FilterSql.Text

/-- Text that goes on with no word or number and makes no call of one. -/
def Clear (rest : List Char) : Prop := ∀ c, rest.head? = some c → isWordChar c = false ∧ c ≠ '('

theorem Clear.continuesWord (h : Clear rest) : continuesWord rest = false := by
  cases rest with
  | nil => rfl
  | cons c rest => exact (h c rfl).1

theorem Clear.not_opens (h : Clear rest) : rest.head? ≠ some '(' := fun hopen => (h '(' hopen).2 rfl

section Symbols

variable {c : Char}

theorem signLength_eq_zero (h : c ≠ '-') (cs : List Char) : signLength (c :: cs) = 0 := by
  unfold signLength
  split
  case h_1 heq =>
    cases heq
    exact absurd rfl h
  case h_2 => rfl

theorem cut_of_ne (hquote : c ≠ '"') (hminus : c ≠ '-') (hdigit : c.isDigit = false) (cs : List Char) :
    cut (c :: cs) = ((symbol? (c :: cs)).map (Prod.map Shape.symbol id)
      <|> (boolean? (c :: cs)).map (Prod.map Shape.boolean id)
      <|> (call? (c :: cs)).map (Prod.mk Shape.call)
      <|> (name? (c :: cs)).map (Prod.mk Shape.name)).getD (.illegal, 1) := by
  have hsign := signLength_eq_zero hminus cs
  have hnumber : number? (c :: cs) = none := by simp [number?, hsign, digitsLength, hdigit]
  have hbad : badNumber? (c :: cs) = none := by simp [badNumber?, hsign, hdigit]
  unfold cut
  split
  case h_1 heq =>
    cases heq
    exact absurd rfl hquote
  case h_2 =>
    rw [hnumber, hbad]
    rfl

def opensSymbol (sign : Symbol) : Bool := sign = .not || sign = .compare .less || sign = .compare .greater

theorem symbol?_text (sign : Symbol) {rest : List Char}
    (h : opensSymbol sign = true → rest.head? ≠ some '=') :
    symbol? (sign.text.toList ++ rest) = some (sign, sign.text.toList.length) := by
  by_cases hopens : opensSymbol sign = true
  · have hne := h hopens
    simp only [opensSymbol, Bool.or_eq_true, decide_eq_true_eq] at hopens
    cases rest with
    | nil => rcases hopens with (rfl | rfl) | rfl <;> rfl
    | cons d rest =>
      have hd : d ≠ '=' := by simpa using hne
      rcases hopens with (rfl | rfl) | rfl <;>
        simp [Symbol.text, Negation.symbol, Comparison.symbol, symbol?, hd]
  · cases sign with
    | compare operator => cases operator <;> first | rfl | exact absurd rfl hopens
    | connect connective => cases connective <;> rfl
    | not => exact absurd rfl hopens
    | _ => rfl

theorem cut_symbol (sign : Symbol) {rest : List Char}
    (h : opensSymbol sign = true → rest.head? ≠ some '=') :
    cut (sign.text.toList ++ rest) = (.symbol sign, sign.text.toList.length) := by
  have hsymbol := symbol?_text sign h
  have hfirst : ∃ c cs, sign.text.toList = c :: cs ∧ c ≠ '"' ∧ c ≠ '-' ∧ c.isDigit = false := by
    cases sign with
    | compare operator => cases operator <;> exact ⟨_, _, rfl, by decide, by decide, rfl⟩
    | connect connective => cases connective <;> exact ⟨_, _, rfl, by decide, by decide, rfl⟩
    | _ => exact ⟨_, _, rfl, by decide, by decide, rfl⟩
  obtain ⟨c, cs, hchars, hquote, hminus, hdigit⟩ := hfirst
  rw [hchars, List.cons_append] at hsymbol ⊢
  rw [cut_of_ne hquote hminus hdigit, hsymbol]
  rfl

end Symbols

section Words

variable {c : Char}

theorem ne_of_isNameStart {d : Char} (h : isNameStart c = true) (hd : isNameStart d = false) : c ≠ d := by
  rintro rfl
  rw [h] at hd
  cases hd

theorem symbol?_eq_none (h : isNameStart c = true) (cs : List Char) : symbol? (c :: cs) = none := by
  unfold symbol?
  split <;> first | rfl | (rename_i heq; cases heq; exact absurd h (by decide))

theorem cut_word (h : isNameStart c = true) (cs : List Char) :
    cut (c :: cs) = ((boolean? (c :: cs)).map (Prod.map Shape.boolean id)
      <|> (call? (c :: cs)).map (Prod.mk Shape.call)
      <|> (name? (c :: cs)).map (Prod.mk Shape.name)).getD (.illegal, 1) := by
  rw [cut_of_ne (ne_of_isNameStart h (by decide)) (ne_of_isNameStart h (by decide))
    (isDigit_of_isNameStart h), symbol?_eq_none h]
  rfl

theorem boolean?_eq_none {word rest : List Char} (hword : ∀ c ∈ word, isWordChar c = true)
    (hrest : continuesWord rest = false) (htrue : word ≠ ['t', 'r', 'u', 'e'])
    (hfalse : word ≠ ['f', 'a', 'l', 's', 'e']) : boolean? (word ++ rest) = none := by
  have hgoes : ∀ text cs : List Char, text.all isWordChar = true → word ≠ text →
      word ++ rest = text ++ cs → continuesWord cs = true := by
    intro text cs htext hne heq
    rcases List.append_eq_append_iff.mp heq with ⟨more, rfl, hmore⟩ | ⟨more, rfl, hmore⟩
    · cases more with
      | nil => simp at hne
      | cons d more =>
        have hd : isWordChar d = true := List.all_eq_true.mp htext d (by simp)
        rw [hmore, List.cons_append, continuesWord, hd] at hrest
        cases hrest
    · cases more with
      | nil => simp at hne
      | cons d more =>
        rw [hmore, List.cons_append, continuesWord]
        exact hword d (by simp)
  unfold boolean?
  split
  case h_1 cs heq => rw [if_pos (hgoes ['t', 'r', 'u', 'e'] cs rfl htrue heq)]
  case h_2 cs heq => rw [if_pos (hgoes ['f', 'a', 'l', 's', 'e'] cs rfl hfalse heq)]
  case h_3 => rfl

theorem cut_boolean (b : Bool) {rest : List Char} (h : continuesWord rest = false) :
    cut ((boolText b).toList ++ rest) = (.boolean b, (boolText b).toList.length) := by
  cases b with
  | true =>
    have htext : (boolText true).toList = ['t', 'r', 'u', 'e'] := rfl
    rw [htext, List.cons_append, cut_word (by decide)]
    simp [boolean?, h]
  | false =>
    have htext : (boolText false).toList = ['f', 'a', 'l', 's', 'e'] := rfl
    rw [htext, List.cons_append, cut_word (by decide)]
    simp [boolean?, h]

theorem cut_call {word : List Char} (hword : isIdentifier word = true) (htrue : word ≠ ['t', 'r', 'u', 'e'])
    (hfalse : word ≠ ['f', 'a', 'l', 's', 'e']) (rest : List Char) :
    cut (word ++ '(' :: rest) = (.call, word.length) := by
  have hparts := isNamePart_of_isIdentifier hword
  have hboolean : boolean? (word ++ '(' :: rest) = none :=
    boolean?_eq_none (fun c hc => isWordChar_of_isNamePart (hparts c hc)) rfl htrue hfalse
  obtain ⟨c, cs, rfl, hstart⟩ := exists_cons_of_isIdentifier hword
  have htake : (cs ++ '(' :: rest).takeWhile isNamePart = cs := by
    rw [List.takeWhile_append_of_pos fun d hd => hparts d (List.mem_cons_of_mem c hd)]
    simp [show isNamePart '(' = false by decide]
  have hcall : call? (c :: (cs ++ '(' :: rest)) = some (cs.length + 1) := by
    simp [call?, word?, hstart, htake, Nat.add_comm 1]
  rw [List.cons_append] at hboolean ⊢
  rw [cut_word hstart, hboolean, hcall]
  rfl

theorem dotted_namePart {cs : List Char} (h : ∀ c ∈ cs, isNamePart c = true) (n : Nat) (rest : List Char) :
    dotted n (cs ++ rest) = dotted (n + cs.length) rest := by
  induction cs generalizing n with
  | nil => rfl
  | cons c cs ih =>
    obtain ⟨hc, hcs⟩ := List.forall_mem_cons.mp h
    rw [List.cons_append, dotted, hc, Bool.true_or, if_pos rfl, ih hcs, List.length_cons]
    congr 1
    omega

theorem dotted_stop {rest : List Char} (h : continuesWord rest = false) (n : Nat) : dotted n rest = n := by
  cases rest with
  | nil => rfl
  | cons c rest =>
    have hc : isWordChar c = false := h
    simp only [isWordChar, Bool.or_eq_false_iff] at hc
    rw [dotted, hc.1, hc.2, Bool.false_or, Bool.false_and, if_neg Bool.false_ne_true]

theorem takeWhile_stop {p : Char → Bool} (hp : ∀ c, p c = true → isWordChar c = true) {rest : List Char}
    (hrest : continuesWord rest = false) : rest.takeWhile p = [] := by
  cases rest with
  | nil => rfl
  | cons c rest =>
    have hc : isWordChar c = false := hrest
    rw [List.takeWhile_cons, if_neg]
    intro hpc
    have hword := hp c hpc
    rw [hc] at hword
    cases hword

theorem call?_eq_none {cs rest : List Char} (hcs : ∀ d ∈ cs, isWordChar d = true)
    (hrest : continuesWord rest = false) (hopen : rest.head? = some '(' → isIdentifier (c :: cs) = false)
    (hstart : isNameStart c = true) : call? (c :: (cs ++ rest)) = none := by
  have htake : (cs ++ rest).takeWhile isNamePart = cs.takeWhile isNamePart := by
    rw [List.takeWhile_append]
    split
    case isTrue hwhole =>
      rw [takeWhile_stop (fun _ => isWordChar_of_isNamePart) hrest, List.append_nil]
      exact (List.takeWhile_sublist _).eq_of_length hwhole |>.symm
    case isFalse => rfl
  have hhead : ((cs ++ rest).drop (cs.takeWhile isNamePart).length).head? ≠ some '(' := by
    rw [List.drop_append_of_le_length (List.takeWhile_sublist _).length_le]
    cases htail : cs.drop (cs.takeWhile isNamePart).length with
    | nil =>
      intro heq
      have hwhole : cs.takeWhile isNamePart = cs := by
        refine (List.takeWhile_sublist _).eq_of_length_le ?_
        simpa using htail
      have hword : isIdentifier (c :: cs) = true := by
        rw [isIdentifier, hstart, ← hwhole, List.all_takeWhile]
        rfl
      rw [hopen heq] at hword
      cases hword
    | cons d ds =>
      have hmem : d ∈ cs := List.mem_of_mem_drop (htail ▸ List.mem_cons_self)
      rintro heq
      cases heq
      exact absurd (hcs '(' hmem) (by decide)
  rw [call?, word?, if_pos hstart, Option.filter_some, htake, Nat.add_comm 1, List.drop_succ_cons, if_neg]
  simpa using hhead

theorem exists_cons_of_path {segments : List String} (hne : segments ≠ [])
    (hall : ∀ s ∈ segments, isIdentifier s.toList = true) :
    ∃ c cs, (".".intercalate segments).toList = c :: cs ∧ isNameStart c = true := by
  obtain ⟨s, ss, rfl⟩ := List.exists_cons_of_ne_nil hne
  obtain ⟨c, cs, hchars, hstart⟩ := exists_cons_of_isIdentifier (hall s List.mem_cons_self)
  cases ss with
  | nil => exact ⟨c, cs, by simp [hchars], hstart⟩
  | cons t ss =>
    exact ⟨c, cs ++ ".".toList ++ (".".intercalate (t :: ss)).toList,
      by simp [String.intercalate_cons_cons, hchars], hstart⟩

theorem dotted_path {segments : List String} (hne : segments ≠ [])
    (hall : ∀ s ∈ segments, isIdentifier s.toList = true) {rest : List Char}
    (hrest : continuesWord rest = false) (n : Nat) :
    dotted n ((".".intercalate segments).toList ++ rest) = n + (".".intercalate segments).toList.length := by
  induction segments generalizing n with
  | nil => exact absurd rfl hne
  | cons s ss ih =>
    obtain ⟨hs, hss⟩ := List.forall_mem_cons.mp hall
    have hparts := isNamePart_of_isIdentifier hs
    cases ss with
    | nil => rw [String.intercalate_singleton, dotted_namePart hparts, dotted_stop hrest]
    | cons t ss =>
      have hnext : startsName ((".".intercalate (t :: ss)).toList ++ rest) = true := by
        obtain ⟨c, cs, hchars, hstart⟩ := exists_cons_of_path (List.cons_ne_nil t ss) hss
        rw [hchars]
        exact hstart
      have hdot : dotted (n + s.toList.length) ('.' :: ((".".intercalate (t :: ss)).toList ++ rest)) =
          dotted (n + s.toList.length + 1) ((".".intercalate (t :: ss)).toList ++ rest) := by
        rw [dotted, hnext]
        rfl
      simp only [String.intercalate_cons_cons, String.toList_append, List.append_assoc, List.length_append]
      rw [dotted_namePart hparts]
      refine hdot.trans ?_
      rw [ih (List.cons_ne_nil t ss) hss]
      simp only [show ".".toList.length = 1 from rfl]
      omega

theorem isWordChar_of_mem_path {segments : List String}
    (hall : ∀ s ∈ segments, isIdentifier s.toList = true) :
    ∀ c ∈ (".".intercalate segments).toList, isWordChar c = true := by
  induction segments with
  | nil => simp
  | cons s ss ih =>
    obtain ⟨hs, hss⟩ := List.forall_mem_cons.mp hall
    have hparts : ∀ c ∈ s.toList, isWordChar c = true :=
      fun c hc => isWordChar_of_isNamePart (isNamePart_of_isIdentifier hs c hc)
    cases ss with
    | nil => rwa [String.intercalate_singleton]
    | cons t ss =>
      simp only [String.intercalate_cons_cons, String.toList_append, List.forall_mem_append]
      have hdot : ∀ c ∈ ".".toList, isWordChar c = true := List.all_eq_true.mp rfl
      exact ⟨⟨hparts, hdot⟩, ih hss⟩

theorem cut_path {path : Path} (hne : path.segments ≠ [])
    (hall : ∀ s ∈ path.segments, isIdentifier s.toList = true) (htrue : path.text ≠ "true")
    (hfalse : path.text ≠ "false") {rest : List Char} (hrest : continuesWord rest = false)
    (hopen : rest.head? = some '(' → isIdentifier path.text.toList = false) :
    cut (path.text.toList ++ rest) = (.name, path.text.toList.length) := by
  have hwords := isWordChar_of_mem_path hall
  have hlength := dotted_path hne hall hrest 0
  have hboolean : boolean? (path.text.toList ++ rest) = none := by
    refine boolean?_eq_none hwords hrest ?_ ?_
    · intro heq
      exact htrue (String.toList_injective heq)
    · intro heq
      exact hfalse (String.toList_injective heq)
  obtain ⟨c, cs, hchars, hstart⟩ := exists_cons_of_path hne hall
  unfold Path.text at hboolean hopen ⊢
  rw [hchars] at hwords hlength hboolean hopen ⊢
  rw [List.cons_append] at hlength hboolean ⊢
  have hcall : call? (c :: (cs ++ rest)) = none :=
    call?_eq_none (fun d hd => hwords d (List.mem_cons_of_mem c hd)) hrest hopen hstart
  have hname : name? (c :: (cs ++ rest)) = some (c :: cs).length := by
    have hstarts : startsName (c :: (cs ++ rest)) = true := hstart
    rw [name?, if_pos hstarts, hlength, Nat.zero_add]
  rw [cut_word hstart, hboolean, hcall, hname]
  rfl

end Words

section Numbers

theorem number?_numeral {sign digits fraction rest : List Char} (hsign : sign = [] ∨ sign = ['-'])
    (hne : digits ≠ []) (hdigits : ∀ c ∈ digits, c.isDigit = true)
    (hfraction : fraction = [] ∨ ∃ more, fraction = '.' :: more ∧ more ≠ [] ∧ ∀ c ∈ more, c.isDigit = true)
    (hrest : continuesWord rest = false) :
    number? (sign ++ digits ++ fraction ++ rest) = some (sign ++ digits ++ fraction).length := by
  have hdigitsLength : ∀ {ds tail : List Char}, (∀ c ∈ ds, c.isDigit = true) → tail.takeWhile Char.isDigit = [] →
      digitsLength (ds ++ tail) = ds.length := by
    intro ds tail hds htail
    rw [digitsLength, List.takeWhile_append_of_pos hds, htail, List.append_nil]
  have hstop : rest.takeWhile Char.isDigit = [] := takeWhile_stop (fun _ => isWordChar_of_isDigit) hrest
  have hlength : signLength (sign ++ digits ++ fraction ++ rest) = sign.length := by
    rcases hsign with rfl | rfl
    · obtain ⟨c, cs, rfl⟩ := List.exists_cons_of_ne_nil hne
      refine signLength_eq_zero ?_ _
      rintro rfl
      exact absurd (hdigits '-' List.mem_cons_self) (by decide)
    · rfl
  have hwhole : digitsLength (digits ++ (fraction ++ rest)) = digits.length := by
    refine hdigitsLength hdigits ?_
    rcases hfraction with rfl | ⟨more, rfl, -⟩
    · exact hstop
    · rfl
  have hpoint : fractionLength (fraction ++ rest) = fraction.length := by
    rcases hfraction with rfl | ⟨more, rfl, hmore, hall⟩
    · unfold fractionLength
      split
      case h_1 cs heq =>
        rw [List.nil_append] at heq
        rw [heq] at hrest
        cases hrest
      case h_2 => rfl
    · have hpos : more.length ≠ 0 := by simpa using hmore
      rw [List.cons_append, fractionLength, hdigitsLength hall hstop, if_neg hpos, List.length_cons]
  have hdigitsOn : (sign ++ digits ++ fraction ++ rest).drop sign.length = digits ++ (fraction ++ rest) := by
    rw [List.append_assoc, List.append_assoc, List.drop_left]
  have hpointOn : (sign ++ digits ++ fraction ++ rest).drop (sign.length + digits.length) = fraction ++ rest := by
    rw [List.append_assoc, ← List.length_append, List.drop_left]
  have hrestOn : (sign ++ digits ++ fraction ++ rest).drop (sign.length + digits.length + fraction.length) =
      rest := by
    rw [← List.length_append, ← List.length_append, List.drop_left]
  have hpos : digits.length ≠ 0 := by simpa using hne
  unfold number?
  simp only [hlength, hdigitsOn, hwhole, hpointOn, hpoint, hrestOn, hrest]
  simp [hpos, Nat.add_assoc]

theorem natural_toDigits (n : Nat) : Numeral.natural (Nat.toDigits 10 n) = n :=
  Nat.ofDigitChars_ten_toDigits

theorem sign_digits {digits : List Char} (h : ∀ c ∈ digits, c.isDigit = true) :
    Numeral.sign digits = (false, digits) := by
  unfold Numeral.sign
  split
  case h_1 cs => exact absurd (h '-' List.mem_cons_self) (by decide)
  case h_2 => rfl

theorem toList_toString_int (n : Int) :
    ∃ sign digits, (sign = [] ∨ sign = ['-']) ∧ digits ≠ [] ∧ (∀ c ∈ digits, c.isDigit = true) ∧
      (toString n).toList = sign ++ digits ∧ Numeral.integer (sign ++ digits) = n := by
  have hdigits : ∀ m, ∀ c ∈ Nat.toDigits 10 m, c.isDigit = true := fun _ _ =>
    Nat.isDigit_of_mem_toDigits (by decide) (by decide)
  cases n with
  | ofNat m =>
    refine ⟨[], Nat.toDigits 10 m, .inl rfl, Nat.toDigits_ne_nil, hdigits m, Nat.toList_repr, ?_⟩
    rw [List.nil_append, Numeral.integer, sign_digits (hdigits m)]
    exact congrArg Int.ofNat (natural_toDigits m)
  | negSucc m =>
    refine ⟨['-'], Nat.toDigits 10 (m + 1), .inr rfl, Nat.toDigits_ne_nil, hdigits (m + 1), ?_, ?_⟩
    · rw [Int.toString_eq_repr, Int.repr, String.toList_append, Nat.toList_repr]
      rfl
    · exact congrArg (fun k : Nat => -(k : Int)) (natural_toDigits (m + 1))

theorem cut_of_number? {c : Char} {cs : List Char} {n : Nat} (h : number? (c :: cs) = some n) :
    cut (c :: cs) = (.number, n) := by
  unfold cut
  split
  case h_1 body heq =>
    cases heq
    cases h
  case h_2 =>
    rw [h]
    rfl

theorem cut_numeral {sign digits fraction rest : List Char} (hsign : sign = [] ∨ sign = ['-'])
    (hne : digits ≠ []) (hdigits : ∀ c ∈ digits, c.isDigit = true)
    (hfraction : fraction = [] ∨ ∃ more, fraction = '.' :: more ∧ more ≠ [] ∧ ∀ c ∈ more, c.isDigit = true)
    (hrest : continuesWord rest = false) :
    cut (sign ++ digits ++ fraction ++ rest) = (.number, (sign ++ digits ++ fraction).length) := by
  have hnumber := number?_numeral hsign hne hdigits hfraction hrest
  obtain ⟨c, cs, hcs⟩ : ∃ c cs, sign ++ digits ++ fraction ++ rest = c :: cs := by
    refine List.exists_cons_of_ne_nil ?_
    simp [hne]
  rw [hcs] at hnumber ⊢
  exact cut_of_number? hnumber

theorem cut_number {sign digits rest : List Char} (hsign : sign = [] ∨ sign = ['-']) (hne : digits ≠ [])
    (hdigits : ∀ c ∈ digits, c.isDigit = true) (hrest : continuesWord rest = false) :
    cut (sign ++ digits ++ rest) = (.number, (sign ++ digits).length) := by
  have hcut := cut_numeral hsign hne hdigits (.inl rfl) hrest
  rwa [List.append_nil] at hcut

theorem not_mem_numeral {sign digits : List Char} (hsign : sign = [] ∨ sign = ['-'])
    (hdigits : ∀ c ∈ digits, c.isDigit = true) : '.' ∉ sign ++ digits := by
  rw [List.mem_append]
  rintro (hmem | hmem)
  · rcases hsign with rfl | rfl <;> simp at hmem
  · exact absurd (hdigits '.' hmem) (by decide)

theorem numberKind_digits {sign digits : List Char} (hsign : sign = [] ∨ sign = ['-'])
    (hdigits : ∀ c ∈ digits, c.isDigit = true)
    (hfits : Numeral.fitsInt64 (Numeral.integer (sign ++ digits)) = true) (p : Position) :
    numberKind p (sign ++ digits) = .ok (.literal (.integer (Numeral.integer (sign ++ digits)))) := by
  have hcontains : (sign ++ digits).contains '.' = false := by simpa using not_mem_numeral hsign hdigits
  unfold numberKind
  rw [hcontains, if_neg Bool.false_ne_true]
  exact if_pos hfits

end Numbers

section Strings

def escapeChar (c : Char) : List Char := if c = '"' ∨ c = '\\' then ['\\', c] else [c]

theorem closingQuote?_escaped (cs rest : List Char) (n : Nat) :
    closingQuote? n (cs.flatMap escapeChar ++ '"' :: rest) =
      some (n + (cs.flatMap escapeChar).length + 1) := by
  induction cs generalizing n with
  | nil => simp [closingQuote?]
  | cons c cs ih =>
    rw [List.flatMap_cons, List.append_assoc, escapeChar]
    split
    case isTrue hc =>
      have hstep : closingQuote? n (['\\', c] ++ (cs.flatMap escapeChar ++ '"' :: rest)) =
          closingQuote? (n + 2) (cs.flatMap escapeChar ++ '"' :: rest) := by simp [closingQuote?]
      rw [hstep, ih]
      simp
      omega
    case isFalse hc =>
      simp only [not_or] at hc
      have hstep : closingQuote? n ([c] ++ (cs.flatMap escapeChar ++ '"' :: rest)) =
          closingQuote? (n + 1) (cs.flatMap escapeChar ++ '"' :: rest) := by simp [closingQuote?, hc]
      rw [hstep, ih]
      simp
      omega

theorem unescape_escaped {cs : List Char} (h : '\x00' ∉ cs) (literal : Span) (passed done : List Char) :
    unescape literal passed done (cs.flatMap escapeChar) = .ok (done.reverse ++ cs) := by
  induction cs generalizing passed done with
  | nil => simp [unescape]
  | cons c cs ih =>
    rw [List.mem_cons, not_or] at h
    obtain ⟨hc, hcs⟩ := h
    rw [List.flatMap_cons, escapeChar]
    split
    case isTrue hescape =>
      have hshort : shortEscape? c = some c := by
        rcases hescape with rfl | rfl <;> rfl
      have hu : c ≠ 'u' := by
        rcases hescape with rfl | rfl <;> decide
      have hstep : unescape literal passed done (['\\', c] ++ cs.flatMap escapeChar) =
          unescape literal (c :: '\\' :: passed) (c :: done) (cs.flatMap escapeChar) := by
        simp [unescape, hshort, hu]
      rw [hstep, ih hcs]
      simp
    case isFalse hplain =>
      simp only [not_or] at hplain
      have hstep : unescape literal passed done ([c] ++ cs.flatMap escapeChar) =
          unescape literal (c :: passed) (c :: done) (cs.flatMap escapeChar) := by
        simp [unescape, hplain, Ne.symm hc]
      rw [hstep, ih hcs]
      simp

theorem cut_string (cs rest : List Char) :
    cut ('"' :: (cs.flatMap escapeChar ++ ['"']) ++ rest) =
      (.closedString, ('"' :: (cs.flatMap escapeChar ++ ['"'])).length) := by
  have hclose := closingQuote?_escaped cs rest 1
  simp only [List.cons_append, List.append_assoc, List.nil_append, cut, hclose, List.length_cons,
    List.length_append, List.length_nil]
  congr 1
  omega

theorem kind_string {cs : List Char} (h : '\x00' ∉ cs) (p : Position) :
    kind p ('"' :: (cs.flatMap escapeChar ++ ['"'])) .closedString =
      .ok (.literal (.text (String.ofList cs))) := by
  have hbody : (('"' :: (cs.flatMap escapeChar ++ ['"'])).drop 1).dropLast = cs.flatMap escapeChar := by
    simp
  unfold kind
  simp only [hbody, unescape_escaped h, List.reverse_nil, List.nil_append]

end Strings

end Lexeme

end FilterSql
