import FilterSql.Proofs.FieldNames
import FilterSql.Proofs.StringLiterals

/-! Where lexemes end. What is cut off the front of a text depends on the first character behind it and on
nothing further, so a lexeme stays what it is if that character is kept or gives way to a blank or to the end.
There are two exceptions. The name of a call needs its parenthesis, and a name before a dot, where no reading
goes on, may turn out to be a truth value when the dot is gone. -/
namespace FilterSql

namespace Lexeme

open FilterSql.Text

/-- What may come in the place of `rest`: it begins like `rest` or with a blank, or is empty. -/
def Replaces (rest' rest : List Char) : Prop :=
  ∀ c, rest'.head? = some c → rest.head? = some c ∨ isBlank c = true

section Replacing

variable {rest rest' : List Char}

theorem replaces_nil : Replaces [] rest := by
  intro c h
  cases h

theorem Replaces.of_head? (h : rest'.head? = rest.head?) : Replaces rest' rest := by
  intro c hc
  exact .inl (h ▸ hc)

theorem Replaces.of_blank {blanks : List Char} (hne : blanks ≠ []) (h : ∀ b ∈ blanks, isBlank b = true) :
    Replaces (blanks ++ rest') rest := by
  obtain ⟨b, blanks, rfl⟩ := List.exists_cons_of_ne_nil hne
  intro c hc
  cases hc
  exact .inr (h b List.mem_cons_self)

theorem Replaces.head_ne (h : Replaces rest' rest) {c : Char} (hc : isBlank c = false)
    (hne : rest.head? ≠ some c) : rest'.head? ≠ some c := by
  intro hhead
  rcases h c hhead with hsame | hblank
  · exact hne hsame
  · rw [hc] at hblank
    cases hblank

theorem Replaces.continuesWord (h : Replaces rest' rest) (hrest : continuesWord rest = false) :
    continuesWord rest' = false := by
  cases rest' with
  | nil => rfl
  | cons c rest' =>
    by_contra hglued
    have hglued : isWordChar c = true := by simpa [Lexeme.continuesWord] using hglued
    refine h.head_ne (isBlank_of_isWordChar hglued) ?_ rfl
    intro hhead
    obtain ⟨more, rfl⟩ := List.head?_eq_some_iff.mp hhead
    rw [Lexeme.continuesWord, hglued] at hrest
    cases hrest

end Replacing

section Words

variable {name rest : List Char}

theorem continuesWord_of_opens (h : rest.head? = some '(') : continuesWord rest = false := by
  obtain ⟨more, rfl⟩ := List.head?_eq_some_iff.mp h
  rfl

theorem dotted_behind {n : Nat} (h : dotted n (name ++ rest) = n + name.length) :
    dotted (n + name.length) rest = n + name.length := by
  induction name generalizing n with
  | nil => exact h
  | cons c cs ih =>
    rw [List.length_cons, Nat.add_comm cs.length, ← Nat.add_assoc] at h ⊢
    rw [List.cons_append, dotted] at h
    split at h
    case isTrue => exact ih h
    case isFalse => omega

theorem continuesWord_of_cut_name (h : cut (name ++ rest) = (.name, name.length))
    (hname : isDottedName name = true) (hdot : rest.head? ≠ some '.') : continuesWord rest = false := by
  obtain ⟨c, cs, rfl, hstart⟩ := exists_cons_of_isDottedName hname
  have hstarts : startsName (c :: cs ++ rest) = true := hstart
  have hfound : name? (c :: cs ++ rest) = some (c :: cs).length := (rules_of_cut_name hstart h).2
  rw [name?, if_pos hstarts, Option.some.injEq, ← Nat.zero_add (c :: cs).length] at hfound
  have hstop := dotted_behind hfound
  cases rest with
  | nil => rfl
  | cons d more =>
    have hpart : isNamePart d = false := by
      by_contra hpart
      have hpart : isNamePart d = true := by simpa using hpart
      rw [dotted, hpart, Bool.true_or, if_pos rfl] at hstop
      have := le_dotted (0 + (c :: cs).length + 1) more
      omega
    have hpoint : d ≠ '.' := fun heq => hdot (congrArg some heq)
    rw [continuesWord, isWordChar, hpart, Bool.false_or, beq_eq_false_iff_ne]
    exact hpoint

theorem ne_truthWord_of_cut_name (h : cut (name ++ rest) = (.name, name.length)) (hdot : rest.head? ≠ some '.')
    (b : Bool) : name ≠ (boolText b).toList := by
  rintro rfl
  obtain ⟨more, rfl⟩ := dot_of_cut_truthWord h
  exact hdot rfl

theorem not_isIdentifier_of_cut_name (h : cut (name ++ rest) = (.name, name.length))
    (hopen : rest.head? = some '(') : isIdentifier name = false := by
  by_contra hword
  have hword : isIdentifier name = true := by simpa using hword
  have htruth := ne_truthWord_of_cut_name h (by rw [hopen]; decide)
  obtain ⟨more, rfl⟩ := List.head?_eq_some_iff.mp hopen
  rw [cut_call hword (htruth true) (htruth false)] at h
  cases h

end Words

theorem ne_equals_of_cut_symbol {sign : Symbol} {rest : List Char}
    (h : cut (sign.text.toList ++ rest) = (.symbol sign, sign.text.toList.length))
    (hopens : opensSymbol sign = true) : rest.head? ≠ some '=' := by
  intro hhead
  obtain ⟨more, rfl⟩ := List.head?_eq_some_iff.mp hhead
  simp only [opensSymbol, Bool.or_eq_true, decide_eq_true_eq] at hopens
  have hlonger : ∀ longer : Symbol, opensSymbol longer = false →
      longer.text.toList ++ more = sign.text.toList ++ '=' :: more → longer = sign := by
    intro longer hclosed hsame
    have hcut : cut (longer.text.toList ++ more) = _ :=
      cut_symbol longer fun hopens => absurd (hclosed.symm.trans hopens) Bool.false_ne_true
    rw [hsame, h] at hcut
    cases hcut
    rfl
  rcases hopens with (rfl | rfl) | rfl
  · cases hlonger (.compare .notEqual) rfl rfl
  · cases hlonger (.compare .lessEqual) rfl rfl
  · cases hlonger (.compare .greaterEqual) rfl rfl

theorem Shaped.whole {lexeme rest : List Char} (h : Shaped lexeme rest .number) (hpoint : '.' ∉ lexeme) :
    ∃ sign digits, lexeme = sign ++ digits ∧ (sign = [] ∨ sign = ['-']) ∧ digits ≠ [] ∧
      (∀ c ∈ digits, c.isDigit = true) ∧ continuesWord rest = false := by
  obtain ⟨sign, digits, fraction, rfl, hsign, hne, hdigits, hfraction, hrest⟩ := h
  obtain rfl : fraction = [] := by
    rcases hfraction with rfl | ⟨_, rfl, -⟩
    · rfl
    · simp at hpoint
  exact ⟨sign, digits, List.append_nil _, hsign, hne, hdigits, hrest⟩

theorem numberKind_eq_ok_iff {p : Position} {lexeme : List Char} {k : Token.Kind} :
    numberKind p lexeme = .ok k ↔
      ('.' ∈ lexeme ∧ k = .literal (.decimal (Numeral.decimal lexeme))) ∨
      ('.' ∉ lexeme ∧ Numeral.fitsInt64 (Numeral.integer lexeme) = true ∧
        k = .literal (.integer (Numeral.integer lexeme))) := by
  unfold numberKind
  by_cases hpoint : '.' ∈ lexeme
  · simp only [List.contains_iff_mem, hpoint, if_true, Except.ok.injEq, true_and, not_true, false_and, or_false]
    exact eq_comm
  · by_cases hfits : Numeral.fitsInt64 (Numeral.integer lexeme) = true
    · simp only [List.contains_iff_mem, hpoint, hfits, if_false, if_true, Except.ok.injEq, false_and, false_or,
        not_false_eq_true, true_and]
      exact eq_comm
    · simp [hpoint, hfits]

theorem numberKind_eq_error_iff {p : Position} {lexeme : List Char} {e : LexError} :
    numberKind p lexeme = .error e ↔
      '.' ∉ lexeme ∧ Numeral.fitsInt64 (Numeral.integer lexeme) = false ∧
        e = .invalidNumber (String.ofList lexeme) (p.span lexeme) := by
  unfold numberKind
  by_cases hpoint : '.' ∈ lexeme
  · simp [hpoint]
  · by_cases hfits : Numeral.fitsInt64 (Numeral.integer lexeme) = true
    · simp [hpoint, hfits]
    · simp only [List.contains_iff_mem, hpoint, hfits, Bool.false_eq_true, if_false, Except.error.injEq,
        not_false_eq_true, true_and]
      exact eq_comm

theorem kind_elsewhere {lexeme rest : List Char} {shape : Shape} {k : Token.Kind} {p : Position}
    (hshaped : Shaped lexeme rest shape) (h : kind p lexeme shape = .ok k) (q : Position) :
    kind q lexeme shape = .ok k := by
  cases shape with
  | closedString =>
    obtain ⟨body, rfl, hbody⟩ := hshaped
    rw [kind_closed_eq_ok_iff hbody] at h ⊢
    exact h
  | number =>
    rw [kind, numberKind_eq_ok_iff] at h ⊢
    exact h
  | openString => cases h
  | badNumber => cases h
  | illegal => cases h
  | _ => exact h

/-- A lexeme that becomes a token is cut off whole whatever comes behind it in the place of what was there. -/
theorem cut_replaced {c : Char} {cs rest rest' : List Char} {shape : Shape} {k : Token.Kind} {p : Position}
    (hcut : cut (c :: cs ++ rest) = (shape, (c :: cs).length)) (hkind : kind p (c :: cs) shape = .ok k)
    (h : Replaces rest' rest) (hdot : shape = .name → rest.head? ≠ some '.')
    (hcall : shape = .call → rest'.head? = some '(') :
    cut (c :: cs ++ rest') = (shape, (c :: cs).length) := by
  have hshaped := shaped_of_cut hcut
  cases shape with
  | closedString =>
    obtain ⟨body, hlexeme, hbody⟩ := hshaped
    rw [hlexeme]
    exact hbody.cut rest'
  | number =>
    obtain ⟨sign, digits, fraction, hlexeme, hsign, hne, hdigits, hfraction, hrest⟩ := hshaped
    rw [hlexeme]
    exact cut_numeral hsign hne hdigits hfraction (h.continuesWord hrest)
  | symbol sign =>
    have hlexeme : c :: cs = sign.text.toList := hshaped
    rw [hlexeme] at hcut ⊢
    exact cut_symbol sign fun hopens => h.head_ne rfl (ne_equals_of_cut_symbol hcut hopens)
  | boolean value =>
    obtain ⟨hlexeme, hrest⟩ := hshaped
    rw [hlexeme]
    exact cut_boolean value (h.continuesWord hrest)
  | call =>
    obtain ⟨hword, hopen⟩ := hshaped
    have htruth : ∀ b, c :: cs ≠ (boolText b).toList := by
      intro b hlexeme
      rw [hlexeme, cut_boolean b (continuesWord_of_opens hopen)] at hcut
      cases hcut
    obtain ⟨more, hmore⟩ := List.head?_eq_some_iff.mp (hcall rfl)
    rw [hmore]
    exact cut_call hword (htruth true) (htruth false) more
  | name =>
    have hname : isDottedName (c :: cs) = true := hshaped
    have hdot := hdot rfl
    refine cut_name hname (ne_truthWord_of_cut_name hcut hdot)
      (h.continuesWord (continuesWord_of_cut_name hcut hname hdot)) fun hopen => ?_
    rcases h '(' hopen with hsame | hblank
    · exact not_isIdentifier_of_cut_name hcut hsame
    · cases hblank
  | openString => cases hkind
  | badNumber => cases hkind
  | illegal => cases hkind

end Lexeme

theorem Lexed.head?_ne_dot {p : Position} {cs : List Char} {ts : List Token} (h : Lexed p cs ts) :
    cs.head? ≠ some '.' := by
  intro hdot
  obtain ⟨more, rfl⟩ := List.head?_eq_some_iff.mp hdot
  obtain ⟨_, _, shape, _, _, -, hcut, hkind, -⟩ := h.first rfl
  rw [Lexeme.cut_dot] at hcut
  cases congrArg Prod.fst hcut
  cases hkind

end FilterSql
