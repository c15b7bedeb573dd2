import FilterSql.Proofs.Lexing

/-! String literals decode exactly. The body of a literal is a row of units, each a character or an escape
that stands for one; what the reader takes for the end of a literal and what the decoder makes of its body
agree on every text. -/
namespace FilterSql

namespace Lexeme

open FilterSql.Text

def hexNumber (digits : List Char) : Nat := digits.foldl (fun n d => n * 16 + hexValue d) 0

/-- A unit of a literal's body and the character that it stands for. -/
inductive Stands : List Char → Char → Prop where
  | plain : c ≠ '"' → c ≠ '\\' → c ≠ '\x00' → Stands [c] c
  | quote : Stands ['\\', '"'] '"'
  | backslash : Stands ['\\', '\\'] '\\'
  | slash : Stands ['\\', '/'] '/'
  | lineFeed : Stands ['\\', 'n'] '\n'
  | tab : Stands ['\\', 't'] '\t'
  | carriageReturn : Stands ['\\', 'r'] '\r'
  /-- The number of a surrogate is that of no character. -/
  | code {h₁ h₂ h₃ h₄ : Char} : (∀ h ∈ [h₁, h₂, h₃, h₄], isHexDigit h = true) →
      c.toNat = hexNumber [h₁, h₂, h₃, h₄] → c ≠ '\x00' → Stands ['\\', 'u', h₁, h₂, h₃, h₄] c

/-- A body that splits into units, and the text that they stand for. -/
inductive Spells : List Char → List Char → Prop where
  | nil : Spells [] []
  | cons : Stands unit c → Spells body cs → Spells (unit ++ body) (c :: cs)

/-- A body in which every backslash begins one of the escapes, whatever that may stand for. -/
inductive WellEscaped : List Char → Prop where
  | nil : WellEscaped []
  | plain : c ≠ '"' → c ≠ '\\' → WellEscaped cs → WellEscaped (c :: cs)
  | short : e ∈ ['"', '\\', '/', 'n', 't', 'r'] → WellEscaped cs → WellEscaped ('\\' :: e :: cs)
  | code {h₁ h₂ h₃ h₄ : Char} : (∀ h ∈ [h₁, h₂, h₃, h₄], isHexDigit h = true) → WellEscaped cs →
      WellEscaped ('\\' :: 'u' :: h₁ :: h₂ :: h₃ :: h₄ :: cs)

section Closing

theorem Closed.behind_plain {c : Char} {cs : List Char} (h : Closed (c :: cs)) (hc : c ≠ '\\') :
    c ≠ '"' ∧ Closed cs := by
  cases h with
  | plain hquote _ hcs => exact ⟨hquote, hcs⟩
  | pair => exact absurd rfl hc

theorem Closed.behind_pair {c : Char} {cs : List Char} (h : Closed ('\\' :: c :: cs)) : Closed cs := by
  cases h with
  | plain _ hbackslash => exact absurd rfl hbackslash
  | pair _ hcs => exact hcs

theorem not_closed_backslash : ¬ Closed ['\\'] := by
  intro h
  cases h with
  | plain _ hbackslash => exact hbackslash rfl

theorem ne_of_isHexDigit {c d : Char} (h : isHexDigit c = true) (hd : isHexDigit d = false) : c ≠ d := by
  rintro rfl
  rw [h] at hd
  cases hd

theorem Closed.behind_digits {digits cs : List Char} (h : Closed (digits ++ cs))
    (hdigits : ∀ d ∈ digits, isHexDigit d = true) : Closed cs := by
  induction digits with
  | nil => exact h
  | cons d digits ih =>
    obtain ⟨hd, hdigits⟩ := List.forall_mem_cons.mp hdigits
    exact ih (h.behind_plain (ne_of_isHexDigit hd (by decide))).2 hdigits

theorem Closed.digits {digits cs : List Char} (hdigits : ∀ d ∈ digits, isHexDigit d = true) (h : Closed cs) :
    Closed (digits ++ cs) := by
  induction digits with
  | nil => exact h
  | cons d digits ih =>
    obtain ⟨hd, hdigits⟩ := List.forall_mem_cons.mp hdigits
    exact .plain (ne_of_isHexDigit hd (by decide)) (ne_of_isHexDigit hd (by decide)) (ih hdigits)

theorem Spells.closed {body cs : List Char} (h : Spells body cs) : Closed body := by
  induction h with
  | nil => exact .nil
  | cons hunit _ ih =>
    cases hunit with
    | plain hquote hbackslash => exact .plain hquote hbackslash ih
    | code hdigits => exact .pair 'u' (ih.digits hdigits)
    | _ => exact .pair _ ih

theorem Spells.wellEscaped {body cs : List Char} (h : Spells body cs) : WellEscaped body := by
  induction h with
  | nil => exact .nil
  | cons hunit _ ih =>
    cases hunit with
    | plain hquote hbackslash => exact .plain hquote hbackslash ih
    | code hdigits => exact .code hdigits ih
    | _ => exact .short (by decide) ih

theorem Spells.not_mem_nul {body cs : List Char} (h : Spells body cs) : '\x00' ∉ cs := by
  induction h with
  | nil => simp
  | @cons unit c body cs hunit _ ih =>
    have hc : '\x00' ≠ c := by
      cases hunit with
      | plain _ _ hnul => exact hnul.symm
      | code _ _ hnul => exact hnul.symm
      | _ => decide
    simpa [hc] using ih

end Closing

section Decoding

theorem stands_of_shortEscape? {e c : Char} (h : shortEscape? e = some c) : Stands ['\\', e] c := by
  unfold shortEscape? at h
  split at h
  case isTrue hself =>
    cases h
    rcases hself with rfl | rfl | rfl
    · exact .quote
    · exact .backslash
    · exact .slash
  case isFalse =>
    split at h
    case isTrue hn => cases h; rw [hn]; exact .lineFeed
    case isFalse =>
      split at h
      case isTrue ht => cases h; rw [ht]; exact .tab
      case isFalse =>
        split at h
        case isTrue hr => cases h; rw [hr]; exact .carriageReturn
        case isFalse => cases h

theorem codeEscape?_eq_some_iff {a b c d ch : Char} :
    codeEscape? a b c d = some ch ↔
      (∀ x ∈ [a, b, c, d], isHexDigit x = true) ∧ ch.toNat = hexNumber [a, b, c, d] ∧ ch ≠ '\x00' := by
  have hcode : ((hexValue a * 16 + hexValue b) * 16 + hexValue c) * 16 + hexValue d = hexNumber [a, b, c, d] := by
    simp [hexNumber]
  unfold codeEscape?
  simp only [hcode, List.all_eq_true]
  constructor
  · intro h
    split at h
    case isTrue hchar =>
      obtain ⟨hdigits, hvalid, hzero⟩ := hchar
      cases h
      have hnumber : (Char.ofNat (hexNumber [a, b, c, d])).toNat = hexNumber [a, b, c, d] := by
        rw [Char.ofNat, dif_pos hvalid]
        rfl
      refine ⟨hdigits, hnumber, ?_⟩
      intro hnul
      rw [hnul] at hnumber
      exact hzero hnumber.symm
    case isFalse => cases h
  · rintro ⟨hdigits, hnumber, hnul⟩
    have hzero : ch.toNat ≠ 0 := fun hzero => hnul (Char.toNat_inj.mp hzero)
    rw [if_pos ⟨hdigits, hnumber ▸ ch.valid, hnumber ▸ hzero⟩, ← hnumber, Char.ofNat_toNat]

theorem unescape_unit {unit : List Char} {c : Char} (h : Stands unit c) (literal : Span)
    (passed done body : List Char) :
    unescape literal passed done (unit ++ body) = unescape literal (unit.reverse ++ passed) (c :: done) body := by
  cases h with
  | plain _ hbackslash hnul => simp [unescape, hbackslash, hnul]
  | code hdigits hnumber hnul =>
    simp [unescape, codeEscape?_eq_some_iff.mpr ⟨hdigits, hnumber, hnul⟩]
  | _ => simp [unescape, shortEscape?]

theorem Spells.unescape {body cs : List Char} (h : Spells body cs) (literal : Span) (passed done : List Char) :
    Lexeme.unescape literal passed done body = .ok (done.reverse ++ cs) := by
  induction h generalizing passed done with
  | nil => rw [Lexeme.unescape, List.append_nil]
  | cons hunit _ ih => rw [unescape_unit hunit, ih, List.reverse_cons, List.append_assoc, List.singleton_append]

theorem spells_of_unescape {literal : Span} {passed done body cs : List Char} (hbody : Closed body)
    (h : unescape literal passed done body = .ok cs) : ∃ text, cs = done.reverse ++ text ∧ Spells body text := by
  -- The decoder takes a bare quote for a plain character; that the body is closed rules it out.
  fun_induction unescape literal passed done body with
  | case1 passed done =>
    cases h
    exact ⟨[], by simp, .nil⟩
  | case2 passed done a b c d body ch hcode ih =>
    obtain ⟨hdigits, hnumber, hnul⟩ := codeEscape?_eq_some_iff.mp hcode
    have hrest : Closed ([a, b, c, d] ++ body) := hbody.behind_pair
    obtain ⟨text, rfl, htext⟩ := ih (hrest.behind_digits hdigits) h
    exact ⟨ch :: text, by simp, .cons (.code hdigits hnumber hnul) htext⟩
  | case3 => cases h
  | case4 => cases h
  | case5 passed done e body _ _ ch hshort ih =>
    obtain ⟨text, rfl, htext⟩ := ih hbody.behind_pair h
    exact ⟨ch :: text, by simp, .cons (stands_of_shortEscape? hshort) htext⟩
  | case6 => cases h
  | case7 => cases h
  | case8 => cases h
  | case9 passed done c body _ _ hshort _ hnul ih =>
    cases hbody with
    | plain hquote hbackslash hrest =>
      obtain ⟨text, rfl, htext⟩ := ih hrest h
      exact ⟨c :: text, by simp, .cons (.plain hquote hbackslash hnul) htext⟩
    | pair => exact (hshort _ _ rfl rfl).elim

/-- A body is refused for a zero character or for an escape, which is more than its backslash. -/
theorem unescape_eq_error {literal : Span} {passed done body : List Char} {e : LexError} (hbody : Closed body)
    (h : unescape literal passed done body = .error e) :
    ∃ span, e = .illegalCharacter '\x00' span ∨
      ∃ c cs, e = .invalidEscape (String.ofList ('\\' :: c :: cs)) span := by
  fun_induction unescape literal passed done body with
  | case1 => cases h
  | case2 passed done a b c d body ch hcode ih =>
    have hrest : Closed ([a, b, c, d] ++ body) := hbody.behind_pair
    exact ih (hrest.behind_digits (codeEscape?_eq_some_iff.mp hcode).1) h
  | case3 => cases h; exact ⟨_, .inr ⟨_, _, rfl⟩⟩
  | case4 => cases h; exact ⟨_, .inr ⟨_, _, rfl⟩⟩
  | case5 passed done e body _ _ ch hshort ih => exact ih hbody.behind_pair h
  | case6 => cases h; exact ⟨_, .inr ⟨_, _, rfl⟩⟩
  | case7 => exact absurd hbody not_closed_backslash
  | case8 => cases h; exact ⟨_, .inl rfl⟩
  | case9 passed done c body _ _ hshort _ hnul ih =>
    cases hbody with
    | plain _ _ hrest => exact ih hrest h
    | pair => exact (hshort _ _ rfl rfl).elim

theorem kind_closed (p : Position) (body : List Char) :
    kind p ('"' :: (body ++ ['"'])) .closedString =
      (unescape (p.span ('"' :: (body ++ ['"']))) ['"'] [] body).map fun cs =>
        .literal (.text (String.ofList cs)) := by
  have hquote : ('"' :: (body ++ ['"'])).take 1 = ['"'] := rfl
  have hinner : (('"' :: (body ++ ['"'])).drop 1).dropLast = body := List.dropLast_concat
  rw [kind, hquote, hinner]
  cases unescape (p.span ('"' :: (body ++ ['"']))) ['"'] [] body with
  | ok cs => rfl
  | error e => rfl

theorem kind_closed_eq_ok_iff {p : Position} {body : List Char} (hbody : Closed body) {k : Token.Kind} :
    kind p ('"' :: (body ++ ['"'])) .closedString = .ok k ↔
      ∃ cs, Spells body cs ∧ k = .literal (.text (String.ofList cs)) := by
  rw [kind_closed]
  constructor
  · intro h
    cases hdecoded : unescape (p.span ('"' :: (body ++ ['"']))) ['"'] [] body with
    | error e => rw [hdecoded] at h; cases h
    | ok cs =>
      rw [hdecoded] at h
      cases h
      obtain ⟨_, rfl, hcs⟩ := spells_of_unescape hbody hdecoded
      exact ⟨cs, hcs, rfl⟩
  · rintro ⟨cs, hcs, rfl⟩
    rw [hcs.unescape]
    rfl

end Decoding

theorem not_mem_nul_of_kind {p : Position} {lexeme rest : List Char} {shape : Shape} {k : Token.Kind}
    (hshaped : Shaped lexeme rest shape) (hkind : kind p lexeme shape = .ok k) {s : String}
    (hs : k = .literal (.text s) ∨ k = .name s ∨ k = .call s) : '\x00' ∉ s.toList := by
  have hword : (∀ c ∈ lexeme, isWordChar c = true) → '\x00' ∉ lexeme := fun h hnul => by cases h _ hnul
  obtain ⟨rfl, t, rfl⟩ | ⟨-, ⟨n, rfl⟩ | ⟨x, rfl⟩⟩ | ⟨value, -, rfl⟩ | ⟨sign, -, rfl⟩ | ⟨rfl, rfl⟩ | ⟨rfl, rfl⟩ :=
    kind_cases hkind
  all_goals obtain hs | hs | hs := hs <;> cases hs
  case inl.inl =>
    obtain ⟨body, rfl, hbody⟩ := hshaped
    obtain ⟨cs, hcs, htext⟩ := (kind_closed_eq_ok_iff hbody).mp hkind
    cases htext
    rw [String.toList_ofList]
    exact hcs.not_mem_nul
  case inr.inr.inr.inr.inl.inr.inr =>
    rw [String.toList_ofList]
    exact hword fun c hc => isWordChar_of_isNamePart (isNamePart_of_isIdentifier hshaped.1 c hc)
  case inr.inr.inr.inr.inr.inr.inl =>
    rw [String.toList_ofList]
    exact hword (isWordChar_of_isDottedName hshaped)

theorem spells_escaped {cs : List Char} (h : '\x00' ∉ cs) : Spells (cs.flatMap escapeChar) cs := by
  induction cs with
  | nil => exact .nil
  | cons c cs ih =>
    simp only [List.mem_cons, not_or] at h
    rw [List.flatMap_cons]
    refine .cons ?_ (ih h.2)
    rw [escapeChar]
    split
    case isTrue hc =>
      rcases hc with rfl | rfl
      · exact .quote
      · exact .backslash
    case isFalse hc =>
      simp only [not_or] at hc
      exact .plain hc.1 hc.2 (Ne.symm h.1)

end Lexeme

open Lexeme

theorem Lexed.closed {p : Position} {cs : List Char} {tokens : List Token} (h : Lexed p ('"' :: cs) tokens) :
    ∃ body rest, cs = body ++ '"' :: rest ∧ Closed body := by
  obtain ⟨lexeme, rest, shape, k, ts, -, hcut, hkind, -⟩ := h.first rfl
  cases hclose : closingQuote? 1 cs with
  | some n =>
    obtain ⟨body, rest, hsplit, -, hbody⟩ := closed_of_closingQuote? hclose
    exact ⟨body, rest, hsplit, hbody⟩
  | none =>
    simp only [cut, hclose, Prod.mk.injEq] at hcut
    obtain ⟨rfl, -⟩ := hcut
    cases hkind

/-- If nothing but a literal is read, then it is closed by the last quote and not before. -/
theorem Lexed.closed_whole {p : Position} {body : List Char} {tokens : List Token}
    (h : Lexed p ('"' :: (body ++ ['"'])) tokens) (htwo : tokens.length = 2) : Closed body := by
  obtain ⟨inner, rest, hsplit, hinner⟩ := h.closed
  have hwhole : '"' :: (body ++ ['"']) = '"' :: (inner ++ ['"']) ++ rest := by simp [hsplit]
  rw [hwhole] at h
  obtain ⟨k, ts, -, rfl, hrest⟩ := h.behind rfl (hinner.cut rest)
  obtain ⟨u, rfl⟩ := List.length_eq_one_iff.mp (Nat.succ.inj htwo)
  rcases List.eq_nil_or_concat rest with rfl | ⟨init, last, rfl⟩
  · obtain ⟨rfl, -⟩ := List.append_inj' hsplit rfl
    exact hinner
  · -- The last quote of the text would stand among the blanks behind the literal.
    have hsplit : body ++ ['"'] = (inner ++ '"' :: init) ++ [last] := by simpa using hsplit
    obtain ⟨-, hlast⟩ := List.append_inj' hsplit rfl
    cases hlast
    cases hrest.blank '"' (by simp)

theorem kindsIn_quoted_iff {body s : String} :
    kindsIn ("\"" ++ body ++ "\"") = .ok [.literal (.text s), .finish] ↔ Spells body.toList s.toList := by
  have hchars : ("\"" ++ body ++ "\"").toList = '"' :: (body.toList ++ ['"']) := by simp
  have hread (hbody : Closed body.toList) :
      kindsIn ("\"" ++ body ++ "\"") = .ok [.literal (.text s), .finish] ↔ Spells body.toList s.toList := by
    have hcut := hbody.cut []
    rw [List.append_nil] at hcut
    rw [kindsIn_lexeme hchars rfl hcut, kind_closed_eq_ok_iff hbody]
    constructor
    · rintro ⟨cs, hcs, htext⟩
      cases htext
      rwa [String.toList_ofList]
    · intro hs
      exact ⟨s.toList, hs, by rw [String.ofList_toList]⟩
  refine ⟨fun h => ?_, fun h => (hread h.closed).mpr h⟩
  obtain ⟨ts, hts, hkinds⟩ := kindsIn_eq_ok_iff.mp h
  rw [hchars] at hts
  have htwo : ts.length = 2 := by simpa using congrArg List.length hkinds
  exact (hread (hts.closed_whole htwo)).mp h

theorem tokensFrom_badEscape {p : Position} {done : List Token} {body rest : List Char} (hbody : Closed body)
    (hbad : ¬ WellEscaped body) : ∃ e, tokensFrom p done ('"' :: (body ++ '"' :: rest)) = .error e := by
  have hwhole : '"' :: (body ++ '"' :: rest) = '"' :: (body ++ ['"']) ++ rest := by simp
  rw [hwhole]
  cases hread : tokensFrom p done ('"' :: (body ++ ['"']) ++ rest) with
  | error e => exact ⟨e, rfl⟩
  | ok tokens =>
    obtain ⟨ts, -, hts⟩ := lexed_of_tokensFrom hread
    obtain ⟨k, -, hkind, -⟩ := hts.behind rfl (hbody.cut rest)
    obtain ⟨cs, hcs, -⟩ := (kind_closed_eq_ok_iff hbody).mp hkind
    exact absurd hcs.wellEscaped hbad

theorem tokenize_ne_loneBackslash (source : String) (span : Span) :
    tokenize source ≠ .error (.invalidEscape "\\" span) := by
  intro h
  obtain ⟨p, lexeme, rest, shape, hshaped, hkind⟩ := lexeme_of_error (tokenize_eq_error.mp h)
  cases shape with
  | closedString =>
    obtain ⟨body, rfl, hbody⟩ := hshaped
    rw [kind_closed] at hkind
    cases hdecoded : unescape (p.span ('"' :: (body ++ ['"']))) ['"'] [] body with
    | ok cs => rw [hdecoded] at hkind; cases hkind
    | error e =>
      rw [hdecoded] at hkind
      cases hkind
      obtain ⟨span, he | ⟨c, cs, he⟩⟩ := unescape_eq_error hbody hdecoded
      · cases he
      · have hshort := congrArg String.toList (LexError.invalidEscape.inj he).1
        simp at hshort
  | number =>
    unfold kind numberKind at hkind
    dsimp only at hkind
    split at hkind
    · cases hkind
    · split at hkind <;> cases hkind
  | _ => cases hkind

/-- String literals decode exactly, and no text with a zero character comes out of reading. -/
theorem literals_decode_exactly :
    (∀ body s : String, kindsIn ("\"" ++ body ++ "\"") = .ok [.literal (.text s), .finish] ↔
      Spells body.toList s.toList) ∧
    (∀ s : String, (∃ body : String, kindsIn ("\"" ++ body ++ "\"") = .ok [.literal (.text s), .finish]) ↔
      '\x00' ∉ s.toList) ∧
    (∀ (source : String) (tokens : List Token), tokenize source = .ok tokens →
      ∀ t ∈ tokens, ∀ s, t.kind = .literal (.text s) ∨ t.kind = .name s ∨ t.kind = .call s →
        '\x00' ∉ s.toList) ∧
    (∀ (p : Position) (done : List Token) (body rest : List Char), Closed body → ¬ WellEscaped body →
      ∃ e, tokensFrom p done ('"' :: (body ++ '"' :: rest)) = .error e) ∧
    ∀ (source : String) (span : Span), tokenize source ≠ .error (.invalidEscape "\\" span) := by
  refine ⟨fun body s => kindsIn_quoted_iff, ?_, ?_, fun p done body rest => tokensFrom_badEscape,
    tokenize_ne_loneBackslash⟩
  · intro s
    constructor
    · rintro ⟨body, hbody⟩
      exact (kindsIn_quoted_iff.mp hbody).not_mem_nul
    · intro hnul
      refine ⟨String.ofList (s.toList.flatMap escapeChar), kindsIn_quoted_iff.mpr ?_⟩
      rw [String.toList_ofList]
      exact spells_escaped hnul
  · intro source tokens hread t ht s hs
    obtain hfinish | ⟨p, lexeme, rest, shape, hshaped, hkind, -⟩ := (tokenize_eq_ok_iff.mp hread).lexeme_of_mem ht
    · rw [hfinish] at hs
      obtain hs | hs | hs := hs <;> cases hs
    · exact not_mem_nul_of_kind hshaped hkind hs

theorem literals_decode_exactly_mixed :
    kindsIn "\"\u00e9\\u0041\\n\"" = .ok [.literal (.text "\u00e9A\n"), .finish] ∧
    (∃ body, kindsIn ("\"" ++ body ++ "\"") = .ok [.literal (.text "\"\t\\"), .finish]) ∧
    (∀ tokens, tokenize "\"\u00e9\\u0041\\n\"" = .ok tokens →
      ∀ t ∈ tokens, ∀ s, t.kind = .literal (.text s) → '\x00' ∉ s.toList) ∧
    Closed ['\\', 'q'] ∧ ¬ WellEscaped ['\\', 'q'] ∧
    ∃ e, tokensFrom .start [] "\"\\q\" == name".toList = .error e := by
  obtain ⟨hdecode, hevery, hnul, hbad, -⟩ := literals_decode_exactly
  have hclosed : Closed ['\\', 'q'] := .pair 'q' .nil
  have hescape : ¬ WellEscaped ['\\', 'q'] := by
    intro h
    cases h with
    | plain _ hbackslash => exact hbackslash rfl
    | short he => exact absurd he (by decide)
  refine ⟨?_, ?_, ?_, hclosed, hescape, ?_⟩
  · refine (hdecode "\u00e9\\u0041\\n" "\u00e9A\n").mpr ?_
    have hcode : Stands ['\\', 'u', '0', '0', '4', '1'] 'A' := .code (List.all_eq_true.mp rfl) rfl (by decide)
    exact .cons (.plain (by decide) (by decide) (by decide)) (.cons hcode (.cons .lineFeed .nil))
  · exact (hevery "\"\t\\").mpr (by decide)
  · exact fun tokens hread t ht s hs => hnul _ tokens hread t ht s (.inl hs)
  · exact hbad .start [] ['\\', 'q'] " == name".toList hclosed hescape

end FilterSql
