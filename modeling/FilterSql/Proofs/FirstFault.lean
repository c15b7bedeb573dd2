import FilterSql.Proofs.Tiling
import FilterSql.Proofs.WholeNumerals

/-! A text that is refused is refused for its first malformed lexeme. All that stands before that lexeme can be
read by itself, the error names what is wrong with the lexeme, and its place is that of the fault: of the
lexeme, or inside a literal of the leftmost unit that stands for nothing. -/
namespace FilterSql

namespace Lexeme

open FilterSql.Text

/-- A numeral that has a value: a decimal, or an integer of sixty-four bits. -/
def Valued (lexeme : List Char) : Prop :=
  Shaped lexeme [] .number ∧ ('.' ∈ lexeme ∨ Numeral.Within 64 (Numeral.integer lexeme))

structure Stray (c : Char) (behind : List Char) : Prop where
  blank : isBlank c = false
  quote : c ≠ '"'
  digit : c.isDigit = false
  minus : c = '-' → ∀ d, behind.head? = some d → d.isDigit = false
  word : isNameStart c = false
  symbol : ∀ sign : Symbol, ¬ sign.text.toList <+: c :: behind

/-- No unit of a literal stands at the front of a text. -/
def Unspelled (cs : List Char) : Prop := ∀ unit c more, Stands unit c → cs ≠ unit ++ more

/-- What can be wrong with the lexeme `sound ++ part ++ tail` before the text `behind`, and how it is reported:
`part` is at fault, and there is nothing wrong with `sound`. In a closed literal `sound` is the opening quote
and the units before the fault. -/
inductive Fault : (sound part tail behind : List Char) → (Span → LexError) → Prop where
  | unclosed : (∀ inner more, Closed inner → body ≠ inner ++ '"' :: more) →
      Fault [] ('"' :: body) [] [] .unterminatedString
  | number : Shaped part behind .badNumber → ¬ Valued part →
      Fault [] part [] behind (.invalidNumber (String.ofList part))
  | stray : Stray c behind → Fault [] [c] [] behind (.illegalCharacter c)
  | nul : Spells units text → Closed (units ++ '\x00' :: more) →
      Fault ('"' :: units) ['\x00'] (more ++ ['"']) behind (.illegalCharacter '\x00')
  | escape : Spells units text → Closed (units ++ (escape ++ more)) → escape.head? = some '\\' →
      Unspelled (escape ++ more) →
      Fault ('"' :: units) escape (more ++ ['"']) behind (.invalidEscape (String.ofList escape))

theorem Fault.span_report {sound part tail behind : List Char} {report : Span → LexError}
    (h : Fault sound part tail behind report) (span : Span) : (report span).span = span := by
  cases h <;> rfl

section Literals

/-- What is left of a literal behind `before` has a fault behind units that are spelled, and the error
reports it. -/
def FaultIn (literal : Span) (before body : List Char) (e : LexError) : Prop :=
  ∃ units text part more, body = units ++ (part ++ more) ∧ Spells units text ∧
    ((part = ['\x00'] ∧ e = .illegalCharacter '\x00' (literal.inner (before ++ units) part)) ∨
      (part.head? = some '\\' ∧ Unspelled (part ++ more) ∧
        e = .invalidEscape (String.ofList part) (literal.inner (before ++ units) part)))

theorem FaultIn.cons {literal : Span} {passed unit body : List Char} {c : Char} {e : LexError}
    (hunit : Stands unit c) (h : FaultIn literal (unit.reverse ++ passed).reverse body e) :
    FaultIn literal passed.reverse (unit ++ body) e := by
  obtain ⟨units, text, part, more, rfl, hunits, hfault⟩ := h
  rw [List.reverse_append, List.reverse_reverse, List.append_assoc] at hfault
  exact ⟨unit ++ units, c :: text, part, more, (List.append_assoc ..).symm, .cons hunit hunits, hfault⟩

theorem faultIn_escape {literal : Span} {passed part more : List Char} (hhead : part.head? = some '\\')
    (h : Unspelled (part ++ more)) :
    FaultIn literal passed.reverse (part ++ more) (invalidEscape literal passed part) :=
  ⟨[], [], part, more, rfl, .nil, .inr ⟨hhead, h, by rw [invalidEscape, List.append_nil]⟩⟩

theorem unspelled_backslash {e : Char} {cs : List Char} (hshort : shortEscape? e = none)
    (hcode : ∀ a b c d more, e = 'u' → cs = a :: b :: c :: d :: more → codeEscape? a b c d = none) :
    Unspelled ('\\' :: e :: cs) := by
  intro unit ch more hunit heq
  cases hunit with
  | plain _ hbackslash =>
    cases heq
    exact hbackslash rfl
  | @code _ a b c d hdigits hnumber hnul =>
    cases heq
    have hnone := hcode a b c d more rfl rfl
    rw [codeEscape?_eq_some_iff.mpr ⟨hdigits, hnumber, hnul⟩] at hnone
    cases hnone
  | _ =>
    cases heq
    cases hshort

theorem exists_brokenCode (cs : List Char) : ∃ more, '\\' :: 'u' :: cs = brokenCode cs ++ more := by
  refine ⟨(cs.take 4).dropWhile isHexDigit ++ cs.drop 4, ?_⟩
  rw [brokenCode, List.cons_append, List.cons_append, ← List.append_assoc, List.takeWhile_append_dropWhile,
    List.take_append_drop]

theorem faultIn_code {literal : Span} {passed cs : List Char}
    (h : ∀ a b c d more, cs = a :: b :: c :: d :: more → codeEscape? a b c d = none) :
    FaultIn literal passed.reverse ('\\' :: 'u' :: cs) (invalidEscape literal passed (brokenCode cs)) := by
  have hunspelled : Unspelled ('\\' :: 'u' :: cs) :=
    unspelled_backslash rfl fun a b c d more _ hcs => h a b c d more hcs
  obtain ⟨more, hmore⟩ := exists_brokenCode cs
  rw [hmore] at hunspelled ⊢
  exact faultIn_escape rfl hunspelled

/-- The error that decoding ends with reports the leftmost fault. -/
theorem faultIn_of_unescape {literal : Span} {passed done body : List Char} {e : LexError} (hbody : Closed body)
    (h : unescape literal passed done body = .error e) : FaultIn literal passed.reverse body e := by
  fun_induction unescape literal passed done body with
  | case1 => cases h
  | case2 passed done a b c d body ch hcode ih =>
    obtain ⟨hdigits, hnumber, hnul⟩ := codeEscape?_eq_some_iff.mp hcode
    have hrest : Closed ([a, b, c, d] ++ body) := hbody.behind_pair
    exact (ih (hrest.behind_digits hdigits) h).cons (.code hdigits hnumber hnul)
  | case3 passed done a b c d body hcode =>
    cases h
    refine faultIn_code fun a b c d more hcs => ?_
    cases hcs
    exact hcode
  | case4 passed done cs hshort =>
    cases h
    exact faultIn_code fun a b c d more hcs => (hshort a b c d more hcs).elim
  | case5 passed done e body _ _ ch hshort ih => exact (ih hbody.behind_pair h).cons (stands_of_shortEscape? hshort)
  | case6 passed done e body hcode hu hshort =>
    cases h
    have hunspelled : Unspelled ('\\' :: e :: body) := unspelled_backslash hshort fun _ _ _ _ _ he => (hu he).elim
    exact @faultIn_escape literal passed ['\\', e] body rfl hunspelled
  | case7 => exact absurd hbody not_closed_backslash
  | case8 passed done body =>
    cases h
    exact ⟨[], [], ['\x00'], body, rfl, .nil, .inl ⟨rfl, by rw [List.append_nil]⟩⟩
  | case9 passed done c body _ _ hshort _ hnul ih =>
    cases hbody with
    | plain hquote hbackslash hrest => exact (ih hrest h).cons (.plain hquote hbackslash hnul)
    | pair => exact (hshort _ _ rfl rfl).elim

end Literals

section Shapes

theorem symbol?_ne_none (sign : Symbol) (more : List Char) : symbol? (sign.text.toList ++ more) ≠ none := by
  by_cases hlonger : opensSymbol sign = true ∧ more.head? = some '='
  · obtain ⟨hopens, hhead⟩ := hlonger
    obtain ⟨more, rfl⟩ := List.head?_eq_some_iff.mp hhead
    simp only [opensSymbol, Bool.or_eq_true, decide_eq_true_eq] at hopens
    rcases hopens with (rfl | rfl) | rfl <;> exact Option.some_ne_none _
  · rw [symbol?_text sign fun hopens hhead => hlonger ⟨hopens, hhead⟩]
    exact Option.some_ne_none _

theorem rules_of_cut_illegal {c : Char} {cs : List Char} {n : Nat} (h : cut (c :: cs) = (.illegal, n)) :
    c ≠ '"' ∧ badNumber? (c :: cs) = none ∧ symbol? (c :: cs) = none ∧ name? (c :: cs) = none := by
  unfold cut at h
  split at h
  case h_1 => split at h <;> cases h
  case h_2 hquote =>
    dsimp only at h
    generalize hfound : ((number? (c :: cs)).map (Prod.mk Shape.number) <|> _) = found at h
    cases found with
    | none =>
      simp only [Option.orElse_eq_orElse, Option.orElse_eq_or, Option.or_eq_none_iff,
        Option.map_eq_none_iff] at hfound
      obtain ⟨-, hbad, hsymbol, -, -, hname⟩ := hfound
      exact ⟨fun hc => hquote cs (by rw [hc]), hbad, hsymbol, hname⟩
    | some result =>
      cases h
      simp only [Option.orElse_eq_orElse, Option.orElse_eq_or, Option.or_eq_some_iff,
        Option.map_eq_some_iff] at hfound
      obtain ⟨m, -, heq⟩ | ⟨-, ⟨m, -, heq⟩ | ⟨-, ⟨m, -, heq⟩ | ⟨-, ⟨m, -, heq⟩ |
        ⟨-, ⟨m, -, heq⟩ | ⟨-, m, -, heq⟩⟩⟩⟩⟩ := hfound
      all_goals cases heq

theorem stray_of_cut {c : Char} {behind : List Char} {n : Nat} (hc : isBlank c = false)
    (h : cut (c :: behind) = (.illegal, n)) : Stray c behind := by
  obtain ⟨hquote, hbad, hsymbol, hname⟩ := rules_of_cut_illegal h
  refine ⟨hc, hquote, ?_, ?_, ?_, ?_⟩
  · by_contra hdigit
    have hdigit : c.isDigit = true := by simpa using hdigit
    have hsign := signLength_eq_zero (c := c) (by rintro rfl; cases hdigit) behind
    simp [badNumber?, hsign, hdigit] at hbad
  · rintro rfl d hd
    obtain ⟨more, rfl⟩ := List.head?_eq_some_iff.mp hd
    by_contra hdigit
    simp [badNumber?, signLength, hdigit] at hbad
  · by_contra hstart
    have hstart : isNameStart c = true := by simpa using hstart
    simp [name?, startsName, hstart] at hname
  · rintro sign ⟨more, hmore⟩
    rw [← hmore] at hsymbol
    exact symbol?_ne_none sign more hsymbol

theorem badNumber_of_number {lexeme behind : List Char} (h : Shaped lexeme behind .number)
    (hpoint : '.' ∉ lexeme) : Shaped lexeme behind .badNumber := by
  obtain ⟨sign, digits, rfl, hsign, hne, hdigits, hrest⟩ := h.whole hpoint
  obtain ⟨digit, more, rfl⟩ := List.exists_cons_of_ne_nil hne
  obtain ⟨hdigit, hmore⟩ := List.forall_mem_cons.mp hdigits
  exact ⟨sign, digit, more, rfl, hsign, hdigit, fun c hc => isWordChar_of_isDigit (hmore c hc), hrest⟩

theorem not_shaped_of_cut_badNumber {lexeme behind : List Char}
    (h : cut (lexeme ++ behind) = (.badNumber, lexeme.length)) (hbehind : continuesWord behind = false) :
    ¬ Shaped lexeme [] .number := by
  rintro ⟨sign, digits, fraction, rfl, hsign, hne, hdigits, hfraction, -⟩
  rw [cut_numeral hsign hne hdigits hfraction hbehind] at h
  cases h

/-- A lexeme that becomes no token has a fault, and the error reports it. -/
theorem fault_of_kind {p : Position} {c : Char} {cs behind : List Char} {shape : Shape} {e : LexError}
    (hc : isBlank c = false) (hcut : cut (c :: cs ++ behind) = (shape, (c :: cs).length))
    (hkind : kind p (c :: cs) shape = .error e) :
    ∃ sound part tail report, c :: cs = sound ++ part ++ tail ∧ Fault sound part tail behind report ∧
      e = report ((p.after sound).span part) := by
  have hshaped := shaped_of_cut hcut
  cases shape with
  | closedString =>
    obtain ⟨body, hlexeme, hbody⟩ := hshaped
    rw [hlexeme, kind_closed] at hkind
    cases hdecoded : unescape (p.span ('"' :: (body ++ ['"']))) ['"'] [] body with
    | ok text =>
      rw [hdecoded] at hkind
      cases hkind
    | error fault =>
      rw [hdecoded] at hkind
      cases hkind
      obtain ⟨units, text, part, more, rfl, hunits, hfault⟩ := faultIn_of_unescape hbody hdecoded
      have hquote : ['"'].reverse ++ units = '"' :: units := rfl
      rw [hquote, Position.span_inner] at hfault
      refine ⟨'"' :: units, part, more ++ ['"'], ?_⟩
      obtain ⟨rfl, rfl⟩ | ⟨hhead, hunspelled, rfl⟩ := hfault
      · exact ⟨_, by simpa using hlexeme, .nul hunits hbody, rfl⟩
      · exact ⟨_, by simpa using hlexeme, .escape hunits hbody hhead hunspelled, rfl⟩
  | openString =>
    obtain ⟨hhead, rfl⟩ := hshaped
    cases hhead
    cases hkind
    refine ⟨[], '"' :: cs, [], _, by simp, .unclosed ?_, rfl⟩
    rintro inner more hinner rfl
    have hclosed := hinner.cut more
    simp only [List.cons_append, List.append_assoc, List.nil_append, List.append_nil] at hclosed hcut
    rw [hclosed] at hcut
    cases hcut
  | number =>
    obtain ⟨hpoint, hfits, rfl⟩ := numberKind_eq_error_iff.mp hkind
    refine ⟨[], c :: cs, [], _, by simp, .number (badNumber_of_number hshaped hpoint) ?_, rfl⟩
    rintro ⟨-, hdecimal | hrange⟩
    · exact hpoint hdecimal
    · rw [Numeral.fitsInt64_iff_within.mpr hrange] at hfits
      cases hfits
  | badNumber =>
    cases hkind
    refine ⟨[], c :: cs, [], _, by simp, .number hshaped fun hvalued => ?_, rfl⟩
    obtain ⟨-, -, -, -, -, -, -, hbehind⟩ := hshaped
    exact not_shaped_of_cut_badNumber hcut hbehind hvalued.1
  | illegal =>
    cases hkind
    obtain ⟨d, hd⟩ := hshaped
    cases hd
    exact ⟨[], [c], [], _, rfl, .stray (stray_of_cut hc hcut), rfl⟩
  | _ => cases hkind

end Shapes

end Lexeme

section Fronts

open Lexeme

theorem exists_cut_of_front {c : Char} {cs before fault : List Char} {shape : Shape} {k : Token.Kind}
    {p q : Position} {ts : List Token} (hcut : cut (c :: cs ++ (before ++ fault)) = (shape, (c :: cs).length))
    (hkind : Lexeme.kind p (c :: cs) shape = .ok k) (hbefore : Lexed q before ts)
    (hfault : fault.head? ≠ some '(') :
    ∃ shape' k', cut (c :: cs ++ before) = (shape', (c :: cs).length) ∧
      Lexeme.kind p (c :: cs) shape' = .ok k' := by
  have hreplaces : Replaces before (before ++ fault) := by
    cases before with
    | nil => exact replaces_nil
    | cons => exact .of_head? rfl
  by_cases hkept : shape = .name → (before ++ fault).head? ≠ some '.'
  · refine ⟨shape, k, cut_replaced hcut hkind hreplaces hkept ?_, hkind⟩
    rintro rfl
    have hopen : (before ++ fault).head? = some '(' := (shaped_of_cut hcut).2
    cases before with
    | nil => exact absurd hopen hfault
    | cons => exact hopen
  · -- A name before a dot has nothing behind it then, and may be the word for a truth value.
    obtain ⟨rfl, hdot⟩ := Classical.not_imp.mp hkept
    rw [ne_eq, not_not] at hdot
    obtain rfl : before = [] := by
      cases before with
      | nil => rfl
      | cons => exact absurd hdot hbefore.head?_ne_dot
    by_cases htruth : ∃ b, c :: cs = (boolText b).toList
    · obtain ⟨b, hlexeme⟩ := htruth
      refine ⟨.boolean b, _, ?_, rfl⟩
      rw [hlexeme]
      exact cut_boolean b rfl
    · exact ⟨.name, _, cut_name (shaped_of_cut hcut) (not_exists.mp htruth) rfl nofun, rfl⟩

/-- The lexeme that a text is refused for, and the text before it, which can be read. -/
theorem lexed_before_error {p : Position} {done : List Token} {cs : List Char} {e : LexError}
    (h : tokensFrom p done cs = .error e) :
    ∃ before c lexeme behind shape ts, cs = before ++ (c :: lexeme ++ behind) ∧ Text.isBlank c = false ∧
      Lexed p before ts ∧ cut (c :: lexeme ++ behind) = (shape, (c :: lexeme).length) ∧
      Lexeme.kind (p.after before) (c :: lexeme) shape = .error e := by
  fun_induction tokensFrom p done cs with
  | case1 => cases h
  | case2 p done cs c rest hcs here shape length hcut lexeme error hkind =>
    cases h
    obtain ⟨hwhole, hblanks, hc⟩ := blanks_before hcs
    obtain ⟨hsplit, hcut⟩ := cut_split hcut
    rw [hsplit] at hwhole
    exact ⟨_, c, _, _, shape, _, hwhole, hc, .finish hblanks, hcut, hkind⟩
  | case3 p done cs c rest hcs here shape length hcut lexeme kind hkind token ih =>
    obtain ⟨before, d, fault, behind, bad, ts, hrest, hd, hbefore, hbad, herror⟩ := ih h
    obtain ⟨hwhole, hblanks, hc⟩ := blanks_before hcs
    obtain ⟨hsplit, hcut⟩ := cut_split hcut
    rw [hrest] at hsplit hcut
    rw [hsplit] at hwhole
    -- A parenthesis is always a token, so that the name of a call does not lose its own.
    have hfault : (d :: fault ++ behind).head? ≠ some '(' := by
      rintro ⟨rfl⟩
      have hparen : cut ('(' :: (fault ++ behind)) = (.symbol .leftParen, 1) :=
        cut_symbol .leftParen (by simp [opensSymbol])
      rw [List.cons_append, hparen] at hbad
      cases congrArg Prod.fst hbad
      cases herror
    obtain ⟨shape', k, hcut', hkind'⟩ := exists_cut_of_front hcut hkind hbefore hfault
    refine ⟨cs.takeWhile Text.isBlank ++ (lexeme ++ before), d, fault, behind, bad, _, ?_, hd,
      .token hblanks hc hcut' hkind' hbefore, hbad, ?_⟩
    · refine hwhole.trans ?_
      simp [lexeme]
    · rw [Position.after_append, Position.after_append]
      exact herror

end Fronts

open Source in
/-- A text that is refused is refused for its first malformed lexeme, before which it is read by itself. The
error is the report of that lexeme's fault, at the place of the part that is at fault. -/
theorem tokenize_error_first_fault {source : String} {e : LexError} (h : tokenize source = .error e) :
    ∃ before sound part tail behind report tokens,
      source.toList = before ++ (sound ++ part ++ tail) ++ behind ∧
      tokenize (String.ofList before) = .ok tokens ∧
      Lexeme.Fault sound part tail behind report ∧
      e = report ((place (before ++ sound)).span part) ∧ e.span.Covers source.toList part := by
  obtain ⟨before, c, lexeme, behind, shape, ts, hsource, hc, hbefore, hcut, hkind⟩ :=
    lexed_before_error (tokenize_eq_error.mp h)
  obtain ⟨sound, part, tail, report, hlexeme, hfault, he⟩ := Lexeme.fault_of_kind hc hcut hkind
  rw [start_after, after_place] at he
  rw [hlexeme] at hsource
  refine ⟨before, sound, part, tail, behind, report, ts, by simpa using hsource, ?_, hfault, he, ?_⟩
  · rw [tokenize_eq_ok_iff, String.toList_ofList]
    exact hbefore
  · have hcovers := covers_place (before ++ sound) part (tail ++ behind)
    rw [he, hfault.span_report, hsource]
    simpa using hcovers

theorem tokenize_error_first_fault_lines :
    tokenize "x == 1 &&\n tag == \"é\nü\\q\\w\" @" = .error (.invalidEscape "\\q" ⟨24, 26, 3, 2⟩) ∧
      ∃ before units more behind text tokens,
        "x == 1 &&\n tag == \"é\nü\\q\\w\" @".toList =
          before ++ ('"' :: units ++ "\\q".toList ++ (more ++ ['"'])) ++ behind ∧
        tokenize (String.ofList before) = .ok tokens ∧ Lexeme.Spells units text := by
  have h : tokenize "x == 1 &&\n tag == \"é\nü\\q\\w\" @" = .error (.invalidEscape "\\q" ⟨24, 26, 3, 2⟩) := by
    decide +kernel
  obtain ⟨before, sound, part, tail, behind, report, tokens, hsource, hbefore, hfault, he, -⟩ :=
    tokenize_error_first_fault h
  refine ⟨h, ?_⟩
  cases hfault with
  | @escape units text part more _ hunits =>
    injection he with hpart
    have hpart : part = "\\q".toList := by rw [hpart, String.toList_ofList]
    rw [← hpart]
    exact ⟨before, units, more, behind, text, tokens, hsource, hbefore, hunits⟩
  | _ => cases he

end FilterSql
