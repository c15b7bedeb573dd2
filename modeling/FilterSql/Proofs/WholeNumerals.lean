import Mathlib.Data.Nat.Digits.Defs
import FilterSql.Proofs.LexemeEnds

/-! Numerals without a point, of any length. A numeral is read as the number that it stands for in base ten, or
refused if that has no room in sixty-four bits, by itself and where a name is compared with it. -/
namespace FilterSql

namespace Numeral

def Within (bits : Nat) (v : Int) : Prop := -2 ^ (bits - 1) ≤ v ∧ v ≤ 2 ^ (bits - 1) - 1

instance (bits : Nat) (v : Int) : Decidable (Within bits v) :=
  inferInstanceAs (Decidable (-2 ^ (bits - 1) ≤ v ∧ v ≤ 2 ^ (bits - 1) - 1))

theorem fitsInt64_iff_within {v : Int} : fitsInt64 v = true ↔ Within 64 v := by
  simp [fitsInt64, Within]

theorem fitsInt32_iff_within {v : Int} : fitsInt32 v = true ↔ Within 32 v := by
  simp [fitsInt32, Within]

def digit (d : Fin 10) : Char := Char.ofNat ('0'.toNat + d)

theorem isDigit_digit (d : Fin 10) : Char.isDigit (digit d) = true := by
  revert d
  decide

theorem toNat_digit (d : Fin 10) : (digit d).toNat - '0'.toNat = d := by
  revert d
  decide

theorem exists_digit {c : Char} (h : c.isDigit = true) : ∃ d, digit d = c := by
  simp only [Char.isDigit, Bool.and_eq_true, decide_eq_true_eq, UInt32.le_iff_toNat_le] at h
  have hlow : '0'.toNat ≤ c.toNat := h.1
  have hhigh : c.toNat ≤ '9'.toNat := h.2
  have hzero : '0'.toNat = 48 := rfl
  have hnine : '9'.toNat = 57 := rfl
  refine ⟨⟨c.toNat - '0'.toNat, by omega⟩, ?_⟩
  rw [digit, Nat.add_sub_cancel' hlow, Char.ofNat_toNat]

/-- A numeral without a point: digits, at least one, and a minus before them if it is negative. -/
structure Whole where
  negative : Bool
  digits : List (Fin 10)
  ne_nil : digits ≠ []

namespace Whole

variable (n : Whole)

def sign : List Char := if n.negative then ['-'] else []

def text : String := String.ofList (n.sign ++ n.digits.map digit)

def magnitude : Nat := Nat.ofDigits 10 (n.digits.map Fin.val).reverse

def value : Int := if n.negative then -n.magnitude else n.magnitude

theorem toList_text : n.text.toList = n.sign ++ n.digits.map digit := String.toList_ofList

theorem sign_eq : n.sign = [] ∨ n.sign = ['-'] := by
  unfold sign
  split <;> simp

theorem isDigit_of_mem {c : Char} (h : c ∈ n.digits.map digit) : c.isDigit = true := by
  obtain ⟨d, -, rfl⟩ := List.mem_map.mp h
  exact isDigit_digit d

theorem natural_digits : natural (n.digits.map digit) = n.magnitude := by
  rw [magnitude, Nat.ofDigits_eq_foldr, List.foldr_reverse, List.foldl_map, natural, List.foldl_map]
  congr 1
  funext m d
  rw [toNat_digit]
  exact Nat.add_comm _ _

theorem integer_text : integer n.text.toList = n.value := by
  rw [toList_text, sign, value]
  cases hn : n.negative with
  | true => exact congrArg (fun m : Nat => -(m : Int)) n.natural_digits
  | false =>
    have hsign := Lexeme.sign_digits fun c => n.isDigit_of_mem (c := c)
    simp only [Bool.false_eq_true, if_false, List.nil_append, integer, hsign]
    exact congrArg Int.ofNat n.natural_digits

theorem exists_cons_text : ∃ c cs, n.text.toList = c :: cs ∧ Text.isBlank c = false ∧ c ≠ '=' := by
  obtain ⟨d, ds, hds⟩ := List.exists_cons_of_ne_nil n.ne_nil
  rw [toList_text, hds]
  rcases n.sign_eq with hsign | hsign
  · have hdigit := isDigit_digit d
    refine ⟨digit d, ds.map digit, by rw [hsign]; rfl, ?_, ?_⟩
    · exact Text.isBlank_of_isWordChar (Text.isWordChar_of_isDigit hdigit)
    · rintro heq
      rw [heq] at hdigit
      cases hdigit
  · exact ⟨'-', (d :: ds).map digit, by rw [hsign]; rfl, rfl, by decide⟩

theorem cut_text {rest : List Char} (h : Lexeme.continuesWord rest = false) :
    Lexeme.cut (n.text.toList ++ rest) = (.number, n.text.toList.length) := by
  have hne : n.digits.map digit ≠ [] := by simpa using n.ne_nil
  rw [toList_text]
  exact Lexeme.cut_number n.sign_eq hne (fun c hc => n.isDigit_of_mem hc) h

/-- A numeral is a literal of its value if that has room in sixty-four bits. -/
theorem kind_text_eq_ok_iff {p : Position} {k : Token.Kind} :
    Lexeme.kind p n.text.toList .number = .ok k ↔ Within 64 n.value ∧ k = .literal (.integer n.value) := by
  have hpoint : '.' ∉ n.text.toList := by
    rw [toList_text]
    exact Lexeme.not_mem_numeral n.sign_eq fun c hc => n.isDigit_of_mem hc
  rw [Lexeme.kind, Lexeme.numberKind_eq_ok_iff, integer_text, fitsInt64_iff_within]
  tauto

theorem kind_text_of_not_within (h : ¬ Within 64 n.value) (p : Position) :
    Lexeme.kind p n.text.toList .number = .error (.invalidNumber n.text (p.span n.text.toList)) := by
  cases hkind : Lexeme.kind p n.text.toList .number with
  | ok k => exact absurd (n.kind_text_eq_ok_iff.mp hkind).1 h
  | error e =>
    obtain ⟨-, -, rfl⟩ := Lexeme.numberKind_eq_error_iff.mp hkind
    rw [String.ofList_toList]

end Whole

theorem exists_digits {cs : List Char} (h : ∀ c ∈ cs, c.isDigit = true) :
    ∃ ds : List (Fin 10), ds.map digit = cs := by
  induction cs with
  | nil => exact ⟨[], rfl⟩
  | cons c cs ih =>
    obtain ⟨hc, hcs⟩ := List.forall_mem_cons.mp h
    obtain ⟨d, rfl⟩ := exists_digit hc
    obtain ⟨ds, rfl⟩ := ih hcs
    exact ⟨d :: ds, rfl⟩

theorem exists_whole {sign digits : List Char} (hsign : sign = [] ∨ sign = ['-']) (hne : digits ≠ [])
    (hdigits : ∀ c ∈ digits, c.isDigit = true) : ∃ n : Whole, n.text.toList = sign ++ digits := by
  obtain ⟨ds, rfl⟩ := exists_digits hdigits
  have hne : ds ≠ [] := by simpa using hne
  rcases hsign with rfl | rfl
  · exact ⟨⟨false, ds, hne⟩, Whole.toList_text _⟩
  · exact ⟨⟨true, ds, hne⟩, Whole.toList_text _⟩

theorem whole_of_kind {lexeme rest : List Char} {shape : Lexeme.Shape} {p : Position} {v : Int}
    (hshaped : Lexeme.Shaped lexeme rest shape)
    (hkind : Lexeme.kind p lexeme shape = .ok (.literal (.integer v))) :
    ∃ n : Whole, n.text.toList = lexeme ∧ n.value = v := by
  obtain ⟨-, _, heq⟩ | ⟨rfl, -⟩ | ⟨_, -, heq⟩ | ⟨_, -, heq⟩ | ⟨-, heq⟩ | ⟨-, heq⟩ := Lexeme.kind_cases hkind
  case inr.inl =>
    obtain ⟨-, heq⟩ | ⟨hpoint, -, heq⟩ := Lexeme.numberKind_eq_ok_iff.mp hkind
    · cases heq
    · cases heq
      obtain ⟨sign, digits, rfl, hsign, hne, hdigits, -⟩ := hshaped.whole hpoint
      obtain ⟨n, hn⟩ := exists_whole hsign hne hdigits
      exact ⟨n, hn, by rw [← n.integer_text, hn]⟩
  all_goals cases heq

end Numeral

section Reading

open Numeral Lexeme

variable {rest : List Char}

theorem ReadAs.whole {n : Whole} (hvalue : Within 64 n.value) (hrest : continuesWord rest = false) :
    ReadAs n.text.toList [.literal (.integer n.value)] rest := by
  refine .lexeme (n.cut_text hrest) (fun p => n.kind_text_eq_ok_iff.mpr ⟨hvalue, rfl⟩) ?_
  obtain ⟨c, cs, hchars, hblank, -⟩ := n.exists_cons_text
  exact ⟨c, by rw [hchars]; rfl, hblank⟩

structure ReadsLiteral (literal : String) (value : Literal) : Prop where
  head : ∃ c cs, literal.toList = c :: cs ∧ c ≠ '='
  read : ∀ rest, continuesWord rest = false → ReadAs literal.toList [.literal value] rest

theorem Numeral.Whole.head_text (n : Whole) : ∃ c cs, n.text.toList = c :: cs ∧ c ≠ '=' := by
  obtain ⟨c, cs, hchars, -, hne⟩ := n.exists_cons_text
  exact ⟨c, cs, hchars, hne⟩

theorem Numeral.Whole.readsLiteral {n : Whole} (hvalue : Within 64 n.value) :
    ReadsLiteral n.text (.integer n.value) := ⟨n.head_text, fun _ => .whole hvalue⟩

theorem ReadAs.refused {front : List Char} {ks : List Token.Kind} {n : Whole}
    (hfront : ReadAs front ks (n.text.toList ++ rest)) (hvalue : ¬ Within 64 n.value)
    (hrest : continuesWord rest = false) (p : Position) (done : List Token) :
    ∃ span, tokensFrom p done (front ++ (n.text.toList ++ rest)) = .error (.invalidNumber n.text span) := by
  obtain ⟨ts, q, -, hread⟩ := hfront p done
  obtain ⟨c, cs, hchars, hblank, -⟩ := n.exists_cons_text
  have hcut := n.cut_text hrest
  have hkind := n.kind_text_of_not_within hvalue q
  rw [hread]
  rw [hchars] at hcut hkind ⊢
  rw [tokensFrom_cut hblank hcut, hkind]
  exact ⟨_, rfl⟩

theorem ReadAs.word {name : String} (hname : Text.isDottedName name.toList = true)
    (hword : ∀ b, name ≠ boolText b) (hrest : Clear rest) : ReadAs name.toList [.name name] rest := by
  have hcut := cut_name hname (fun b heq => hword b (String.toList_injective heq)) hrest.continuesWord
    fun hopen => absurd hopen hrest.not_opens
  refine .lexeme hcut (fun p => by rw [Lexeme.kind, String.ofList_toList]) ?_
  obtain ⟨c, cs, hchars, hstart⟩ := exists_cons_of_isDottedName hname
  exact ⟨c, by rw [hchars]; rfl, Text.isBlank_of_isWordChar (Text.isWordChar_of_isNameStart hstart)⟩

end Reading

/-- A name compared with a numeral, in either order, with blanks before, between and behind them. -/
structure NumeralTest where
  name : String
  operator : Comparison
  numeral : Numeral.Whole
  /-- Whether the numeral comes first. -/
  turned : Bool
  gap : Fin 4 → String
  dotted : Text.isDottedName name.toList = true
  word : ∀ b, name ≠ boolText b
  blank : ∀ i, ∀ c ∈ (gap i).toList, c = ' ' ∨ c = '\t' ∨ c = '\r' ∨ c = '\n'

namespace NumeralTest

open Lexeme

variable (t : NumeralTest)

def text : String :=
  let (first, second) := if t.turned then (t.numeral.text, t.name) else (t.name, t.numeral.text)
  t.gap 0 ++ first ++ t.gap 1 ++ t.operator.symbol ++ t.gap 2 ++ second ++ t.gap 3

theorem isBlank (i : Fin 4) : ∀ c ∈ (t.gap i).toList, Text.isBlank c = true := by
  intro c hc
  simpa [Text.isBlank, or_assoc] using t.blank i c hc

def sign : List Char := (t.gap 1).toList ++ (t.operator.symbol.toList ++ (t.gap 2).toList)

theorem clear_sign (rest : List Char) : Clear (t.sign ++ rest) := by
  rw [sign, List.append_assoc, List.append_assoc]
  exact clear_blanks (t.isBlank 1) (clear_comparison t.operator)

theorem readAs_sign {rest : List Char} (h : rest.head? ≠ some '=') :
    ReadAs t.sign [.symbol (.compare t.operator)] rest := by
  have hsymbol : ReadAs t.operator.symbol.toList [.symbol (.compare t.operator)] ((t.gap 2).toList ++ rest) :=
    .symbol (.compare t.operator) fun _ => head?_blanks_ne (t.isBlank 2) h
  exact (ReadAs.blanks (t.isBlank 1)).append (hsymbol.append (.blanks (t.isBlank 2)))

def around : List Token.Kind × List Token.Kind :=
  if t.turned then ([], [.symbol (.compare t.operator), .name t.name])
  else ([.name t.name, .symbol (.compare t.operator)], [])

def textWith (literal : String) : String :=
  let (first, second) := if t.turned then (literal, t.name) else (t.name, literal)
  t.gap 0 ++ first ++ t.gap 1 ++ t.operator.symbol ++ t.gap 2 ++ second ++ t.gap 3

theorem exists_readAs_with {literal : String} (h : ∃ c cs, literal.toList = c :: cs ∧ c ≠ '=') :
    ∃ front back, (t.textWith literal).toList = front ++ (literal.toList ++ back) ∧ continuesWord back = false ∧
      ReadAs front t.around.1 (literal.toList ++ back) ∧ ReadAs back t.around.2 [] := by
  have hlead : ∀ rest, ReadAs (t.gap 0).toList [] rest := fun _ => .blanks (t.isBlank 0)
  have htrail : ReadAs (t.gap 3).toList [] [] := .blanks (t.isBlank 3)
  have hclear : Clear ((t.gap 3).toList ++ []) := clear_blanks (t.isBlank 3) clear_nil
  unfold textWith around
  cases t.turned with
  | true =>
    have hhead : (t.name.toList ++ (t.gap 3).toList ++ []).head? ≠ some '=' := by
      obtain ⟨c, cs, hchars, hstart⟩ := exists_cons_of_isDottedName t.dotted
      rw [hchars]
      rintro ⟨rfl⟩
      cases hstart
    have hname := (ReadAs.word t.dotted t.word hclear).append htrail
    exact ⟨_, _, by simp [sign], (t.clear_sign _).continuesWord, hlead _, (t.readAs_sign hhead).append hname⟩
  | false =>
    rw [List.append_nil] at hclear
    have hhead : (literal.toList ++ (t.gap 3).toList).head? ≠ some '=' := by
      obtain ⟨c, cs, hchars, hne⟩ := h
      rw [hchars]
      simpa using hne
    have hname := (ReadAs.word t.dotted t.word (t.clear_sign _)).append (t.readAs_sign hhead)
    exact ⟨_, _, by simp [sign], hclear.continuesWord, (hlead _).append hname, htrail⟩

theorem exists_tokens_with {literal : String} {value : Literal} (h : ReadsLiteral literal value) :
    ∃ ts eof, tokenize (t.textWith literal) = .ok (ts ++ [eof]) ∧ eof.kind = .finish ∧
      ts.map Token.kind = t.around.1 ++ .literal value :: t.around.2 := by
  obtain ⟨front, back, htext, hback, hfrontRead, hbackRead⟩ := t.exists_readAs_with h.head
  have hliteral : ReadAs literal.toList [.literal value] (back ++ []) := by
    rw [List.append_nil]
    exact h.read back hback
  rw [← List.append_nil (literal.toList ++ back)] at hfrontRead
  have hall := hfrontRead.append (hliteral.append hbackRead)
  rw [← htext] at hall
  obtain ⟨ts, eof, htokens, hkinds, heof⟩ := hall.tokenize
  exact ⟨ts, eof, htokens, heof, hkinds⟩

theorem tokenize_refused (h : ¬ Numeral.Within 64 t.numeral.value) :
    ∃ span, tokenize t.text = .error (.invalidNumber t.numeral.text span) := by
  obtain ⟨front, back, htext, hback, hfrontRead, -⟩ := t.exists_readAs_with t.numeral.head_text
  obtain ⟨span, hrefused⟩ := hfrontRead.refused h hback .start []
  have hwhole : t.text.toList = front ++ (t.numeral.text.toList ++ back) := htext
  exact ⟨span, tokenize_eq_error.mpr (by rw [hwhole, hrefused])⟩

end NumeralTest

end FilterSql
