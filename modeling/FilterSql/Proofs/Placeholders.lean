import FilterSql.Catalog.Standard
import FilterSql.Proofs.PlainSql

/-! Placeholders as they stand in the rendered text. A reader that knows nothing of predicates finds one
placeholder for each parameter: anonymous ones by their count, numbered ones by their numbers, which run
on from the offset without a gap. -/
namespace FilterSql.Sql

/-- A character of a text, or a dollar sign with the number behind it. -/
inductive Mark where
  | char (c : Char)
  | number (n : Nat)

namespace Mark

def number? : Mark → Option Nat
  | char _ => none
  | number n => some n

def shift (k : Nat) : Mark → Mark
  | char c => .char c
  | number n => .number (n + k)

def written : Mark → List Char
  | char c => [c]
  | number n => '$' :: (toString n).toList

/-- Takes a text apart. The number behind a dollar sign has as many digits as there are. -/
def ofChars : List Char → List Mark
  | [] => []
  | c :: cs =>
    let digits := cs.takeWhile Char.isDigit
    if c = '$' ∧ digits ≠ [] then
      .number (Nat.ofDigitChars 10 digits 0) :: ofChars (cs.dropWhile Char.isDigit)
    else .char c :: ofChars cs
termination_by cs => cs.length
decreasing_by
  · exact Nat.lt_succ_of_le (List.dropWhile_sublist _).length_le
  · exact Nat.lt_succ_self _

end Mark

def numbers (sql : String) : List Nat := (Mark.ofChars sql.toList).filterMap Mark.number?

def renumber (k : Nat) (sql : String) : String :=
  String.ofList ((Mark.ofChars sql.toList).flatMap fun mark => (mark.shift k).written)

def marksFrom (index : Nat) : List Piece → List Mark
  | [] => []
  | .text sql :: pieces => sql.toList.map Mark.char ++ marksFrom index pieces
  | .parameter _ :: pieces => .number (index + 1) :: marksFrom (index + 1) pieces

theorem ofChars_plain {cs : List Char} (h : '$' ∉ cs) (rest : List Char) :
    Mark.ofChars (cs ++ rest) = cs.map Mark.char ++ Mark.ofChars rest := by
  induction cs with
  | nil => rfl
  | cons c cs ih =>
    have hc : c ≠ '$' := by
      intro heq
      exact h (by simp [heq])
    have htail : '$' ∉ cs := fun hmem => h (List.mem_cons_of_mem _ hmem)
    rw [List.cons_append, Mark.ofChars, if_neg (fun hand => hc hand.1), ih htail]
    rfl

theorem ofChars_number {c : Char} (hc : c.isDigit = false) (n : Nat) (rest : List Char) :
    Mark.ofChars ('$' :: (toString n).toList ++ c :: rest) = .number n :: Mark.ofChars (c :: rest) := by
  have hdigits : ∀ c ∈ Nat.toDigits 10 n, c.isDigit = true := by
    intro c hmem
    exact Nat.isDigit_of_mem_toDigits (by decide) (by decide) hmem
  have htake : (Nat.toDigits 10 n ++ c :: rest).takeWhile Char.isDigit = Nat.toDigits 10 n := by
    rw [List.takeWhile_append_of_pos hdigits, List.takeWhile_cons_of_neg (by simp [hc]), List.append_nil]
  have hdrop : (Nat.toDigits 10 n ++ c :: rest).dropWhile Char.isDigit = c :: rest := by
    rw [List.dropWhile_append_of_pos hdigits, List.dropWhile_cons_of_neg (by simp [hc])]
  rw [Nat.toString_eq_repr, Nat.toList_repr, List.cons_append, Mark.ofChars, htake, hdrop,
    Nat.ofDigitChars_ten_toDigits]
  exact if_pos ⟨rfl, Nat.toDigits_ne_nil⟩

/-- Reading the text of tidy pieces finds their placeholders and takes nothing else for one. -/
theorem ofChars_textFrom {pieces : List Piece} (h : Tidy .postgres pieces) (index : Nat) :
    Mark.ofChars (textFrom .postgres index pieces).toList = marksFrom index pieces := by
  induction h generalizing index with
  | nil => rw [textFrom, String.toList_empty, Mark.ofChars, marksFrom]
  | text hplain _ ih => rw [textFrom, String.toList_append, ofChars_plain hplain, ih, marksFrom]
  | @parameter sql pieces value hplain hcloses _ ih =>
    -- The text behind a number begins with no digit, so the number ends where its last digit was written.
    obtain ⟨c, hhead, hdigit⟩ := hcloses
    obtain ⟨cs, hcs⟩ : ∃ cs, sql.toList = c :: cs := List.head?_eq_some_iff.mp hhead
    rw [marksFrom, marksFrom, ← ih, ← ofChars_plain hplain, textFrom, textFrom, Dialect.placeholder,
      String.toList_append, String.toList_append, String.toList_append, hcs]
    exact ofChars_number hdigit (index + 1) (cs ++ (textFrom .postgres (index + 1) pieces).toList)

theorem numbers_marksFrom (index : Nat) (pieces : List Piece) :
    (marksFrom index pieces).filterMap Mark.number? = List.range' (index + 1) (values pieces).length := by
  induction pieces generalizing index with
  | nil => rfl
  | cons piece pieces ih =>
    cases piece with
    | text sql =>
      have hnone : (sql.toList.map Mark.char).filterMap Mark.number? = [] := by
        simp [List.filterMap_map, Function.comp_def, Mark.number?]
      rw [marksFrom, List.filterMap_append, hnone, List.nil_append, ih, values]
    | parameter value =>
      rw [marksFrom, List.filterMap_cons, ih, values, List.length_cons, List.range'_succ]
      rfl

theorem marksFrom_add (index k : Nat) (pieces : List Piece) :
    marksFrom (index + k) pieces = (marksFrom index pieces).map (Mark.shift k) := by
  induction pieces generalizing index with
  | nil => rfl
  | cons piece pieces ih =>
    cases piece with
    | text sql =>
      rw [marksFrom, marksFrom, List.map_append, List.map_map, ih]
      rfl
    | parameter value =>
      rw [marksFrom, marksFrom, List.map_cons, ← ih, Mark.shift, Nat.add_right_comm]

theorem written_marksFrom (index : Nat) (pieces : List Piece) :
    (marksFrom index pieces).flatMap Mark.written = (textFrom .postgres index pieces).toList := by
  induction pieces generalizing index with
  | nil => rfl
  | cons piece pieces ih =>
    cases piece with
    | text sql =>
      have htext : (sql.toList.map Mark.char).flatMap Mark.written = sql.toList := by
        simp [List.flatMap_map, Mark.written]
      rw [marksFrom, List.flatMap_append, htext, ih, textFrom, String.toList_append]
    | parameter value =>
      rw [marksFrom, List.flatMap_cons, ih, textFrom, String.toList_append, Dialect.placeholder,
        String.toList_append]
      rfl

theorem renumber_textFrom {pieces : List Piece} (h : Tidy .postgres pieces) (k : Nat) :
    renumber k (textFrom .postgres 0 pieces) = textFrom .postgres k pieces := by
  have hmarks : (marksFrom 0 pieces).flatMap (fun mark => (mark.shift k).written) =
      (marksFrom k pieces).flatMap Mark.written := by
    rw [← Nat.zero_add k, marksFrom_add, List.flatMap_map, Nat.zero_add]
  rw [renumber, ofChars_textFrom h, hmarks, written_marksFrom, String.ofList_toList]

theorem textFrom_of_anonymous {d : Dialect} (h : d ≠ .postgres) (i j : Nat) (pieces : List Piece) :
    textFrom d i pieces = textFrom d j pieces := by
  induction pieces generalizing i j with
  | nil => rfl
  | cons piece pieces ih =>
    cases piece with
    | text sql => rw [textFrom, textFrom, ih]
    | parameter value =>
      have hsame : d.placeholder i = d.placeholder j := by
        cases d with
        | postgres => exact absurd rfl h
        | mysql => rfl
        | sqlite => rfl
      rw [textFrom, textFrom, hsame, ih]

theorem count_placeholder (d : Dialect) (index : Nat) : (d.placeholder index).toList.count d.sign = 1 := by
  cases d with
  | mysql => exact (by decide : "?".toList.count '?' = 1)
  | sqlite => exact (by decide : "?".toList.count '?' = 1)
  | postgres =>
    have hdigits : '$' ∉ Nat.toDigits 10 (index + 1) := by
      intro hmem
      have := Nat.isDigit_of_mem_toDigits (by decide) (by decide) hmem
      exact absurd this (by decide)
    rw [Dialect.placeholder, String.toList_append, Nat.toString_eq_repr, Nat.toList_repr,
      List.count_append]
    exact congrArg (1 + ·) (List.count_eq_zero.mpr hdigits)

theorem count_textFrom {d : Dialect} {pieces : List Piece} (h : Tidy d pieces) (index : Nat) :
    (textFrom d index pieces).toList.count d.sign = (values pieces).length := by
  induction h generalizing index with
  | nil => rfl
  | text hplain _ ih =>
    rw [textFrom, String.toList_append, List.count_append, List.count_eq_zero.mpr hplain, ih, values,
      Nat.zero_add]
  | parameter hplain _ _ ih =>
    rw [textFrom, textFrom, String.toList_append, String.toList_append, List.count_append,
      List.count_append, List.count_eq_zero.mpr hplain, count_placeholder, ih, values, values,
      List.length_cons]
    omega

end FilterSql.Sql

namespace FilterSql.Predicate

open Sql

/-- Over a checked catalog whose overrides hold no placeholder of their own, a predicate is rendered as
long as its last placeholder has a number, with one parameter for each leaf. Anonymous placeholders are
one for each parameter. Numbered ones are the next numbers after the offset, in order, and the offset
enters the statement in no other way. -/
theorem render_placeholders {entity : Entity} {table : String} {version : Nat} {fields : List Field}
    {catalog : Catalog} (hbuild : Catalog.build entity table version fields = .ok catalog)
    (hoverrides : ∀ f ∈ catalog.fields, ∀ o ∈ f.overrides, '?' ∉ o.2.toList ∧ '$' ∉ o.2.toList)
    (p : Predicate Operand) (hfields : ∀ f ∈ p.fields, f ∈ catalog.fields) (d : Dialect) (offset : Nat) :
    ((p.render d offset).isSome ↔ offset + p.fields.length < UInt64.size) ∧
    ∀ fragment parameters, p.render d offset = some (fragment, parameters) →
      parameters.length = p.fields.length ∧
      ∃ first, p.render d 0 = some (first, parameters) ∧
        (d ≠ .postgres → fragment.toList.count '?' = p.fields.length ∧ fragment = first) ∧
        (d = .postgres →
          fragment.toList.count '$' = p.fields.length ∧
          numbers fragment = List.range' (offset + 1) p.fields.length ∧
          fragment = renumber offset first) := by
  have hplain : ∀ f ∈ p.fields, f.Plain d := by
    intro f hf
    exact Field.plain_of_build hbuild (hfields f hf) (hoverrides f (hfields f hf))
  have htidy := tidy_pieces hplain
  have hvalues := values_pieces_length p d
  have hmax : maxPlaceholder + 1 = UInt64.size := rfl
  constructor
  · rw [render_eq, ← hmax, Nat.lt_succ_iff]
    split <;> simp_all
  intro fragment parameters h
  rw [render_eq] at h
  split at h
  case isFalse => cases h
  case isTrue hfit =>
    cases h
    refine ⟨hvalues, textFrom d 0 (p.pieces d), ?_, ?_, ?_⟩
    · rw [render_eq, if_pos (by omega)]
    · intro hd
      have hsign : d.sign = '?' := by
        cases d with
        | postgres => exact absurd rfl hd
        | mysql => rfl
        | sqlite => rfl
      have hcount := count_textFrom htidy offset
      rw [hsign, hvalues] at hcount
      exact ⟨hcount, textFrom_of_anonymous hd offset 0 _⟩
    · rintro rfl
      have hcount := count_textFrom htidy offset
      rw [hvalues] at hcount
      refine ⟨hcount, ?_, (renumber_textFrom htidy offset).symm⟩
      rw [numbers, ofChars_textFrom htidy, numbers_marksFrom, hvalues]

/-- Not archived, or tagged and found by a search; all texts have signs of placeholders in them. The flag
is compared with a number, which no filter text can bring about. -/
def signedTexts : Predicate Operand :=
  let inMemo (f : Field) : Field := { f with table := "memo" }
  .or (.not (.compare (inMemo (.ofStatusFlag "archived" "row_status" "ARCHIVED")) .less (.int32 7) default))
    (.and (.compare (inMemo (.ofJsonArray "tag" "payload" ["tags"])) .notEqual (.text "$1 ?") default)
      (.search (inMemo (.searchable "content" StringFunction.all)) .endsWith (.text "?$9") default))

theorem render_signedTexts :
    ∃ fragment parameters, signedTexts.render .postgres 18446744073709551612 = some (fragment, parameters) ∧
      numbers fragment = [18446744073709551613, 18446744073709551614, 18446744073709551615] := by
  have hoverrides : ∀ f ∈ (Catalog.standard .note).fields, ∀ o ∈ f.overrides,
      '?' ∉ o.2.toList ∧ '$' ∉ o.2.toList := by decide
  obtain ⟨hsome, hrest⟩ := render_placeholders (Catalog.build_standardFields .note) hoverrides signedTexts
    (by decide) .postgres 18446744073709551612
  obtain ⟨⟨fragment, parameters⟩, h⟩ := Option.isSome_iff_exists.mp (hsome.mpr (by decide))
  obtain ⟨-, first, -, -, hnumbered⟩ := hrest fragment parameters h
  exact ⟨fragment, parameters, h, (hnumbered rfl).2.1⟩

end FilterSql.Predicate
