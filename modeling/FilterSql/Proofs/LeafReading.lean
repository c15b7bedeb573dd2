import FilterSql.Proofs.SqlMeaning

/-! Leaves are read as what they are rendered from: a field as a term, a placeholder as its argument, an
operator as a test. A leaf whose path the database refuses is not read at all. -/
namespace FilterSql

open Sql Nested

namespace Sql

@[simp] theorem Nested.solid_append (s t : Nested) : (s ++ t).solid = s.solid ++ t.solid := by
  induction s with
  | done => rfl
  | part p next ih =>
    simp only [part_append, solid, ih]
    split <;> rfl
  | group inside next _ ih => simp only [group_append, solid, ih]

@[simp] theorem Nested.solid_done : done.solid = done := rfl

@[simp] theorem Nested.solid_word (w : String) (t : Nested) :
    (part (.word w) t).solid = part (.word w) t.solid := rfl

@[simp] theorem Nested.solid_quoted (q : Char) (body : String) (t : Nested) :
    (part (.quoted q body) t).solid = part (.quoted q body) t.solid := rfl

@[simp] theorem Nested.solid_sign (c : Char) (t : Nested) :
    (part (.sign c) t).solid = if Text.isBlank c then t.solid else part (.sign c) t.solid := rfl

@[simp] theorem Nested.solid_group (inside next : Nested) :
    (group inside next).solid = group inside.solid next.solid := rfl

def kindOf : Dialect → FieldType → Kind
  | .postgres, .boolean => .boolean
  | .postgres, .number .int32 => .int32
  | .postgres, .number .int64 => .int64
  | .postgres, .number .float64 => .double
  | .postgres, .timestamp => .int64
  | .postgres, .text => .text
  | .postgres, .enum _ => .text
  | .mysql, .text => .text
  | .mysql, .enum _ => .text
  | .mysql, _ => .plain
  | .sqlite, _ => .plain

def scalarTerm (d : Dialect) (table column : String) (type : FieldType) (steps : List (Option String)) : Term :=
  let value := .extract table column steps (kindOf d type)
  if type = .boolean then .isTrue value else value

theorem term?_call {d : Dialect} {inside : Nested} {found : Option (Term × Nested)}
    (hinside : term? d inside = found) (function : String) (rest : Nested) :
    term? d (.part (.word function) (.group inside rest)) =
      found.bind fun (term, more) => (applied? d function term more).map (·, rest) := by
  rw [term?, hinside]
  cases found with
  | none => rfl
  | some read => exact (Option.map_eq_bind ..).symm

theorem term?_group {d : Dialect} {inside : Nested} {found : Option (Term × Nested)}
    (hinside : term? d inside = found) (rest : Nested) :
    term? d (.group inside rest) = found.bind fun (term, more) => (enclosed? d term more).map (·, rest) := by
  rw [term?, hinside]
  cases found with
  | none => rfl
  | some read => exact (Option.map_eq_bind ..).symm

section Scalars

variable {d : Dialect} {path : List String} {table column : String}

theorem path?_pathLayout (d : Dialect) (path : List String) :
    (d.pathLayout path).path? d = (d.readPath? (d.pathBody path)).map (·, .done) := by
  cases h : d.readPath? (d.pathBody path) <;> simp [Dialect.pathLayout, Nested.path?, quoted?, h]

theorem term?_column (d : Dialect) (table column : String) (rest : Nested) :
    term? d ((d.columnLayout table column).solid ++ rest) = some (.column table column, rest) := by
  simp [Dialect.columnLayout, term?, Nested.column?, quoted?, sign?, Text.isBlank]

/-- Text that begins with a value taken out of a column, or that is not read if the path is refused. -/
def Extracts (d : Dialect) (path : List String) (t : Nested) (term : List (Option String) → Term) : Prop :=
  ∀ rest, term? d (t.solid ++ rest) = (d.readPath? (d.pathBody path)).map fun steps => (term steps, rest)

theorem extracts_call {function : String} (hfunction : extractor? d = some function) :
    Extracts d path (call function (d.columnLayout table column ++ signs ", " ++ d.pathLayout path))
      (.extract table column · .plain) := by
  intro rest
  have hinside : term? d (d.columnLayout table column ++ signs ", " ++ d.pathLayout path).solid =
      some (.column table column, .part (.sign ',') (d.pathLayout path)) := by
    rw [append_assoc, solid_append, term?_column]
    rfl
  have hpath := path?_pathLayout d path
  refine (term?_call hinside function rest).trans ?_
  cases hread : d.readPath? (d.pathBody path) with
  | none => simp [applied?, hfunction, sign?, hpath, hread]
  | some steps => simp [applied?, hfunction, sign?, hpath, hread, done?]

theorem extracts_taken :
    Extracts .postgres path
      (enclosed (Dialect.postgres.columnLayout table column ++ signs " #>> " ++ Dialect.postgres.pathLayout path))
      (.extract table column · .text) := by
  intro rest
  have hinside : term? .postgres
      (Dialect.postgres.columnLayout table column ++ signs " #>> " ++ Dialect.postgres.pathLayout path).solid =
      some (.column table column, .part (.sign '#') (.part (.sign '>') (.part (.sign '>')
        (Dialect.postgres.pathLayout path)))) := by
    rw [append_assoc, solid_append, term?_column]
    rfl
  have hpath := path?_pathLayout .postgres path
  refine (term?_group hinside rest).trans ?_
  cases hread : Dialect.postgres.readPath? (Dialect.postgres.pathBody path) with
  | none => simp [enclosed?, taken?, sign?, hpath, hread]
  | some steps => simp [enclosed?, taken?, sign?, hpath, hread, done?]

theorem Extracts.castTo {t : Nested} (h : Extracts .postgres path t (.extract table column · .text))
    {type : List String} {kind : Kind} (hkind : kind? (words type).solid = some kind) :
    Extracts .postgres path (castTo t type) (.extract table column · kind) := by
  intro rest
  have hinside := h (words ("AS" :: type)).solid
  rw [← solid_append] at hinside
  have hmore : ((words ("AS" :: type)).solid.word? "AS").bind kind? = some kind := by
    simpa [words, word?, Text.isBlank] using hkind
  refine (term?_call hinside "CAST" rest).trans ?_
  cases Dialect.postgres.readPath? (Dialect.postgres.pathBody path) with
  | none => rfl
  | some steps =>
    obtain ⟨more, hword, hmore⟩ := Option.bind_eq_some_iff.mp hmore
    simp [applied?, hword, hmore]

theorem Extracts.affirmed {t : Nested} {kind : Kind} (h : Extracts d path t (.extract table column · kind)) :
    Extracts d path (enclosed (t ++ words ["IS", "TRUE"])) fun steps =>
      .isTrue (.extract table column steps kind) := by
  intro rest
  have hinside := h (words ["IS", "TRUE"]).solid
  rw [← solid_append] at hinside
  refine (term?_group hinside rest).trans ?_
  cases d.readPath? (d.pathBody path) <;> rfl

theorem Extracts.unquoted {t : Nested} (h : Extracts .mysql path t (.extract table column · .plain)) :
    Extracts .mysql path (call "JSON_UNQUOTE" t) (.extract table column · .text) := by
  intro rest
  have hinside := h .done
  rw [append_done] at hinside
  refine (term?_call hinside "JSON_UNQUOTE" rest).trans ?_
  cases Dialect.mysql.readPath? (Dialect.mysql.pathBody path) <;> rfl

theorem extracts_scalarLayout (d : Dialect) (table column : String) (path : List String) (type : FieldType) :
    Extracts d path (d.scalarLayout (d.columnLayout table column) path type) (scalarTerm d table column type) := by
  unfold Dialect.scalarLayout
  cases d with
  | mysql =>
    have hvalue : Extracts .mysql path _ (.extract table column · .plain) := extracts_call rfl
    cases type with
    | boolean => exact hvalue.affirmed
    | text => exact hvalue.unquoted
    | enum => exact hvalue.unquoted
    | number => exact hvalue
    | timestamp => exact hvalue
  | sqlite =>
    have hvalue : Extracts .sqlite path _ (.extract table column · .plain) := extracts_call rfl
    cases type with
    | boolean => exact hvalue.affirmed
    | _ => exact hvalue
  | postgres =>
    have htext : Extracts .postgres path _ (.extract table column · .text) := extracts_taken
    cases type with
    | boolean => exact (htext.castTo rfl).affirmed
    | number width => cases width <;> exact htext.castTo rfl
    | timestamp => exact htext.castTo rfl
    | text => exact htext
    | enum => exact htext

theorem of?_kindOf {type : FieldType} {v : Scalar} (h : type.admits v = true) :
    (kindOf d type).of? d v = some (d.stored v) := by
  cases type with
  | number width =>
    cases width <;> cases v <;> cases d <;>
    simp_all [FieldType.admits, kindOf, Kind.of?, Dialect.stored]
  | _ =>
    cases v <;> cases d <;>
    simp_all [FieldType.admits, kindOf, Kind.of?, Dialect.stored]

theorem value?_scalarTerm {row : Row} {type : FieldType} {steps : List (Option String)}
    (hfits : ∀ v, row.scalarAt table column steps = some v → type.admits v = true) :
    (scalarTerm d table column type steps).value? d row =
      some (((if type = .boolean then some ((row.scalarAt table column steps).getD (.boolean false))
        else row.scalarAt table column steps) : Option Scalar).map d.stored) := by
  have hvalue : (Term.extract table column steps (kindOf d type)).value? d row =
      some ((row.scalarAt table column steps).map d.stored) := by
    rw [Term.value?]
    cases hraw : row.scalarAt table column steps with
    | none => rfl
    | some v => exact congrArg (Option.map some) (of?_kindOf (hfits v hraw))
  unfold scalarTerm
  split
  case isTrue htype =>
    rw [Term.value?, hvalue]
    cases hraw : row.scalarAt table column steps with
    | none => rfl
    | some v =>
      have hadmits := hfits v hraw
      rw [htype] at hadmits
      cases v with
      | boolean b => cases d <;> cases b <;> rfl
      | _ => cases hadmits
  case isFalse => exact hvalue

end Scalars

def slot : Dialect → Nat → Placeholder
  | .postgres, index => .numbered (index + 1)
  | .mysql, _ => .anonymous
  | .sqlite, _ => .anonymous

theorem placeholder?_mark (d : Dialect) (index : Nat) :
    (d.mark index).placeholder? d = some (slot d index) := by
  cases d with
  | mysql => rfl
  | sqlite => rfl
  | postgres =>
    have hdigits : ∀ c ∈ Nat.toDigits 10 (index + 1), c.isDigit = true := by
      intro c hc
      exact Nat.isDigit_of_mem_toDigits (by decide) (by decide) hc
    have hchars : ("$" ++ toString (index + 1)).toList = '$' :: Nat.toDigits 10 (index + 1) := by
      simp
    simp only [Dialect.mark, Part.placeholder?, hchars]
    simpa [Nat.toDigits_ne_nil, slot] using hdigits

theorem argument?_slot {d : Dialect} {index before : Nat} (h : d ≠ .postgres → before = index)
    (arguments : List Value) :
    (slot d index).argument? arguments before = arguments[index]?.map Value.scalar := by
  cases d with
  | postgres => rfl
  | mysql => rw [h (by decide)]; rfl
  | sqlite => rw [h (by decide)]; rfl

@[simp] theorem solid_mark (d : Dialect) (index : Nat) (next : Nested) :
    (Nested.part (d.mark index) next).solid = .part (d.mark index) next.solid := by
  cases d <;> rfl

@[simp] theorem placeholder?_part (d : Dialect) (index : Nat) (next : Nested) :
    (Nested.part (d.mark index) next).placeholder? d = some (slot d index, next) := by
  rw [Nested.placeholder?, placeholder?_mark]
  rfl

theorem operator?_signs (operator : Comparison) (d : Dialect) (index : Nat) :
    operator? (signs operator.sql ++ .part (d.mark index) .done).solid =
      some (operator, .part (d.mark index) .done) := by
  cases operator <;> cases d <;> rfl

theorem compare?_signs (x : Term) (operator : Comparison) (d : Dialect) (index : Nat) :
    compare? d x (signs operator.sql ++ .part (d.mark index) .done).solid =
      some (.compare x operator (slot d index)) := by
  simp only [compare?, operator?_signs]
  simp [done?]

theorem collated?_signs (operator : Comparison) (next : Nested) :
    collated? (signs operator.sql ++ next).solid = none := by
  cases operator <;> rfl

theorem tested?_signs (x : Term) (operator : Comparison) (d : Dialect) (index : Nat) :
    tested? d x (signs operator.sql ++ .part (d.mark index) .done).solid =
      some (.compare x operator (slot d index)) := by
  have hcompare := compare?_signs x operator d index
  cases d with
  | mysql => rw [tested?, collated?_signs, hcompare]
  | postgres => rw [tested?, hcompare, Option.some_or]
  | sqlite => rw [tested?, hcompare, Option.some_or]

theorem tested?_collation (x : Term) (more : Nested) :
    tested? .mysql x (words ["COLLATE", "utf8mb4_bin"] ++ more).solid =
      (compare? .mysql x more.solid).or (like? .mysql x more.solid) := by
  simp [tested?, collated?, words, word?, Text.isBlank]

theorem compare?_words (d : Dialect) (x : Term) (w : String) (more : Nested) :
    compare? d x (words [w] ++ more).solid = none := by
  simp [compare?, operator?, words, Text.isBlank]

theorem like?_likeLayout (x : Term) (d : Dialect) (index : Nat) :
    like? d x (Dialect.likeLayout (d.mark index)).solid = some (.like x (slot d index) likeEscape) := by
  simp [like?, Dialect.likeLayout, words, Text.isBlank, word?, quoted?, done?, likeEscape]

theorem glob?_globLayout (x : Term) (d : Dialect) (index : Nat) :
    glob? d x (words ["GLOB"] ++ .part (.sign ' ') (.part (d.mark index) .done)).solid =
      some (.glob x (slot d index)) := by
  simp [glob?, words, Text.isBlank, word?, done?]

/-- Text that a leaf starts with and that is read as a term, or not read at all. -/
structure Nested.Reads (d : Dialect) (v : Nested) (x : Option Term) : Prop where
  term : ∀ rest, term? d (v.solid ++ rest) = x.map (·, rest)
  test : ∀ rest, test? d (v.solid ++ rest) = termTest? d (v.solid ++ rest)

section Tests

variable {d : Dialect} {v : Nested} {x : Option Term}

theorem Nested.Reads.tested (h : v.Reads d x) (more : Nested) :
    test? d (v ++ more).solid = x.bind (tested? d · more.solid) := by
  rw [solid_append, h.test, termTest?, h.term]
  cases x <;> rfl

theorem Nested.Reads.compared (h : v.Reads d x) (operator : Comparison) (index : Nat) :
    test? d (v ++ (signs operator.sql ++ .part (d.mark index) .done)).solid =
      x.map (.compare · operator (slot d index)) := by
  rw [h.tested, Option.map_eq_bind]
  simp only [tested?_signs, Function.comp_def]

theorem Nested.Reads.collated (h : v.Reads d x) (operator : Comparison) (index : Nat) :
    test? d (d.collated v ++ (signs operator.sql ++ .part (d.mark index) .done)).solid =
      x.map (.compare · operator (slot d index)) := by
  cases d with
  | mysql =>
    rw [Dialect.collated, append_assoc, h.tested, Option.map_eq_bind]
    simp only [tested?_collation, compare?_signs, Option.some_or, Function.comp_def]
  | postgres => exact h.compared operator index
  | sqlite => exact h.compared operator index

def matching : Dialect → Nat → Term → Test
  | .sqlite, index, x => .glob x (slot .sqlite index)
  | .mysql, index, x => .like x (slot .mysql index) likeEscape
  | .postgres, index, x => .like x (slot .postgres index) likeEscape

theorem Nested.Reads.matched (h : v.Reads d x) (index : Nat) :
    test? d (d.matchesLayout v (d.mark index)).solid = x.map (matching d index) := by
  unfold Dialect.matchesLayout
  cases d with
  | mysql =>
    rw [Dialect.collated, append_assoc, h.tested, Option.map_eq_bind]
    simp only [tested?_collation, like?_likeLayout, Function.comp_def, matching]
    simp only [Dialect.likeLayout, compare?_words, Option.none_or]
  | postgres =>
    rw [h.tested, Option.map_eq_bind]
    simp only [tested?, like?_likeLayout, Function.comp_def, matching]
    simp only [Dialect.likeLayout, compare?_words, Option.none_or]
  | sqlite =>
    rw [h.tested, Option.map_eq_bind]
    simp only [tested?, glob?_globLayout, compare?_words, Option.none_or, Function.comp_def, matching]

end Tests

theorem test?_scalarLayout (d : Dialect) (column : Nested) (path : List String) (type : FieldType)
    (rest : Nested) :
    test? d ((d.scalarLayout column path type).solid ++ rest) =
      termTest? d ((d.scalarLayout column path type).solid ++ rest) := by
  unfold Dialect.scalarLayout
  cases d with
  | mysql =>
    cases type with
    | boolean => rfl
    | _ => simp [call, test?]
  | sqlite =>
    cases type with
    | boolean => rfl
    | _ => simp [call, test?]
  | postgres =>
    cases type with
    | number width => cases width <;> simp [castTo, call, test?]
    | timestamp => simp [castTo, call, test?]
    | _ => rfl

theorem reads_columnLayout (d : Dialect) (table column : String) :
    (d.columnLayout table column).Reads d (some (.column table column)) :=
  ⟨term?_column d table column, fun _ => rfl⟩

theorem reads_scalarLayout (d : Dialect) (table column : String) (path : List String) (type : FieldType) :
    (d.scalarLayout (d.columnLayout table column) path type).Reads d
      ((d.readPath? (d.pathBody path)).map (scalarTerm d table column type)) := by
  refine ⟨fun rest => ?_, test?_scalarLayout d _ path type⟩
  rw [extracts_scalarLayout d table column path type rest, Option.map_map]
  rfl

theorem arrayTest?_containsLayout (d : Dialect) (table column : String) (path : List String) (index : Nat) :
    arrayTest? d (d.containsLayout (d.columnLayout table column) path (d.mark index)).solid =
      (d.readPath? (d.pathBody path)).map (.contains table column · (slot d index)) := by
  have hpath := path?_pathLayout d path
  -- But for the path and the placeholder the text is fixed, and its reading is computed.
  cases d with
  | mysql =>
    change ((Dialect.mysql.pathLayout path).path? .mysql).bind (fun found =>
      found.2.done?.bind fun _ => some (Test.contains table column found.1 .anonymous)) = _
    rw [hpath]
    cases Dialect.mysql.readPath? (Dialect.mysql.pathBody path) <;> rfl
  | sqlite =>
    change ((Dialect.sqlite.pathLayout path).path? .sqlite).bind (fun found =>
      found.2.done?.bind fun _ => some (Test.contains table column found.1 .anonymous)) = _
    rw [hpath]
    cases Dialect.sqlite.readPath? (Dialect.sqlite.pathBody path) <;> rfl
  | postgres =>
    change ((Dialect.postgres.pathLayout path).path? .postgres).bind (fun found => found.2.done?.bind fun _ =>
      ((Nested.part (Dialect.postgres.mark index) (words ["AS", "TEXT"]).solid).placeholder? .postgres).bind
        fun read => (read.2.word? "AS").bind fun more => (more.word? "TEXT").bind fun more =>
          more.done?.bind fun _ => some (Test.contains table column found.1 read.1)) = _
    rw [hpath]
    simp only [placeholder?_part]
    cases Dialect.postgres.readPath? (Dialect.postgres.pathBody path) <;> rfl

theorem test?_containsLayout (d : Dialect) (table column : String) (path : List String) (index : Nat) :
    let contains := d.containsLayout (d.columnLayout table column) path (d.mark index)
    let found := (d.readPath? (d.pathBody path)).map (Test.contains table column · (slot d index))
    test? d contains.solid = found ∧
    test? d (Nested.part (.word "NOT") (.part (.sign ' ') contains)).solid = found.map .not := by
  intro contains found
  have harray := arrayTest?_containsLayout d table column path index
  constructor
  · have hasked : test? d contains.solid = arrayTest? d contains.solid := by cases d <;> rfl
    exact hasked.trans harray
  · exact congrArg (Option.map Test.not) harray

end Sql

end FilterSql
