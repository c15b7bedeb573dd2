import FilterSql.Catalog.Standard
import FilterSql.Expr.Parser
import FilterSql.Proofs.Rendering

/-! What an override does to rendered SQL. Where a leaf is written around the SQL for its field's value, the
override of the dialect stands in its place and the column and path leave no trace. A comparison with an array or
a status flag is written around the column itself, and there no override is looked at. Overrides of other dialects
never show. -/
namespace FilterSql

namespace Field

def moved (f : Field) (column : String) (path : List String) : Field :=
  { f with source := match f.source with
      | .column _ => .column column
      | .jsonScalar _ _ => .jsonScalar column path
      | .jsonArray _ _ => .jsonArray column path
      | .statusFlag _ value => .statusFlag column value }

def plain (f : Field) : Field := { f with overrides := [] }

/-- The SQL for where the value of a field lives. -/
def physicalSql (f : Field) (d : Dialect) : String := f.plain.valueSql d

theorem valueSql_of_override {f : Field} {d : Dialect} {sql : String} (h : f.overrides.get? d = some sql) :
    f.valueSql d = sql := by
  rw [valueSql, h]

theorem valueSql_plain {f : Field} {d : Dialect} (h : f.overrides.get? d = none) :
    f.plain.valueSql d = f.valueSql d := by
  rw [valueSql, valueSql, h]
  rfl

end Field

namespace Dialect

theorem caseSensitive_eq (d : Dialect) (sql : String) : d.caseSensitive sql = sql ++ d.caseSensitive "" := by
  cases d <;> simp [caseSensitive]

theorem textMatches_eq (d : Dialect) (sql : String) :
    d.textMatches sql = ⟨sql ++ (d.textMatches "").before, (d.textMatches "").after⟩ := by
  cases d <;> simp [textMatches, caseSensitive, String.append_assoc]

theorem quoteColumn_eq (d : Dialect) (table : String) :
    ∃ front back, ∀ column, d.quoteColumn table column = front ++ column ++ back := by
  obtain ⟨mark, hmark⟩ : ∃ mark, ∀ name, d.quote name = mark ++ name ++ mark := by
    cases d with
    | mysql => exact ⟨"`", fun _ => rfl⟩
    | postgres => exact ⟨"\"", fun _ => rfl⟩
    | sqlite => exact ⟨"\"", fun _ => rfl⟩
  refine ⟨d.quote table ++ "." ++ mark, mark, fun column => ?_⟩
  rw [quoteColumn, hmark column]
  simp only [String.append_assoc]

theorem arrayContains_eq (d : Dialect) (path : List String) :
    ∃ front back after, ∀ column, d.arrayContains column path = ⟨front ++ column ++ back, after⟩ := by
  cases d with
  | mysql =>
    refine ⟨"COALESCE(JSON_CONTAINS(", ", JSON_QUOTE(", "), " ++ jsonPath .mysql path ++ "), 0)", fun column => ?_⟩
    rfl
  | postgres =>
    refine ⟨"COALESCE((", " #> " ++ jsonPath .postgres path ++ ") @> jsonb_build_array(CAST(",
      " AS TEXT)), FALSE)", fun column => ?_⟩
    unfold arrayContains
    simp only [String.append_assoc]
  | sqlite =>
    refine ⟨"EXISTS (SELECT 1 FROM json_each(", ", " ++ jsonPath .sqlite path ++ ") WHERE json_each.value = ",
      ")", fun column => ?_⟩
    unfold arrayContains
    simp only [String.append_assoc]

end Dialect

namespace Sql

inductive FieldTest where
  | compare (operator : Comparison) (operand : Operand)
  | search (function : StringFunction) (operand : Operand)

namespace FieldTest

def on (f : Field) (span : Span) : FieldTest → Predicate Operand
  | compare operator operand => .compare f operator operand span
  | search function operand => .search f function operand span

def leaf (d : Dialect) (f : Field) : FieldTest → Leaf
  | compare operator operand => compareLeaf d f operator operand
  | search function operand => searchLeaf d f function operand

/-- Whether the test is written around the SQL for the field's value: a search always is, a comparison for columns
and for scalars in JSON. -/
def AsksValue (f : Field) : FieldTest → Prop
  | compare _ _ => (∃ column, f.source = .column column) ∨ ∃ column path, f.source = .jsonScalar column path
  | search _ _ => True

/-- The text between the field's value and the placeholder, and that behind the placeholder. -/
def frame (d : Dialect) (type : FieldType) : FieldTest → Template
  | compare operator _ => ⟨(if type = .text then d.caseSensitive "" else "") ++ operator.sql, ""⟩
  | search _ _ => d.textMatches ""

def parameter (d : Dialect) : FieldTest → Value
  | compare _ operand => operand.encode d
  | search function operand => .text (pattern d function (operand.needle d))

variable {t : FieldTest} {d : Dialect} {f : Field}

theorem leaf_of_asksValue (h : t.AsksValue f) :
    t.leaf d f = ⟨⟨f.valueSql d ++ (t.frame d f.type).before, (t.frame d f.type).after⟩, t.parameter d⟩ := by
  cases t with
  | search function operand => rw [leaf, searchLeaf, Dialect.textMatches_eq]; rfl
  | compare operator operand =>
    have hlhs : (if f.type = .text then d.caseSensitive (f.valueSql d) else f.valueSql d) =
        f.valueSql d ++ if f.type = .text then d.caseSensitive "" else "" := by
      split
      · rw [Dialect.caseSensitive_eq]
      · simp
    obtain ⟨column, hsource⟩ | ⟨column, path, hsource⟩ := h <;>
      simp only [leaf, compareLeaf, hsource, frame, parameter, hlhs, String.append_assoc]

theorem asksValue_moved {column : String} {path : List String} :
    t.AsksValue (f.moved column path) ↔ t.AsksValue f := by
  cases t with
  | search => exact Iff.rfl
  | compare => cases hsource : f.source <;> simp [AsksValue, Field.moved, hsource]

theorem leaf_plain (h : f.overrides.get? d = none) : t.leaf d f.plain = t.leaf d f := by
  have hvalue := Field.valueSql_plain h
  cases t with
  | search function operand => rw [leaf, leaf, searchLeaf, searchLeaf, hvalue]
  | compare operator operand =>
    cases hsource : f.source <;> simp [leaf, compareLeaf, Field.plain, hsource, ← hvalue]

/-- A comparison with an array or a flag looks at no override. -/
theorem leaf_plain_of_not_asksValue (h : ¬t.AsksValue f) : t.leaf d f.plain = t.leaf d f := by
  cases t with
  | search => exact absurd trivial h
  | compare operator operand =>
    cases hsource : f.source with
    | column column => exact absurd (.inl ⟨column, hsource⟩) h
    | jsonScalar column path => exact absurd (.inr ⟨column, path, hsource⟩) h
    | jsonArray column path => simp only [leaf, compareLeaf, Field.plain, hsource]
    | statusFlag column value => simp only [leaf, compareLeaf, Field.plain, hsource]

theorem leaf_of_not_asksValue (h : ¬t.AsksValue f) (path : List String) :
    ∃ front back after, ∀ column, (t.leaf d (f.moved column path)).sql = ⟨front ++ column ++ back, after⟩ := by
  obtain ⟨front, back, hquote⟩ := d.quoteColumn_eq f.table
  cases t with
  | search => exact absurd trivial h
  | compare operator operand =>
    cases hsource : f.source with
    | column column => exact absurd (.inl ⟨column, hsource⟩) h
    | jsonScalar column path => exact absurd (.inr ⟨column, path, hsource⟩) h
    | jsonArray _ _ =>
      obtain ⟨front', back', after, hcontains⟩ := d.arrayContains_eq path
      refine ⟨(if operator = .notEqual then "NOT " else "") ++ front' ++ front, back ++ back', after, ?_⟩
      intro column
      simp [leaf, compareLeaf, Field.moved, hsource, hquote, hcontains, Field.Source.columnName,
        String.append_assoc]
    | statusFlag _ value =>
      let holds := (operator == .equal) == (operand == .boolean true)
      refine ⟨front, back ++ if holds then " = " else " <> ", "", ?_⟩
      intro column
      simp [leaf, compareLeaf, Field.moved, hsource, hquote, holds, Field.Source.columnName, String.append_assoc]

theorem render_on (span : Span) {offset : Nat} (h : offset < maxPlaceholder) :
    (t.on f span).render d offset =
      some ("(" ++ (t.leaf d f).sql.before ++ d.placeholder offset ++ (t.leaf d f).sql.after ++ ")",
        [(t.leaf d f).parameter]) := by
  have hpieces : (t.on f span).pieces d = (t.leaf d f).pieces := by cases t <;> rfl
  have hfields : (t.on f span).fields = [f] := by cases t <;> rfl
  rw [Predicate.render_eq, hpieces, hfields, List.length_singleton,
    if_pos (Nat.add_one_le_iff.mpr h)]
  simp [Leaf.pieces, textFrom, values, String.append_assoc]

/-- The text `sql` stands where the SQL for the field's place would stand without overrides, and whatever the
field's column and path are, they do not show. -/
def Honours (t : FieldTest) (f : Field) (d : Dialect) (offset : Nat) (sql : String) : Prop :=
  ∀ span, (∃ before after parameters,
      (t.on f span).render d offset = some (before ++ sql ++ after, parameters) ∧
      (t.on f.plain span).render d offset = some (before ++ f.physicalSql d ++ after, parameters)) ∧
    ∀ column path, (t.on (f.moved column path) span).render d offset = (t.on f span).render d offset

theorem honours_of_asksValue {offset : Nat} (hoffset : offset < maxPlaceholder) {sql : String}
    (hsql : f.overrides.get? d = some sql) (h : t.AsksValue f) : t.Honours f d offset sql := by
  have hplain : t.AsksValue f.plain := h
  have hvalue : f.valueSql d = sql := Field.valueSql_of_override hsql
  intro span
  refine ⟨⟨"(", (t.frame d f.type).before ++ d.placeholder offset ++ (t.frame d f.type).after ++ ")",
    [t.parameter d], ?_, ?_⟩, ?_⟩
  · rw [render_on span hoffset, leaf_of_asksValue h, hvalue]
    simp only [String.append_assoc]
  · rw [render_on span hoffset, leaf_of_asksValue hplain]
    simp only [String.append_assoc]
    rfl
  · intro column path
    have hmoved : (f.moved column path).valueSql d = sql := Field.valueSql_of_override hsql
    rw [render_on span hoffset, render_on span hoffset, leaf_of_asksValue h,
      leaf_of_asksValue (asksValue_moved.mpr h), hvalue, hmoved]
    rfl

theorem render_moved_inj {offset : Nat} (hoffset : offset < maxPlaceholder) (h : ¬t.AsksValue f) (span : Span)
    {a b : String} {path : List String}
    (heq : (t.on (f.moved a path) span).render d offset = (t.on (f.moved b path) span).render d offset) :
    a = b := by
  obtain ⟨front, back, after, hleaf⟩ := leaf_of_not_asksValue h path
  rw [render_on span hoffset, render_on span hoffset, hleaf, hleaf] at heq
  have htexts := congrArg (fun r => (r.map fun s => s.1.toList).getD []) heq
  simp only [Option.map_some, Option.getD_some, String.toList_append, List.append_assoc,
    List.append_cancel_left_eq] at htexts
  exact String.toList_injective (List.append_cancel_right htexts)

end FieldTest

/-- If a field has no override for a dialect, then its other overrides do not show in it. If it has one, then that
text stands in place of the SQL for the field, and the field's column and path do not show, exactly where the test
asks for the field's value; in a comparison with an array or a status flag the override is passed over, and every
change of the column shows. -/
theorem render_honours_override_iff (f : Field) (d : Dialect) (t : FieldTest) {offset : Nat}
    (hoffset : offset < maxPlaceholder) :
    (f.overrides.get? d = none →
      ∀ span, (t.on f span).render d offset = (t.on f.plain span).render d offset) ∧
    ∀ sql, f.overrides.get? d = some sql →
      (t.Honours f d offset sql ↔ t.AsksValue f) ∧
      (¬t.AsksValue f → ∀ span,
        (t.on f span).render d offset = (t.on f.plain span).render d offset ∧
        ∀ a b path, (t.on (f.moved a path) span).render d offset = (t.on (f.moved b path) span).render d offset →
          a = b) := by
  constructor
  · intro hnone span
    rw [FieldTest.render_on span hoffset, FieldTest.render_on span hoffset, FieldTest.leaf_plain hnone]
  · intro sql hsql
    have hpassed : ¬t.AsksValue f → ∀ span,
        (t.on f span).render d offset = (t.on f.plain span).render d offset := by
      intro h span
      rw [FieldTest.render_on span hoffset, FieldTest.render_on span hoffset,
        FieldTest.leaf_plain_of_not_asksValue h]
    refine ⟨⟨?_, FieldTest.honours_of_asksValue hoffset hsql⟩, ?_⟩
    · -- An honoured override hides the column, so two different columns look the same.
      intro hhonours
      refine Classical.byContradiction fun h => ?_
      have hmoved := (hhonours ⟨0, 0, 0, 0⟩).2
      have hsame := FieldTest.render_moved_inj hoffset h ⟨0, 0, 0, 0⟩ ((hmoved "a" []).trans (hmoved "b" []).symm)
      exact absurd hsame (by decide)
    · intro h span
      exact ⟨hpassed h span, fun a b path heq => FieldTest.render_moved_inj hoffset h span heq⟩

def createdMoment : Field := { Field.moment "memo" "created_ts" with table := "memo" }

theorem render_honours_override_moment :
    0 < maxPlaceholder ∧
    createdMoment.overrides.get? .mysql = some "UNIX_TIMESTAMP(`memo`.`created_ts`)" ∧
    (FieldTest.compare .less (.timestamp 5)).Honours createdMoment .mysql 0 "UNIX_TIMESTAMP(`memo`.`created_ts`)" ∧
    createdMoment.overrides.get? .postgres = none ∧
    ((FieldTest.compare .less (.timestamp 5)).on createdMoment ⟨0, 1, 1, 1⟩).render .postgres 0 =
      ((FieldTest.compare .less (.timestamp 5)).on createdMoment.plain ⟨0, 1, 1, 1⟩).render .postgres 0 := by
  have hoffset : 0 < maxPlaceholder := by decide
  have hsome : createdMoment.overrides.get? .mysql = some "UNIX_TIMESTAMP(`memo`.`created_ts`)" := by decide
  have hnone : createdMoment.overrides.get? .postgres = none := by decide
  have hlaw := fun d => render_honours_override_iff createdMoment d (.compare .less (.timestamp 5)) hoffset
  have hmysql := (hlaw .mysql).2 _ hsome
  have hpostgres := (hlaw .postgres).1
  exact ⟨hoffset, hsome, hmysql.1.mpr (.inl ⟨"created_ts", rfl⟩), hnone, hpostgres hnone ⟨0, 1, 1, 1⟩⟩

def shoutedFlag : Field :=
  (Field.ofStatusFlag "archived" "status" "ARCHIVED").withOverride .sqlite "UPPER(status)"

/-- A catalog takes an override for a status flag, and the predicate on the flag is rendered without it. -/
theorem render_passes_over_flag_override :
    Catalog.build .note "notes" 1 [shoutedFlag] =
      .ok (.of .note "notes" 1 [{ shoutedFlag with table := "notes" }]) ∧
    Expr.ofText {} "archived" = .ok (.field ⟨["archived"]⟩ ⟨0, 8, 1, 1⟩) ∧
    (Predicate.bind (.of .note "notes" 1 [{ shoutedFlag with table := "notes" }])
        (.field ⟨["archived"]⟩ ⟨0, 8, 1, 1⟩) >>= Predicate.check) =
      .ok ((FieldTest.compare .equal (.boolean true)).on { shoutedFlag with table := "notes" } ⟨0, 8, 1, 1⟩) ∧
    shoutedFlag.overrides.get? .sqlite = some "UPPER(status)" ∧
    ((FieldTest.compare .equal (.boolean true)).on { shoutedFlag with table := "notes" }
        ⟨0, 8, 1, 1⟩).render .sqlite 0 =
      some ("(\"notes\".\"status\" = ?)", [.text "ARCHIVED"]) ∧
    ¬(FieldTest.compare .equal (.boolean true)).Honours { shoutedFlag with table := "notes" } .sqlite 0
      "UPPER(status)" := by
  refine ⟨by rfl, by with_unfolding_all rfl, by rfl, by decide, by decide, ?_⟩
  intro hhonours
  -- Two columns give two texts, though an honoured override would hide them.
  have hmoved := (hhonours ⟨0, 8, 1, 1⟩).2
  exact absurd ((hmoved "a" []).trans (hmoved "b" []).symm) (by decide)

end Sql

end FilterSql
