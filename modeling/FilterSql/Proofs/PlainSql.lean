import FilterSql.Proofs.CatalogChecked
import FilterSql.Proofs.Rendering

/-! Text between placeholders. The character that placeholders start with never comes from a name, a path
or a keyword, and no digit follows a placeholder, so placeholders can be told from the text around them. -/
namespace FilterSql

namespace Dialect

def sign : Dialect → Char
  | mysql => '?'
  | postgres => '$'
  | sqlite => '?'

theorem sign_not_namePart (d : Dialect) : Text.isNamePart d.sign = false := by
  cases d <;> decide

end Dialect

namespace Sql

def Plain (d : Dialect) (s : String) : Prop := d.sign ∉ s.toList

instance (d : Dialect) (s : String) : Decidable (Plain d s) := inferInstanceAs (Decidable (¬ _))

def Closes (s : String) : Prop := ∃ c, s.toList.head? = some c ∧ c.isDigit = false

/-- Pieces from which their placeholders can be read back. -/
inductive Tidy (d : Dialect) : List Piece → Prop where
  | nil : Tidy d []
  | text : Plain d sql → Tidy d pieces → Tidy d (.text sql :: pieces)
  | parameter : Plain d sql → Closes sql → Tidy d pieces → Tidy d (.parameter value :: .text sql :: pieces)

theorem Tidy.append {d : Dialect} {ps qs : List Piece} (hp : Tidy d ps) (hq : Tidy d qs) :
    Tidy d (ps ++ qs) := by
  induction hp with
  | nil => exact hq
  | text hplain _ ih => exact .text hplain ih
  | parameter hplain hcloses _ ih => exact .parameter hplain hcloses ih

theorem Tidy.ofText {d : Dialect} {sql : String} (h : Plain d sql) : Tidy d [.text sql] := .text h .nil

theorem plain_append {d : Dialect} {s t : String} : Plain d (s ++ t) ↔ Plain d s ∧ Plain d t := by
  unfold Plain
  rw [String.toList_append, List.mem_append, not_or]

theorem plain_of_nameParts {d : Dialect} {s : String} (h : s.toList.all Text.isNamePart = true) :
    Plain d s := by
  intro hmem
  have hpart := List.all_eq_true.mp h _ hmem
  rw [d.sign_not_namePart] at hpart
  cases hpart

theorem plain_of_isIdentifier {d : Dialect} {s : String} (h : Text.isIdentifier s.toList = true) :
    Plain d s := by
  apply plain_of_nameParts
  revert h
  cases s.toList with
  | nil => simp
  | cons c cs =>
    intro h
    simp only [Text.isIdentifier, Bool.and_eq_true] at h
    simp [Text.isNamePart, h.1, h.2]

theorem plain_of_isPathSegment {d : Dialect} {s : String} (h : isPathSegment s = true) : Plain d s := by
  simp only [isPathSegment, Bool.and_eq_true] at h
  exact plain_of_nameParts h.2

theorem plain_intercalate {d : Dialect} {separator : String} {parts : List String}
    (hs : Plain d separator) (hp : ∀ s ∈ parts, Plain d s) : Plain d (separator.intercalate parts) := by
  induction parts with
  | nil =>
    rw [String.intercalate_nil]
    cases d <;> decide
  | cons s rest ih =>
    cases rest with
    | nil => simpa using hp s
    | cons t rest =>
      rw [String.intercalate_cons_cons, plain_append, plain_append]
      exact ⟨⟨hp s (by simp), hs⟩, ih fun u hu => hp u (by simp [hu])⟩

end Sql

open Sql

structure Field.Plain (d : Dialect) (f : Field) : Prop where
  table : Sql.Plain d f.table
  column : Sql.Plain d f.source.columnName
  path : ∀ path, f.source.path? = some path → ∀ s ∈ path, Sql.Plain d s
  overrides : ∀ o ∈ f.overrides, Sql.Plain d o.2

theorem Field.plain_of_build {entity : Entity} {table : String} {version : Nat} {fields : List Field}
    {catalog : Catalog} (h : Catalog.build entity table version fields = .ok catalog) {d : Dialect}
    {f : Field} (hf : f ∈ catalog.fields)
    (ho : ∀ o ∈ f.overrides, '?' ∉ o.2.toList ∧ '$' ∉ o.2.toList) : f.Plain d := by
  obtain ⟨htable, hfields⟩ := Catalog.valid_of_build h
  obtain ⟨heq, hvalid⟩ := hfields f hf
  refine ⟨?_, plain_of_isIdentifier hvalid.column, ?_, ?_⟩
  · rw [heq]
    exact plain_of_isIdentifier htable
  · intro path hpath s hs
    exact plain_of_isPathSegment ((hvalid.path path hpath).2 s hs)
  · intro o hmem
    cases d with
    | mysql => exact (ho o hmem).1
    | postgres => exact (ho o hmem).2
    | sqlite => exact (ho o hmem).1

namespace Dialect

theorem plain_quoteColumn {d : Dialect} {table column : String} (ht : Plain d table)
    (hc : Plain d column) : Plain d (d.quoteColumn table column) := by
  unfold quoteColumn
  cases d <;> simp only [quote, plain_append, ht, hc, and_true] <;> decide

theorem plain_jsonPath {d : Dialect} {path : List String} (h : ∀ s ∈ path, Plain d s) :
    Plain d (d.jsonPath path) := by
  -- In two dialects a path starts with a dollar sign, which starts no placeholder there.
  have hdots := plain_intercalate (by cases d <;> decide : Plain d ".") h
  have hcommas := plain_intercalate (by cases d <;> decide : Plain d ",") h
  cases d <;> simp only [jsonPath, plain_append, hdots, hcommas, and_true] <;> decide

theorem plain_jsonScalar {d : Dialect} {column : String} {path : List String} (hc : Plain d column)
    (hp : ∀ s ∈ path, Plain d s) (type : FieldType) : Plain d (d.jsonScalar column path type) := by
  have hpath := plain_jsonPath hp
  unfold jsonScalar
  cases d with
  | mysql => cases type <;> simp only [plain_append, hc, hpath, and_true] <;> decide
  | sqlite => cases type <;> simp only [plain_append, hc, hpath, and_true] <;> decide
  | postgres =>
    cases type with
    | number precision =>
      cases precision <;> simp only [plain_append, hc, hpath, and_true] <;> decide
    | _ =>
      simp only [plain_append, hc, hpath, and_true]
      decide

theorem plain_caseSensitive {d : Dialect} {sql : String} (h : Plain d sql) :
    Plain d (d.caseSensitive sql) := by
  cases d with
  | mysql => exact plain_append.mpr ⟨h, by decide⟩
  | postgres => exact h
  | sqlite => exact h

end Dialect

theorem Overrides.mem_of_get? {o : Overrides} {d : Dialect} {sql : String} (h : o.get? d = some sql) :
    ∃ entry ∈ o, entry.2 = sql := by
  unfold get? at h
  obtain ⟨entry, hfind, rfl⟩ := Option.map_eq_some_iff.mp h
  exact ⟨entry, List.mem_of_find?_eq_some hfind, rfl⟩

namespace Field

theorem Plain.quoteColumn {d : Dialect} {f : Field} (hf : f.Plain d) :
    Sql.Plain d (d.quoteColumn f.table f.source.columnName) :=
  Dialect.plain_quoteColumn hf.table hf.column

theorem Plain.valueSql {d : Dialect} {f : Field} (hf : f.Plain d) : Sql.Plain d (f.valueSql d) := by
  unfold Field.valueSql
  split
  case h_1 sql hget =>
    obtain ⟨entry, hmem, rfl⟩ := Overrides.mem_of_get? hget
    exact hf.overrides entry hmem
  case h_2 =>
    split
    case h_1 column path hsource =>
      exact Dialect.plain_jsonScalar hf.quoteColumn (hf.path path (by rw [hsource]; rfl)) f.type
    case h_2 => exact hf.quoteColumn

end Field

namespace Sql

structure Template.Tidy (d : Dialect) (t : Template) : Prop where
  before : Plain d t.before
  after : Plain d t.after
  closes : Closes (t.after ++ ")")

theorem closes_append {s t : String} (h : Closes s) : Closes (s ++ t) := by
  obtain ⟨c, hhead, hdigit⟩ := h
  refine ⟨c, ?_, hdigit⟩
  rw [String.toList_append, List.head?_append, hhead, Option.some_or]

theorem closes_parenthesis : Closes ")" := ⟨')', by decide, by decide⟩

theorem Template.tidy_of_empty {d : Dialect} {before : String} (h : Plain d before) :
    Template.Tidy d ⟨before, ""⟩ := by
  have hempty : Plain d "" := by cases d <;> decide
  exact ⟨h, hempty, closes_parenthesis⟩

theorem Template.tidy_of_closes {d : Dialect} {before after : String} (hb : Plain d before)
    (ha : Plain d after) (hc : Closes after) : Template.Tidy d ⟨before, after⟩ :=
  ⟨hb, ha, closes_append hc⟩

theorem tidy_arrayContains {d : Dialect} {column : String} {path : List String} (hc : Plain d column)
    (hp : ∀ s ∈ path, Plain d s) : (d.arrayContains column path).Tidy d := by
  have hpath := Dialect.plain_jsonPath hp
  unfold Dialect.arrayContains
  cases d with
  | mysql =>
    apply Template.tidy_of_closes
    · simp only [plain_append, hc, and_true]
      decide
    · simp only [plain_append, hpath, and_true]
      decide
    · rw [String.append_assoc]
      exact closes_append ⟨')', by decide, by decide⟩
  | postgres =>
    apply Template.tidy_of_closes
    · simp only [plain_append, hc, hpath, and_true]
      decide
    · decide
    · exact ⟨' ', by decide, by decide⟩
  | sqlite =>
    apply Template.tidy_of_closes
    · simp only [plain_append, hc, hpath, and_true]
      decide
    · decide
    · exact closes_parenthesis

theorem tidy_textMatches {d : Dialect} {sql : String} (h : Plain d sql) : (d.textMatches sql).Tidy d := by
  unfold Dialect.textMatches
  cases d with
  | mysql =>
    apply Template.tidy_of_closes
    · exact plain_append.mpr ⟨Dialect.plain_caseSensitive h, by decide⟩
    · decide
    · exact ⟨' ', by decide, by decide⟩
  | postgres =>
    apply Template.tidy_of_closes
    · exact plain_append.mpr ⟨h, by decide⟩
    · decide
    · exact ⟨' ', by decide, by decide⟩
  | sqlite =>
    apply Template.tidy_of_empty
    exact plain_append.mpr ⟨h, by decide⟩

theorem tidy_compareLeaf {d : Dialect} {f : Field} (hf : f.Plain d) (operator : Comparison)
    (operand : Operand) : (compareLeaf d f operator operand).sql.Tidy d := by
  unfold compareLeaf
  split
  case h_1 column path hsource =>
    have hcontains := tidy_arrayContains hf.quoteColumn (hf.path path (by rw [hsource]; rfl))
    refine ⟨?_, hcontains.after, hcontains.closes⟩
    rw [plain_append]
    refine ⟨?_, hcontains.before⟩
    split <;> cases d <;> decide
  case h_2 =>
    apply Template.tidy_of_empty
    rw [plain_append]
    refine ⟨hf.quoteColumn, ?_⟩
    split <;> cases d <;> decide
  case h_3 =>
    apply Template.tidy_of_empty
    rw [plain_append]
    constructor
    · split
      · exact Dialect.plain_caseSensitive hf.valueSql
      · exact hf.valueSql
    · cases d <;> cases operator <;> decide

theorem Leaf.tidy_pieces {d : Dialect} {leaf : Leaf} (h : leaf.sql.Tidy d) : Tidy d leaf.pieces := by
  unfold pieces
  apply Tidy.text
  · rw [plain_append]
    exact ⟨by cases d <;> decide, h.before⟩
  · apply Tidy.parameter
    · rw [plain_append]
      exact ⟨h.after, by cases d <;> decide⟩
    · exact h.closes
    · exact .nil

end Sql

namespace Predicate

theorem tidy_connective {d : Dialect} {ps qs : List Piece} (hp : Tidy d ps) (hq : Tidy d qs)
    {word : String} (hw : Plain d word) :
    Tidy d ([.text "("] ++ ps ++ [.text word] ++ qs ++ [.text ")"]) := by
  have hopen : Plain d "(" := by cases d <;> decide
  have hclose : Plain d ")" := by cases d <;> decide
  exact ((((Tidy.ofText hopen).append hp).append (.ofText hw)).append hq).append (.ofText hclose)

theorem tidy_pieces {d : Dialect} {p : Predicate Operand} (h : ∀ f ∈ p.fields, f.Plain d) :
    Tidy d (p.pieces d) := by
  induction p with
  | and left right ihl ihr | or left right ihl ihr =>
    have hl := ihl fun f hf => h f (List.mem_append_left _ hf)
    have hr := ihr fun f hf => h f (List.mem_append_right _ hf)
    exact tidy_connective hl hr (by cases d <;> decide)
  | not operand ih =>
    refine (Tidy.ofText ?_).append (ih h)
    cases d <;> decide
  | compare field operator operand =>
    exact Leaf.tidy_pieces (tidy_compareLeaf (h field List.mem_cons_self) operator operand)
  | search field function operand =>
    exact Leaf.tidy_pieces (tidy_textMatches (h field List.mem_cons_self).valueSql)

end Predicate

end FilterSql
