import FilterSql.Proofs.LeafReading

/-! Leaves mean what they are rendered from, of a row as the database sees it: at a path of which it takes a
segment for something else there is nothing to be seen. Where a field is compared or searched, the test that its
SQL is read as has the truth value of the predicate, unless the database refuses the path. -/
namespace FilterSql

open Sql Nested

/-- A row as a database sees it by the paths of a catalog. -/
def Row.seenBy (row : Row) (d : Dialect) : Row where
  column := row.column
  scalar table column path := if ∀ s ∈ path, d.Keeps s then row.scalar table column path else none
  array table column path := if ∀ s ∈ path, d.Keeps s then row.array table column path else none

def Field.KeptBy (f : Field) (d : Dialect) : Prop :=
  ∀ path, f.source.path? = some path → ∀ s ∈ path, d.Keeps s

instance (f : Field) (d : Dialect) : Decidable (f.KeptBy d) :=
  match h : f.source.path? with
  | none => .isTrue (by simp [Field.KeptBy, h])
  | some path => decidable_of_iff (∀ s ∈ path, d.Keeps s) (by simp [Field.KeptBy, h])

def Field.RefusedBy (f : Field) (d : Dialect) : Prop :=
  ∃ path, f.source.path? = some path ∧ d.readPath? (d.pathBody path) = none

section Paths

variable {f : Field} {d : Dialect} {row : Row} {path : List String}

theorem Field.Regular.segments (hf : f.Regular) (h : f.source.path? = some path) :
    path ≠ [] ∧ ∀ s ∈ path, Text.Segment s :=
  ⟨(hf.valid.path path h).1, fun s hs => Text.isPathSegment_iff.mp ((hf.valid.path path h).2 s hs)⟩

theorem Field.Regular.refusedBy_iff (hf : f.Regular) : f.RefusedBy d ↔ d = .mysql ∧ ¬f.KeptBy d := by
  constructor
  · rintro ⟨path, hpath, hread⟩
    obtain ⟨hne, hsegments⟩ := hf.segments hpath
    obtain ⟨hd, hlost⟩ := (d.readPath?_pathBody_eq_none_iff hne hsegments).mp hread
    exact ⟨hd, fun hkept => hlost (hkept path hpath)⟩
  · rintro ⟨hd, hlost⟩
    simp only [KeptBy, not_forall] at hlost
    obtain ⟨path, hpath, s, hs, hkeeps⟩ := hlost
    obtain ⟨hne, hsegments⟩ := hf.segments hpath
    exact ⟨path, hpath, (d.readPath?_pathBody_eq_none_iff hne hsegments).mpr ⟨hd, fun hall => hkeeps (hall s hs)⟩⟩

theorem Row.Suits.seenBy (h : row.Suits f) (d : Dialect) : (row.seenBy d).Suits f := by
  unfold Suits at h ⊢
  cases hsource : f.source with
  | jsonScalar column path =>
    rw [hsource] at h
    intro v
    dsimp only [Row.seenBy]
    split
    · exact h v
    · nofun
  | _ =>
    rw [hsource] at h
    exact h

variable {steps : List (Option String)}

theorem Field.Regular.scalarAt_eq (hf : f.Regular) (hpath : f.source.path? = some path)
    (hread : d.readPath? (d.pathBody path) = some steps) (table column : String) :
    row.scalarAt table column steps = (row.seenBy d).scalar table column path := by
  obtain ⟨hne, hsegments⟩ := hf.segments hpath
  unfold Row.scalarAt Row.seenBy
  dsimp only
  obtain ⟨rfl, hkept⟩ | ⟨hnull, hlost⟩ := Dialect.steps_of_readPath? hne hsegments hread
  · rw [if_pos hkept, if_neg (by simp), List.filterMap_map]
    simp
  · rw [if_neg hlost, if_pos hnull]

theorem Field.Regular.textsAt_eq (hf : f.Regular) (hpath : f.source.path? = some path)
    (hread : d.readPath? (d.pathBody path) = some steps) (table column : String) :
    row.textsAt table column steps = (row.seenBy d).texts table column path := by
  obtain ⟨hne, hsegments⟩ := hf.segments hpath
  unfold Row.textsAt Row.texts Row.seenBy
  dsimp only
  obtain ⟨rfl, hkept⟩ | ⟨hnull, hlost⟩ := Dialect.steps_of_readPath? hne hsegments hread
  · rw [if_pos hkept, if_neg (by simp), List.filterMap_map]
    simp
  · rw [if_neg hlost, if_pos hnull]
    rfl

end Paths

/-- A field that is stored as it is reads as a term with the value that the database sees. -/
theorem Field.exists_reads {f : Field} (hf : f.Regular) {d : Dialect} (hread : ¬f.RefusedBy d) {row : Row}
    (hrow : row.Suits f) (harray : f.source.isArray = false)
    (hflag : ∀ column value, f.source ≠ .statusFlag column value) :
    ∃ x : Term, (f.valueLayout d).Reads d (some x) ∧
      x.value? d row = some ((f.scalar (row.seenBy d)).map d.stored) := by
  have hseen := hrow.seenBy d
  unfold Field.valueLayout Field.scalar Field.columnLayout
  unfold Row.Suits at hseen
  cases hsource : f.source with
  | column column => exact ⟨.column f.table column, reads_columnLayout d f.table column, rfl⟩
  | jsonScalar column path =>
    rw [hsource] at hseen
    have hpath : f.source.path? = some path := by rw [hsource]; rfl
    obtain ⟨steps, hsteps⟩ := Option.ne_none_iff_exists'.mp fun hnone => hread ⟨path, hpath, hnone⟩
    have hreads := reads_scalarLayout d f.table column path f.type
    rw [hsteps] at hreads
    refine ⟨scalarTerm d f.table column f.type steps, hreads, ?_⟩
    rw [value?_scalarTerm, hf.scalarAt_eq hpath hsteps]
    rw [hf.scalarAt_eq hpath hsteps]
    exact hseen
  | jsonArray column path =>
    rw [hsource] at harray
    cases harray
  | statusFlag column value => exact absurd hsource (hflag column value)

/-- The value of a field whose path is refused is not read. -/
theorem Field.reads_none {f : Field} {d : Dialect} (hread : f.RefusedBy d) (harray : f.source.isArray = false) :
    (f.valueLayout d).Reads d none := by
  obtain ⟨path, hpath, hnone⟩ := hread
  unfold Field.valueLayout Field.columnLayout
  cases hsource : f.source with
  | column => simp [hsource, Field.Source.path?] at hpath
  | statusFlag => simp [hsource, Field.Source.path?] at hpath
  | jsonArray => simp [hsource, Field.Source.isArray] at harray
  | jsonScalar column steps =>
    obtain rfl : steps = path := by simpa [hsource, Field.Source.path?] using hpath
    have hreads := reads_scalarLayout d f.table column steps f.type
    rwa [hnone] at hreads

theorem Field.admits_scalar {f : Field} (hf : f.Regular) {row : Row} (hrow : row.Suits f) {v : Scalar}
    (hv : f.scalar row = some v) : f.type.admits v = true := by
  unfold Field.scalar at hv
  unfold Row.Suits at hrow
  cases hsource : f.source with
  | column column =>
    rw [hsource] at hv hrow
    exact hrow v hv
  | jsonScalar column path =>
    rw [hsource] at hv hrow
    simp only at hv
    split at hv
    case isTrue htype =>
      cases hraw : row.scalar f.table column path with
      | none =>
        rw [hraw] at hv
        cases hv
        rw [htype]
        rfl
      | some w =>
        rw [hraw] at hv
        cases hv
        exact hrow w hraw
    case isFalse => exact hrow v hv
  | jsonArray column path =>
    rw [hsource] at hv
    cases hv
  | statusFlag column value =>
    rw [hsource] at hv
    obtain ⟨w, -, rfl⟩ := Option.map_eq_some_iff.mp hv
    rw [hf.flag column value hsource]
    rfl

namespace Sql

theorem scalar_encode (operand : Operand) (d : Dialect) :
    (operand.encode d).scalar = d.stored (operand.scalar d) := by
  cases operand <;> cases d <;> rfl

theorem order?_stored {type : FieldType} {a : Scalar} {operand : Operand} (ha : type.admits a = true)
    (ho : operand.hasType type = true) (d : Dialect) :
    (d.stored a).order? (d.stored (operand.scalar d)) = a.order? (operand.scalar d) := by
  by_cases htype : type = .boolean
  · subst htype
    cases a with
    | boolean a =>
      cases operand with
      | boolean b => cases d <;> cases a <;> cases b <;> rfl
      | _ => cases ho
    | _ => cases ha
  · -- Only booleans are stored as something else.
    have hstored : ∀ v, type.admits v = true → d.stored v = v := by
      intro v hv
      cases v with
      | boolean b => cases type <;> simp_all [FieldType.admits]
      | _ => cases d <;> rfl
    have hoperand : d.stored (operand.scalar d) = operand.scalar d := by
      cases operand with
      | boolean b => cases type <;> simp_all [Operand.hasType]
      | _ => cases d <;> rfl
    rw [hstored a ha, hoperand]

theorem compared_stored {type : FieldType} {v : Option Scalar} {operand : Operand}
    (hv : ∀ a, v = some a → type.admits a = true) (ho : operand.hasType type = true) (d : Dialect)
    (operator : Comparison) :
    Scalar.compared operator (v.map d.stored) (some (operand.encode d).scalar) =
      Scalar.compared operator v (some (operand.scalar d)) := by
  rw [scalar_encode]
  cases v with
  | none => rfl
  | some a => simp [Scalar.compared, order?_stored (hv a rfl) ho]

theorem compared_flag {operator : Comparison} (hordering : operator.isOrdering = false) (b : Bool)
    (value : String) {v : Option Scalar} (hv : ∀ a, v = some a → FieldType.text.admits a = true)
    (d : Dialect) :
    let holds := (operator == .equal) == (Operand.boolean b == .boolean true)
    Scalar.compared (if holds then .equal else .notEqual) (v.map d.stored) (some (.text value)) =
      Scalar.compared operator (v.map fun a => .boolean (a == .text value)) (some (.boolean b)) := by
  intro holds
  cases v with
  | none => rfl
  | some a =>
    cases a with
    | text s =>
      have hsame : (Scalar.text s == .text value) = (compare s value == .eq) := by
        rw [Bool.eq_iff_iff, beq_iff_eq, beq_iff_eq, Std.LawfulEqCmp.compare_eq_iff_eq, Scalar.text.injEq]
      simp only [Option.map_some, Dialect.stored_text, hsame, Scalar.compared, Option.bind_some, Scalar.order?]
      cases operator with
      | equal => cases b <;> cases compare s value <;> rfl
      | notEqual => cases b <;> cases compare s value <;> rfl
      | _ => cases hordering
    | _ => cases hv _ rfl

section Leaves

variable {d : Dialect} {row : Row} {f : Field} {arguments : List Value} {index before : Nat}

theorem truth?_compare {x : Term} {v : Option Scalar} (hx : x.value? d row = some v) {parameter : Scalar}
    (hargument : (slot d index).argument? arguments before = some parameter) (operator : Comparison) :
    (Test.compare x operator (slot d index)).truth? d row arguments before =
      some (Scalar.compared operator v (some parameter)) := by
  simp [Test.truth?, hx, hargument]

theorem truth?_arrayLayout (hf : f.Regular) {column : String} {path : List String}
    (hpath : f.source.path? = some path) (hread : ¬f.RefusedBy d) {operator : Comparison} {s : String} {v : Truth}
    (htruth : operator.member? (((row.seenBy d).texts f.table column path).contains s) = some v)
    (hargument : (slot d index).argument? arguments before = some (.text s)) :
    let contains := d.containsLayout (d.columnLayout f.table column) path (d.mark index)
    (Condition.leaf (if operator = .notEqual then .part (.word "NOT") (.part (.sign ' ') contains)
      else contains)).truth? d row arguments before = some v := by
  intro contains
  obtain ⟨steps, hsteps⟩ := Option.ne_none_iff_exists'.mp fun hnone => hread ⟨path, hpath, hnone⟩
  obtain ⟨hcontains, hlacks⟩ := test?_containsLayout d f.table column path index
  rw [hsteps] at hcontains hlacks
  have hholds : (Test.contains f.table column steps (slot d index)).truth? d row arguments before =
      some (some (((row.seenBy d).texts f.table column path).contains s)) := by
    simp [Test.truth?, hargument, hf.textsAt_eq hpath hsteps]
  cases operator with
  | equal =>
    cases htruth
    simpa [Condition.truth?, contains, hcontains] using hholds
  | notEqual =>
    cases htruth
    rw [if_pos rfl, Condition.truth?, hlacks, Option.map_some, Option.map_some, Option.bind_some, Test.truth?,
      hholds]
    rfl
  | _ => cases htruth

theorem truth?_flagLayout {column value : String} (hsource : f.source = .statusFlag column value)
    (hrow : row.Suits f) {operator : Comparison} (hordering : operator.isOrdering = false) (b : Bool)
    (hargument : (slot d index).argument? arguments before = some (.text value)) :
    let holds := (operator == .equal) == (Operand.boolean b == .boolean true)
    (Condition.leaf (d.columnLayout f.table column ++ (signs (if holds then " = " else " <> ") ++
      .part (d.mark index) .done))).truth? d row arguments before =
      some (Scalar.compared operator (f.scalar (row.seenBy d)) (some (.boolean b))) := by
  intro holds
  have hsql : (if holds then " = " else " <> ") = (if holds then Comparison.equal else .notEqual).sql := by
    split <;> rfl
  have htexts : ∀ a, row.column f.table column = some a → FieldType.text.admits a = true := by
    intro a ha
    have hsuits := hrow a
    rw [hsource] at hsuits
    exact hsuits ha
  have hscalar : f.scalar (row.seenBy d) =
      (row.column f.table column).map fun a => .boolean (a == .text value) := by
    rw [Field.scalar, hsource]
    rfl
  have hvalue : (Term.column f.table column).value? d row =
      some ((row.column f.table column).map d.stored) := rfl
  rw [hsql, Condition.truth?, (reads_columnLayout d f.table column).compared, Option.map_some, Option.bind_some,
    truth?_compare hvalue hargument, hscalar, ← compared_flag hordering b value htexts d]

theorem truth?_valueLayout (hf : f.Regular) (hread : ¬f.RefusedBy d) (hrow : row.Suits f)
    (harray : f.source.isArray = false) (hflag : ∀ column value, f.source ≠ .statusFlag column value)
    {operand : Operand} (htype : operand.hasType f.type = true) (operator : Comparison)
    (hargument : (slot d index).argument? arguments before = some (operand.encode d).scalar) :
    let lhs := if f.type = .text then d.collated (f.valueLayout d) else f.valueLayout d
    let leaf := lhs ++ (signs operator.sql ++ .part (d.mark index) .done)
    (Condition.leaf leaf).truth? d row arguments before =
      some (Scalar.compared operator (f.scalar (row.seenBy d)) (some (operand.scalar d))) := by
  intro lhs leaf
  obtain ⟨x, hreads, hx⟩ := Field.exists_reads hf hread hrow harray hflag
  have htest : test? d leaf.solid = some (.compare x operator (slot d index)) := by
    unfold leaf lhs
    split
    · exact hreads.collated operator index
    · exact hreads.compared operator index
  rw [Condition.truth?, htest, Option.bind_some, truth?_compare hx hargument,
    compared_stored (fun a ha => Field.admits_scalar hf (hrow.seenBy d) ha) htype]

/-- A comparison says in SQL what it says as a predicate. -/
theorem truth?_compareLayout (hf : f.Regular) (hread : ¬f.RefusedBy d) (hrow : row.Suits f)
    {operator : Comparison} {operand : Operand} {v : Truth}
    (htruth : Predicate.compareTruth? d (row.seenBy d) f operator operand = some v)
    (hargument : (slot d index).argument? arguments before =
      some (compareLeaf d f operator operand).parameter.scalar) :
    (Condition.leaf (compareLayout d f operator operand (d.mark index))).truth? d row arguments before =
      some v := by
  unfold Predicate.compareTruth? at htruth
  split at htruth
  case isFalse => cases htruth
  case isTrue htyped =>
    rw [Bool.and_eq_true] at htyped
    obtain ⟨htype, hordering⟩ := htyped
    unfold compareLayout Field.columnLayout
    unfold compareLeaf at hargument
    cases hsource : f.source with
    | jsonArray column path =>
      rw [hsource] at htruth hargument
      obtain ⟨s, hs, htruth⟩ := Option.bind_eq_some_iff.mp htruth
      cases operand with
      | text =>
        cases hs
        exact truth?_arrayLayout hf (by rw [hsource]; rfl) hread htruth hargument
      | _ => cases hs
    | statusFlag column value =>
      rw [hsource] at htruth hargument
      rw [hf.flag column value hsource] at htype hordering
      cases htruth
      cases operand with
      | boolean b =>
        have hordering : operator.isOrdering = false := by simpa [FieldType.isOrdered] using hordering
        exact truth?_flagLayout hsource hrow hordering b hargument
      | _ => cases htype
    | column column =>
      rw [hsource] at htruth hargument
      cases htruth
      exact truth?_valueLayout hf hread hrow (by rw [hsource]; rfl) (by simp [hsource]) htype operator hargument
    | jsonScalar column path =>
      rw [hsource] at htruth hargument
      cases htruth
      exact truth?_valueLayout hf hread hrow (by rw [hsource]; rfl) (by simp [hsource]) htype operator hargument

theorem matched?_eq_searched {matcher : List Char → List Char → Bool} {p needle : String}
    {function : StringFunction}
    (hmatcher : ∀ s, matcher p.toList s = decide (function.Finds needle.toList s)) {v : Option Scalar}
    (hv : ∀ a, v = some a → FieldType.text.admits a = true) (d : Dialect) :
    matched? matcher (.text p) (v.map d.stored) = some (function.searched needle v) := by
  cases v with
  | none => rfl
  | some a =>
    cases a with
    | text s => simp [matched?, StringFunction.searched, hmatcher]
    | _ => cases hv _ rfl

theorem truth?_searchLayout (hf : f.Regular) (hread : ¬f.RefusedBy d) (hrow : row.Suits f)
    {function : StringFunction} {operand : Operand} {v : Truth}
    (htruth : Predicate.searchTruth? (row.seenBy d) f function operand = some v)
    (hargument : (slot d index).argument? arguments before =
      some (searchLeaf d f function operand).parameter.scalar) :
    (Condition.leaf (searchLayout d f (d.mark index))).truth? d row arguments before = some v := by
  unfold Predicate.searchTruth? at htruth
  split at htruth
  case isFalse => cases htruth
  case isTrue htext =>
    obtain ⟨htype, harray⟩ := htext
    obtain ⟨needle, hneedle, rfl⟩ := Option.map_eq_some_iff.mp htruth
    have hflag : ∀ column value, f.source ≠ .statusFlag column value := by
      intro column value hsource
      have hboolean := hf.flag column value hsource
      rw [htype] at hboolean
      cases hboolean
    have hvalue : ∀ a, f.scalar (row.seenBy d) = some a → FieldType.text.admits a = true := by
      intro a ha
      have hadmits := Field.admits_scalar hf (hrow.seenBy d) ha
      rwa [htype] at hadmits
    obtain ⟨x, hreads, hx⟩ := Field.exists_reads hf hread hrow harray hflag
    have hpattern : (slot d index).argument? arguments before =
        some (.text (pattern d function needle)) := by
      rw [hargument]
      cases operand with
      | text =>
        cases hneedle
        rfl
      | _ => cases hneedle
    rw [Condition.truth?, searchLayout, hreads.matched, Option.map_some, Option.bind_some]
    cases d with
    | mysql =>
      simpa [matching, Test.truth?, hx, hpattern] using matched?_eq_searched
        (by simpa [pattern] using like_likePattern function needle.toList) hvalue .mysql
    | postgres =>
      simpa [matching, Test.truth?, hx, hpattern] using matched?_eq_searched
        (by simpa [pattern] using like_likePattern function needle.toList) hvalue .postgres
    | sqlite =>
      simpa [matching, Test.truth?, hx, hpattern] using matched?_eq_searched
        (by simpa [pattern] using glob_globPattern function needle.toList) hvalue .sqlite

theorem truth?_compareLayout_refused (hread : f.RefusedBy d) (operator : Comparison) (operand : Operand) :
    (Condition.leaf (compareLayout d f operator operand (d.mark index))).truth? d row arguments before = none := by
  have hvalue := fun harray => Field.reads_none hread harray
  obtain ⟨path, hpath, hnone⟩ := hread
  unfold compareLayout Field.columnLayout
  cases hsource : f.source with
  | column => simp [hsource, Field.Source.path?] at hpath
  | statusFlag => simp [hsource, Field.Source.path?] at hpath
  | jsonArray column steps =>
    obtain rfl : steps = path := by simpa [hsource, Field.Source.path?] using hpath
    obtain ⟨hcontains, hlacks⟩ := test?_containsLayout d f.table column steps index
    rw [hnone] at hcontains hlacks
    dsimp only [Field.Source.columnName]
    split
    · rw [Condition.truth?, hlacks]
      rfl
    · rw [Condition.truth?, hcontains]
      rfl
  | jsonScalar column steps =>
    have hreads := hvalue (by rw [hsource]; rfl)
    dsimp only
    rw [Condition.truth?]
    split
    · rw [hreads.collated operator index]
      rfl
    · rw [hreads.compared operator index]
      rfl

theorem truth?_searchLayout_refused (hread : f.RefusedBy d) (harray : f.source.isArray = false) :
    (Condition.leaf (searchLayout d f (d.mark index))).truth? d row arguments before = none := by
  rw [Condition.truth?, searchLayout, (Field.reads_none hread harray).matched]
  rfl

end Leaves

end Sql

end FilterSql
