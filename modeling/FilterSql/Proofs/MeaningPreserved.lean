import FilterSql.Proofs.LeafMeaning
import FilterSql.Proofs.ReadBack

/-! The SQL of a filter says of every row what the filter says of it, as far as the database reads the paths of the
catalog as they are. Where it reads a null in one, nothing is found, and where it refuses one, it refuses the SQL.
Arguments are handed out along the tree: the right operand of a connective takes those behind the ones of the left
operand, and has as many anonymous placeholders before it. -/
namespace FilterSql

open Sql Nested

/-! A leaf has one placeholder, which is anonymous unless the dialect numbers them. -/

def Dialect.anonymous : Dialect → Nat
  | postgres => 0
  | mysql => 1
  | sqlite => 1

namespace Sql

variable {d : Dialect}

@[simp] theorem Nested.anonymous_done : done.anonymous d = 0 := rfl

@[simp] theorem Nested.anonymous_word (w : String) (t : Nested) :
    (part (.word w) t).anonymous d = t.anonymous d := by
  have hword : (Part.word w).placeholder? d ≠ some .anonymous := by
    unfold Part.placeholder?
    dsimp only
    split
    · split <;> simp
    · simp
  rw [anonymous, if_neg hword, Nat.zero_add]

@[simp] theorem Nested.anonymous_quoted (q : Char) (body : String) (t : Nested) :
    (part (.quoted q body) t).anonymous d = t.anonymous d := by
  simp [anonymous, Part.placeholder?]

@[simp] theorem Nested.anonymous_sign (c : Char) (t : Nested) :
    (part (.sign c) t).anonymous d = (if d ≠ .postgres ∧ c = '?' then 1 else 0) + t.anonymous d := by
  simp [anonymous, Part.placeholder?]

@[simp] theorem Nested.anonymous_group (inside next : Nested) :
    (group inside next).anonymous d = inside.anonymous d + next.anonymous d := rfl

@[simp] theorem Nested.anonymous_append (s t : Nested) :
    (s ++ t).anonymous d = s.anonymous d + t.anonymous d := by
  induction s with
  | done => simp
  | part p next ih => simp [anonymous, ih, Nat.add_assoc]
  | group inside next _ ih => simp [ih, Nat.add_assoc]

@[simp] theorem anonymous_mark (d : Dialect) (index : Nat) (t : Nested) :
    (Nested.part (d.mark index) t).anonymous d = d.anonymous + t.anonymous d := by
  cases d <;> simp [Dialect.mark, Dialect.anonymous]

@[simp] theorem anonymous_columnLayout (d : Dialect) (table column : String) :
    (d.columnLayout table column).anonymous d = 0 := by
  simp [Dialect.columnLayout]

@[simp] theorem anonymous_collated (d : Dialect) (value : Nested) :
    (d.collated value).anonymous d = value.anonymous d := by
  cases d <;> simp [Dialect.collated, words]

theorem anonymous_scalarLayout (d : Dialect) {column : Nested} (h : column.anonymous d = 0)
    (path : List String) (type : FieldType) : (d.scalarLayout column path type).anonymous d = 0 := by
  unfold Dialect.scalarLayout
  cases d with
  | postgres =>
    cases type with
    | number width => cases width <;> simp [castTo, call, enclosed, words, signs, Dialect.pathLayout, h]
    | _ => simp [castTo, call, enclosed, words, signs, Dialect.pathLayout, h]
  | mysql => cases type <;> simp [call, enclosed, words, signs, Dialect.pathLayout, h]
  | sqlite => cases type <;> simp [call, enclosed, words, signs, Dialect.pathLayout, h]

@[simp] theorem anonymous_valueLayout (f : Field) (d : Dialect) : (f.valueLayout d).anonymous d = 0 := by
  unfold Field.valueLayout
  split
  · exact anonymous_scalarLayout d (anonymous_columnLayout d _ _) _ _
  · exact anonymous_columnLayout d _ _

@[simp] theorem anonymous_containsLayout (d : Dialect) (table column : String) (path : List String)
    (index : Nat) :
    (d.containsLayout (d.columnLayout table column) path (d.mark index)).anonymous d = d.anonymous := by
  unfold Dialect.containsLayout
  cases d <;> simp [castTo, call, enclosed, words, signs, Dialect.pathLayout]

theorem anonymous_compareLayout (d : Dialect) (f : Field) (operator : Comparison) (operand : Operand)
    (index : Nat) : (compareLayout d f operator operand (d.mark index)).anonymous d = d.anonymous := by
  have hsigns : ∀ operator : Comparison, (signs operator.sql).anonymous d = 0 := by
    intro operator
    cases operator <;> simp [Comparison.sql, signs]
  have hpolarity : ∀ holds : Bool, (signs (if holds then " = " else " <> ")).anonymous d = 0 := by
    intro holds
    cases holds <;> simp [signs]
  unfold compareLayout Field.columnLayout
  split
  · split <;> simp
  · simp [-beq_iff_eq, hpolarity]
  · split <;> simp [hsigns]

theorem anonymous_searchLayout (d : Dialect) (f : Field) (index : Nat) :
    (searchLayout d f (d.mark index)).anonymous d = d.anonymous := by
  unfold searchLayout Dialect.matchesLayout
  cases d <;> simp [Dialect.likeLayout, words]

end Sql

namespace Predicate

theorem anonymous_reading (t : Predicate Operand) (d : Dialect) (index : Nat) :
    (t.reading d index).anonymous d = d.anonymous * t.fields.length := by
  induction t generalizing index with
  | and left right ihl ihr | or left right ihl ihr =>
    simp [reading, Condition.anonymous, ihl, ihr, fields, Nat.mul_add]
  | not operand ih => exact ih index
  | compare f operator operand span => simp [reading, Condition.anonymous, anonymous_compareLayout, fields]
  | search f function operand span => simp [reading, Condition.anonymous, anonymous_searchLayout, fields]

section Arguments

variable {left : Predicate Operand} {d : Dialect} {index before : Nat} {arguments rest : List Value}

theorem drop_arguments (h : arguments.drop index = values (left.pieces d) ++ rest) :
    arguments.drop (index + left.fields.length) = rest := by
  rw [← List.drop_drop, h, ← values_pieces_length left d, List.drop_left]

theorem before_right (h : d ≠ .postgres → before = index) :
    d ≠ .postgres → before + (left.reading d index).anonymous d = index + left.fields.length := by
  intro hd
  rw [anonymous_reading, h hd]
  cases d with
  | postgres => exact absurd rfl hd
  | mysql => rw [Dialect.anonymous, Nat.one_mul]
  | sqlite => rw [Dialect.anonymous, Nat.one_mul]

theorem argument?_of_drop {parameter : Value} (hbefore : d ≠ .postgres → before = index)
    (h : arguments.drop index = parameter :: rest) :
    (slot d index).argument? arguments before = some parameter.scalar := by
  rw [argument?_slot hbefore, ← List.head?_drop, h]
  rfl

end Arguments

/-- A typed predicate says in SQL what it says of the row as the database sees it, if no path is refused. -/
theorem truth?_reading {t : Predicate Operand} {d : Dialect} {row : Row}
    (hfields : ∀ f ∈ t.fields, f.Regular ∧ ¬f.RefusedBy d ∧ row.Suits f) {v : Truth}
    (htruth : t.truth? d (row.seenBy d) = some v) {arguments rest : List Value} {index before : Nat}
    (hbefore : d ≠ .postgres → before = index)
    (harguments : arguments.drop index = values (t.pieces d) ++ rest) :
    (t.reading d index).truth? d row arguments before = some v := by
  induction t generalizing index before rest v with
  | and left right ihl ihr | or left right ihl ihr =>
    obtain ⟨l, hl, htruth⟩ := Option.bind_eq_some_iff.mp htruth
    obtain ⟨r, hr, hv⟩ := Option.bind_eq_some_iff.mp htruth
    cases hv
    have hleft : arguments.drop index = values (left.pieces d) ++ (values (right.pieces d) ++ rest) := by
      simpa [pieces, values] using harguments
    have hl := ihl (fun f hf => hfields f (List.mem_append_left _ hf)) hl hbefore hleft
    have hr := ihr (fun f hf => hfields f (List.mem_append_right _ hf)) hr (before_right hbefore)
      (drop_arguments hleft)
    rw [reading, Condition.truth?, hl, hr]
    rfl
  | not operand ih =>
    obtain ⟨u, hu, rfl⟩ := Option.map_eq_some_iff.mp htruth
    rw [reading, Condition.truth?, ih hfields hu hbefore (by simpa [pieces, values] using harguments)]
    rfl
  | compare f operator operand span =>
    obtain ⟨hf, hread, hrow⟩ := hfields f (by simp [fields])
    exact truth?_compareLayout hf hread hrow htruth (argument?_of_drop hbefore harguments)
  | search f function operand span =>
    obtain ⟨hf, hread, hrow⟩ := hfields f (by simp [fields])
    exact truth?_searchLayout hf hread hrow htruth (argument?_of_drop hbefore harguments)

/-- One path that is refused is enough for the whole predicate not to be read. -/
theorem truth?_reading_refused {t : Predicate Operand} {d : Dialect} {row seen : Row} {v : Truth}
    (htruth : t.truth? d seen = some v) (hread : ∃ f ∈ t.fields, f.RefusedBy d) (arguments : List Value)
    (index before : Nat) : (t.reading d index).truth? d row arguments before = none := by
  induction t generalizing index before v with
  | and left right ihl ihr | or left right ihl ihr =>
    obtain ⟨l, hl, htruth⟩ := Option.bind_eq_some_iff.mp htruth
    obtain ⟨r, hr, -⟩ := Option.bind_eq_some_iff.mp htruth
    obtain ⟨f, hf, hrefused⟩ := hread
    rw [reading, Condition.truth?]
    rcases List.mem_append.mp hf with hf | hf
    · rw [ihl hl ⟨f, hf, hrefused⟩]
      rfl
    · simp [ihr hr ⟨f, hf, hrefused⟩]
  | not operand ih =>
    obtain ⟨u, hu, -⟩ := Option.map_eq_some_iff.mp htruth
    rw [reading, Condition.truth?, ih hu hread]
    rfl
  | compare f operator operand span =>
    obtain ⟨g, hg, hrefused⟩ := hread
    cases List.mem_singleton.mp hg
    exact truth?_compareLayout_refused hrefused operator operand
  | search f function operand span =>
    obtain ⟨g, hg, hrefused⟩ := hread
    cases List.mem_singleton.mp hg
    rw [truth?, searchTruth?] at htruth
    split at htruth
    case isTrue htext => exact truth?_searchLayout_refused hrefused htext.2
    case isFalse => cases htruth

theorem fields_of_check {p : Predicate Literal} {t : Predicate Operand} (h : p.check = .ok t) :
    t.fields = p.fields := by
  induction p generalizing t with
  | and left right ihl ihr | or left right ihl ihr =>
    obtain ⟨l, hl, h⟩ := bind_eq_ok.mp h
    obtain ⟨r, hr, h⟩ := bind_eq_ok.mp h
    cases h
    rw [fields, ihl hl, ihr hr, fields]
  | not operand ih =>
    obtain ⟨u, hu, h⟩ := bind_eq_ok.mp h
    cases h
    rw [fields, ih hu, fields]
  | compare f operator literal span =>
    obtain ⟨_, -, h⟩ := bind_eq_ok.mp h
    obtain ⟨operand, -, h⟩ := bind_eq_ok.mp h
    cases h
    rfl
  | search f function literal span =>
    obtain ⟨operand, -, h⟩ := bind_eq_ok.mp h
    cases h
    rfl

theorem truth?_textFrom {t : Predicate Operand} (h : ∀ f ∈ t.fields, f.Quotable ∧ f.overrides = [])
    (d : Dialect) (row : Row) (arguments : List Value) (index before : Nat) :
    Sql.truth? d row arguments before (textFrom d index (t.pieces d)) =
      (t.reading d index).truth? d row arguments before := by
  have hneat := neat_layout (fun f hf => (h f hf).1) d index
  obtain ⟨hcut, hnegated⟩ := negated?_layout t d index
  rw [Sql.truth?, ← text_layout (fun f hf => (h f hf).2) d index, nested?_text hneat.written,
    Option.bind_some, Nested.condition, condition_uncut hcut, factor, hnegated]
  rfl

theorem truth?_seenBy {t : Predicate Operand} {d : Dialect} (h : ∀ f ∈ t.fields, f.KeptBy d) (row : Row) :
    t.truth? d (row.seenBy d) = t.truth? d row := by
  induction t with
  | and left right ihl ihr | or left right ihl ihr =>
    rw [truth?, truth?, ihl fun f hf => h f (List.mem_append_left _ hf),
      ihr fun f hf => h f (List.mem_append_right _ hf)]
  | not operand ih => rw [truth?, truth?, ih h]
  | compare f operator operand span =>
    have hkept := h f (by simp [fields])
    unfold truth? compareTruth? Field.scalar
    cases hsource : f.source with
    | jsonScalar column path =>
      have hpath : ∀ s ∈ path, d.Keeps s := hkept path (by rw [hsource]; rfl)
      simp [Row.seenBy, if_pos hpath]
    | jsonArray column path =>
      have hpath : ∀ s ∈ path, d.Keeps s := hkept path (by rw [hsource]; rfl)
      simp [Row.seenBy, Row.texts, if_pos hpath]
    | _ => rfl
  | search f function operand span =>
    have hkept := h f (by simp [fields])
    unfold truth? searchTruth? Field.scalar
    cases hsource : f.source with
    | jsonScalar column path =>
      have hpath : ∀ s ∈ path, d.Keeps s := hkept path (by rw [hsource]; rfl)
      simp [Row.seenBy, if_pos hpath]
    | _ => rfl

/-! A field with a path that is not kept has a test that a row meets, but not the row that the database sees. -/

theorem exists_literal_of_check {p : Predicate Literal} {t : Predicate Operand} (hcheck : p.check = .ok t)
    {d : Dialect} {row : Row} {v : Truth} (htruth : t.truth? d row = some v) :
    ∀ f ∈ t.fields, ∃ literal span operand, coerce f literal span = .ok operand := by
  induction p generalizing t v with
  | and left right ihl ihr | or left right ihl ihr =>
    obtain ⟨l, hl, hcheck⟩ := bind_eq_ok.mp hcheck
    obtain ⟨r, hr, hcheck⟩ := bind_eq_ok.mp hcheck
    cases hcheck
    obtain ⟨u, hu, htruth⟩ := Option.bind_eq_some_iff.mp htruth
    obtain ⟨w, hw, -⟩ := Option.bind_eq_some_iff.mp htruth
    intro f hf
    rcases List.mem_append.mp hf with hf | hf
    · exact ihl hl hu f hf
    · exact ihr hr hw f hf
  | not operand ih =>
    obtain ⟨u, hu, hcheck⟩ := bind_eq_ok.mp hcheck
    cases hcheck
    obtain ⟨w, hw, -⟩ := Option.map_eq_some_iff.mp htruth
    exact fun f hf => ih hu hw f hf
  | compare g operator literal span =>
    obtain ⟨_, -, hcheck⟩ := bind_eq_ok.mp hcheck
    obtain ⟨operand, hoperand, hcheck⟩ := bind_eq_ok.mp hcheck
    cases hcheck
    intro f hf
    cases List.mem_singleton.mp hf
    exact ⟨literal, span, operand, hoperand⟩
  | search g function literal span =>
    obtain ⟨operand, -, hcheck⟩ := bind_eq_ok.mp hcheck
    cases hcheck
    intro f hf
    cases List.mem_singleton.mp hf
    rw [truth?, searchTruth?] at htruth
    split at htruth
    case isTrue htext => exact ⟨.text "", span, .text "", by simp [coerce, htext.1]⟩
    case isFalse => cases htruth

/-- A field that is tested for a literal at all has a literal that is equal to itself, and is not false. -/
theorem exists_probe {f : Field} (h : ∃ literal span operand, coerce f literal span = .ok operand) (d : Dialect) :
    ∃ literal span operand, coerce f literal span = .ok operand ∧
      (operand.scalar d).order? (operand.scalar d) = some .eq ∧ f.type.admits (operand.scalar d) = true ∧
      (f.type = .boolean → operand = .boolean true) := by
  obtain ⟨literal, span, operand, hoperand⟩ := h
  unfold coerce at hoperand ⊢
  cases htype : f.type with
  | text => exact ⟨.text "", span, .text "", rfl, by cases d <;> rfl, rfl, nofun⟩
  | boolean => exact ⟨.boolean true, span, .boolean true, rfl, by cases d <;> rfl, rfl, fun _ => rfl⟩
  | timestamp => exact ⟨.integer 0, span, .timestamp 0, rfl, by cases d <;> rfl, rfl, nofun⟩
  | number width =>
    cases width with
    | int32 => exact ⟨.integer 0, span, .int32 0, rfl, by cases d <;> rfl, rfl, nofun⟩
    | int64 => exact ⟨.integer 0, span, .int64 0, rfl, by cases d <;> rfl, rfl, nofun⟩
    | float64 => exact ⟨.integer 0, span, .float (.ofInt 0), rfl, by cases d <;> decide, rfl, nofun⟩
  | enum type =>
    rw [htype] at hoperand
    cases literal with
    | text s =>
      refine ⟨.text s, span, operand, hoperand, ?_, ?_, nofun⟩
      all_goals
        dsimp only at hoperand
        split at hoperand
        case h_1 variant _ =>
          cases hoperand
          simp [Operand.scalar, Scalar.order?, FieldType.admits]
        case h_2 => cases hoperand
    | _ => cases hoperand

def filled (v : Scalar) : Row where
  column _ _ := none
  scalar _ _ _ := some v
  array _ _ _ := match v with
    | .text s => some [s]
    | _ => none

section Filled

variable {f : Field} {path : List String} {d : Dialect} {operand : Operand}

theorem suits_filled (hpath : f.source.path? = some path) {v : Scalar} (h : f.type.admits v = true) :
    (filled v).Suits f := by
  unfold Row.Suits
  cases hsource : f.source with
  | jsonScalar => intro w hw; cases hw; exact h
  | jsonArray => exact fun _ => trivial
  | _ => simp [hsource, Field.Source.path?] at hpath

theorem compareTruth?_filled (hf : f.Regular) (hpath : f.source.path? = some path)
    (htype : operand.hasType f.type = true) (hself : (operand.scalar d).order? (operand.scalar d) = some .eq) :
    compareTruth? d (filled (operand.scalar d)) f .equal operand = some (some true) := by
  have hordering : (!Comparison.isOrdering .equal || f.type.isOrdered) = true := rfl
  unfold compareTruth? Field.scalar
  rw [htype, hordering]
  cases hsource : f.source with
  | jsonScalar column steps =>
    have hvalue : ∀ b : Prop, [Decidable b] → (if b then some (((filled (operand.scalar d)).scalar f.table column
        steps).getD (.boolean false)) else (filled (operand.scalar d)).scalar f.table column steps) =
        some (operand.scalar d) := by
      intro b _
      split <;> rfl
    simp [hvalue, Scalar.compared, hself, Comparison.accepts]
  | jsonArray column steps =>
    rw [hf.array (by rw [hsource]; rfl)] at htype
    cases operand with
    | text s => simp [Operand.text?, Row.texts, filled, Operand.scalar, Comparison.member?]
    | _ => cases htype
  | _ => simp [hsource, Field.Source.path?] at hpath

theorem compareTruth?_seenBy_ne (hpath : f.source.path? = some path) (hlost : ¬∀ s ∈ path, d.Keeps s)
    (hboolean : f.type = .boolean → operand = .boolean true) (row : Row) :
    compareTruth? d (row.seenBy d) f .equal operand ≠ some (some true) := by
  unfold compareTruth? Field.scalar
  split
  case isFalse => nofun
  case isTrue =>
    cases hsource : f.source with
    | jsonScalar column steps =>
      obtain rfl : steps = path := by simpa [hsource, Field.Source.path?] using hpath
      by_cases htype : f.type = .boolean
      · rw [hboolean htype]
        simp [htype, Row.seenBy, if_neg hlost, Scalar.compared, Operand.scalar, Scalar.order?, Comparison.accepts]
      · simp [htype, Row.seenBy, if_neg hlost, Scalar.compared]
    | jsonArray column steps =>
      obtain rfl : steps = path := by simpa [hsource, Field.Source.path?] using hpath
      cases operand.text? <;> simp [Row.texts, Row.seenBy, if_neg hlost, Comparison.member?]
    | _ => simp [hsource, Field.Source.path?] at hpath

end Filled

/-- Whether the SQL of a predicate says what the expression says of every row that holds values of the types that
the fields are declared with, wherever it stands among the parameters of a statement. -/
def PreservesTruth (catalog : Catalog) (d : Dialect) (e : Expr) (t : Predicate Operand) : Prop :=
  ∀ row : Row, (∀ f ∈ t.fields, row.Suits f) → ∃ v, e.truth? catalog d row = some v ∧
    ∀ before after : List Value, before.length + t.fields.length ≤ maxPlaceholder →
      ∃ fragment parameters, t.render d before.length = some (fragment, parameters) ∧
        Sql.truth? d row (before ++ parameters ++ after) before.length fragment = some v

section Rendered

variable {entity : Entity} {table : String} {version : Nat} {fields : List Field} {catalog : Catalog}
  (hmade : ∀ f ∈ fields, f.Made) (hbuild : Catalog.build entity table version fields = .ok catalog)
  {e : Expr} {p : Predicate Literal} {t : Predicate Operand} (hbind : bind catalog e = .ok p)
  (hcheck : p.check = .ok t)

include hbind hcheck in
theorem mem_of_bind_check : ∀ f ∈ t.fields, f ∈ catalog.fields := by
  obtain ⟨-, -, hexpr⟩ := bind_eq_ok.mp hbind
  rw [fields_of_check hcheck]
  exact (follows_bindExpr hexpr).1

include hmade hbuild hbind hcheck

theorem truth?_bind_check (d : Dialect) (row : Row) :
    ∃ v, e.truth? catalog d row = some v ∧ t.truth? d row = some v := by
  obtain ⟨-, -, hexpr⟩ := bind_eq_ok.mp hbind
  exact truth?_bindExpr (Catalog.regular_of_build hmade hbuild) hexpr hcheck d row

/-- What the SQL of an expression says. -/
theorem truth?_render (d : Dialect) {row : Row} (hrow : ∀ f ∈ t.fields, row.Suits f) :
    ∃ v, e.truth? catalog d (row.seenBy d) = some v ∧
      ∀ before after : List Value, before.length + t.fields.length ≤ maxPlaceholder →
        ∃ fragment parameters, t.render d before.length = some (fragment, parameters) ∧
          Sql.truth? d row (before ++ parameters ++ after) before.length fragment =
            if d = .mysql ∧ ∃ f ∈ t.fields, ¬f.KeptBy d then none else some v := by
  have hmem := mem_of_bind_check hbind hcheck
  have hregular : ∀ f ∈ t.fields, f.Regular := fun f hf => Catalog.regular_of_build hmade hbuild f (hmem f hf)
  obtain ⟨v, hv, htruth⟩ := truth?_bind_check hmade hbuild hbind hcheck d (row.seenBy d)
  refine ⟨v, hv, fun before after hroom => ⟨_, _, by rw [render_eq, if_pos hroom], ?_⟩⟩
  have hplain : ∀ f ∈ t.fields, f.Quotable ∧ f.overrides = [] := fun f hf =>
    ⟨Field.quotable_of_build hbuild (hmem f hf), (hregular f hf).overrides⟩
  rw [truth?_textFrom hplain]
  split
  case isTrue hlost =>
    obtain ⟨hd, f, hf, hkept⟩ := hlost
    exact truth?_reading_refused htruth ⟨f, hf, (hregular f hf).refusedBy_iff.mpr ⟨hd, hkept⟩⟩ ..
  case isFalse hread =>
    have harguments : (before ++ values (t.pieces d) ++ after).drop before.length =
        values (t.pieces d) ++ after := by
      rw [List.append_assoc, List.drop_left]
    refine truth?_reading (fun f hf => ⟨hregular f hf, fun hrefused => hread ?_, hrow f hf⟩) htruth
      (fun _ => rfl) harguments
    obtain ⟨hd, hkept⟩ := (hregular f hf).refusedBy_iff.mp hrefused
    exact ⟨hd, f, hf, hkept⟩

theorem preservesTruth_of_kept {d : Dialect} (hkept : ∀ f ∈ t.fields, f.KeptBy d) : PreservesTruth catalog d e t := by
  intro row hrow
  obtain ⟨v, hv, hsql⟩ := truth?_render hmade hbuild hbind hcheck d hrow
  obtain ⟨w, hw, htruth⟩ := truth?_bind_check hmade hbuild hbind hcheck d row
  obtain ⟨_, hseen, htruth'⟩ := truth?_bind_check hmade hbuild hbind hcheck d (row.seenBy d)
  rw [truth?_seenBy hkept, htruth] at htruth'
  cases htruth'
  cases hseen.symm.trans hv
  refine ⟨v, hw, fun before after hroom => ?_⟩
  obtain ⟨fragment, parameters, hrender, hfragment⟩ := hsql before after hroom
  rw [if_neg fun ⟨_, f, hf, hlost⟩ => hlost (hkept f hf)] at hfragment
  exact ⟨fragment, parameters, hrender, hfragment⟩

/-- A test of a field whose path is not kept is lost. -/
theorem exists_not_preservesTruth {d : Dialect} {f : Field} (hf : f ∈ t.fields) (hlost : ¬f.KeptBy d) :
    ∃ e' p' t', bind catalog e' = .ok p' ∧ p'.check = .ok t' ∧ t'.fields = [f] ∧
      ¬PreservesTruth catalog d e' t' := by
  have hmem := mem_of_bind_check hbind hcheck f hf
  have hregular := Catalog.regular_of_build hmade hbuild f hmem
  simp only [Field.KeptBy, not_forall] at hlost
  obtain ⟨path, hpath, s, hs, hkeeps⟩ := hlost
  have hlost : ¬∀ s ∈ path, d.Keeps s := fun hall => hkeeps (hall s hs)
  obtain ⟨_, -, htruth⟩ := truth?_bind_check hmade hbuild hbind hcheck d (filled (.boolean true))
  obtain ⟨literal, span, operand, hoperand, hself, hadmits, hboolean⟩ :=
    exists_probe (exists_literal_of_check hcheck htruth f hf) d
  let probe : Expr := .compare .equal (.field (Path.ofText f.name) default) (.literal literal span) default
  have hlookup : catalog.lookup (Path.ofText f.name).text = some f := by
    rw [Path.text_ofText, Catalog.lookup_of_build hbuild hmem]
  have hprobe : bind catalog probe = .ok (.compare f .equal literal span) := by
    simp [probe, bind, checkNames, Expr.names, unknown, hlookup, bindExpr, bindComparison, resolveOperand, resolve,
      literalOperand, Except.map, Expr.span, Except.bind, Bind.bind]
  have hchecked : (Predicate.compare f .equal literal span).check = .ok (.compare f .equal operand span) := by
    simp [check, checkOperator, Comparison.isOrdering, hoperand, Bind.bind, Except.bind]
  refine ⟨probe, _, _, hprobe, hchecked, rfl, fun hpreserved => ?_⟩
  -- The row meets the test, and the row that the database sees does not.
  let row := filled (operand.scalar d)
  have hrow : ∀ g ∈ (Predicate.compare f .equal operand span).fields, row.Suits g :=
    List.forall_mem_singleton.mpr (suits_filled hpath hadmits)
  obtain ⟨v, hv, hpreserved⟩ := hpreserved row hrow
  obtain ⟨w, hw, hrendered⟩ := truth?_render hmade hbuild hprobe hchecked d hrow
  obtain ⟨v', hv', hmeets⟩ := truth?_bind_check hmade hbuild hprobe hchecked d row
  obtain ⟨w', hw', hmisses⟩ := truth?_bind_check hmade hbuild hprobe hchecked d (row.seenBy d)
  cases hv.symm.trans hv'
  cases hw.symm.trans hw'
  have hroom : ([] : List Value).length + (Predicate.compare f .equal operand span).fields.length ≤
      maxPlaceholder := (by decide : 0 + 1 ≤ maxPlaceholder)
  obtain ⟨fragment, parameters, hrender, hsql⟩ := hpreserved [] [] hroom
  obtain ⟨_, _, hrender', hseen⟩ := hrendered [] [] hroom
  cases hrender.symm.trans hrender'
  rw [hsql] at hseen
  have htype : operand.hasType f.type = true := (coerce_scalar hoperand d).1
  have hmeets' : (Predicate.compare f .equal operand span).truth? d row = some (some true) :=
    compareTruth?_filled hregular hpath htype hself
  cases hmeets.symm.trans hmeets'
  split at hseen
  case isTrue => cases hseen
  case isFalse =>
    cases hseen
    exact compareTruth?_seenBy_ne hpath hlost hboolean row hmisses

/-- Over a catalog of fields as the constructors make them, an expression that is bound and checked is true,
false or unknown of a row, and its SQL says of the row what the expression says of the row as the database sees it,
but MySQL refuses SQL with a path that it does not keep. So the expressions over these fields keep their truth
exactly if the database keeps every segment of their paths. -/
theorem render_preserves_truth_iff (d : Dialect) :
    (∀ row : Row, (∀ f ∈ t.fields, row.Suits f) → ∃ v, e.truth? catalog d (row.seenBy d) = some v ∧
      ∀ before after : List Value, before.length + t.fields.length ≤ maxPlaceholder →
        ∃ fragment parameters, t.render d before.length = some (fragment, parameters) ∧
          Sql.truth? d row (before ++ parameters ++ after) before.length fragment =
            if d = .mysql ∧ ∃ f ∈ t.fields, ¬f.KeptBy d then none else some v) ∧
    ((∀ f ∈ t.fields, f.KeptBy d) ↔
      ∀ e' p' t', bind catalog e' = .ok p' → p'.check = .ok t' → (∀ f ∈ t'.fields, f ∈ t.fields) →
        PreservesTruth catalog d e' t') := by
  refine ⟨fun row hrow => truth?_render hmade hbuild hbind hcheck d hrow, ?_, ?_⟩
  · intro hkept e' p' t' hbind' hcheck' hsame
    exact preservesTruth_of_kept hmade hbuild hbind' hcheck' fun f hf => hkept f (hsame f hf)
  · intro hall f hf
    by_contra hlost
    obtain ⟨e', p', t', hbind', hcheck', hfields, hnot⟩ :=
      exists_not_preservesTruth hmade hbuild hbind hcheck hf hlost
    refine hnot (hall e' p' t' hbind' hcheck' ?_)
    rw [hfields]
    exact List.forall_mem_singleton.mpr hf

end Rendered

def taskFields : List Field :=
  [.ofColumn "state" (.enum (((EnumType.mk "State" []).variant "done").storedFor .mysql "D")) "state",
   .ofStatusFlag "archived" "row_status" "ARCHIVED",
   .ofJson "link" .boolean "payload" ["property", "hasLink"],
   .ofJsonArray "tag" "payload" ["tags"],
   .ofColumn "size" (.number .int32) "size",
   .withFunctions (.ofColumn "title" .text "title") [.contains]]

def taskCatalog : Catalog := .of .note "task" 1 (taskFields.map fun f => { f with table := "task" })

def task : Row where
  column _ name :=
    if name = "state" then some (.text "D")
    else if name = "size" then some (.integer 5)
    else if name = "title" then some (.text "100% done")
    else none
  scalar _ _ _ := none
  array _ _ _ := some ["a", "b"]

/-- `"done" == state && !(archived == false) && !link && !(tag != "b") && 3 < size &&
contains(title, "0%")` -/
def taskFilter : Expr :=
  let field name := Expr.field ⟨[name]⟩ default
  let text s := Expr.literal (.text s) default
  let and l r := Expr.connect .and l r default
  let archived := .compare .equal (field "archived") (.literal (.boolean false) default) default
  and (and (and (and (and (.compare .equal (text "done") (field "state") default) (.not archived default))
    (.not (field "link") default)) (.not (.compare .notEqual (field "tag") (text "b") default) default))
    (.compare .less (.literal (.integer 3) default) (field "size") default))
    (.call "contains" [field "title", text "0%"] default)

def taskPredicate (state archived link tag size title : α) : Predicate α :=
  let field name := (taskCatalog.lookup name).getD default
  and (and (and (and (and (compare (field "state") .equal state default)
    (not (compare (field "archived") .equal archived default)))
    (not (compare (field "link") .equal link default))) (not (compare (field "tag") .notEqual tag default)))
    (compare (field "size") .greater size default)) (search (field "title") .contains title default)

theorem render_preserves_truth_iff_task :
    let t := taskPredicate (.enum ⟨"done", "done", [(.mysql, "D")]⟩) (.boolean false) (.boolean true)
      (.text "b") (.int32 3) (.text "0%")
    let fragment := "((((((`task`.`state` = ?) AND NOT (`task`.`row_status` <> ?)) AND " ++
      "NOT ((JSON_EXTRACT(`task`.`payload`, '$.property.hasLink') IS TRUE) = ?)) AND " ++
      "NOT (NOT COALESCE(JSON_CONTAINS(`task`.`payload`, JSON_QUOTE(?), '$.tags'), 0))) AND " ++
      "(`task`.`size` > ?)) AND (`task`.`title` COLLATE utf8mb4_bin LIKE ? ESCAPE '!'))"
    let parameters : List Value := [.text "D", .text "ARCHIVED", .int32 1, .text "b", .int32 3, .text "%0!%%"]
    t.render .mysql 1 = some (fragment, parameters) ∧
    taskFilter.truth? taskCatalog .mysql task = some none ∧
    Sql.truth? .mysql task ([.text "me"] ++ parameters ++ [.int64 10]) 1 fragment = some none := by
  intro t fragment parameters
  have hbuild : Catalog.build .note "task" 1 taskFields = .ok taskCatalog := rfl
  have hbind : bind taskCatalog taskFilter =
      .ok (taskPredicate (.text "done") (.boolean false) (.boolean true) (.text "b") (.integer 3)
        (.text "0%")) := rfl
  have hcheck : (taskPredicate (.text "done") (.boolean false) (.boolean true) (.text "b") (.integer 3)
      (.text "0%")).check = .ok t := rfl
  have htruth : taskFilter.truth? taskCatalog .mysql task = some none := by decide +kernel
  have hrender : t.render .mysql 1 = some (fragment, parameters) := by decide +kernel
  have hmade : ∀ f ∈ taskFields, f.Made := by
    simp only [taskFields, List.forall_mem_cons]
    exact ⟨.column .., .statusFlag .., .json .., .jsonArray .., .column .., .withFunctions _ (.column ..),
      by simp⟩
  have hrow : ∀ f ∈ t.fields, task.Suits f := by
    have hfields : t.fields = taskCatalog.fields := by decide +kernel
    rw [hfields]
    simp [taskCatalog, taskFields, Row.Suits, task, Field.ofColumn, Field.ofJson, Field.ofJsonArray,
      Field.ofStatusFlag, Field.withFunctions, FieldType.admits, Numeral.fitsInt32]
  have hkept : ∀ f ∈ t.fields, f.KeptBy .mysql := by decide +kernel
  obtain ⟨-, hiff⟩ := render_preserves_truth_iff hmade hbuild hbind hcheck .mysql
  obtain ⟨v, hv, hsql⟩ := hiff.mp hkept _ _ _ hbind hcheck (fun _ hf => hf) task hrow
  obtain ⟨_, _, hrender', hsql⟩ := hsql [.text "me"] [.int64 10] (by decide)
  cases hrender.symm.trans hrender'
  cases htruth.symm.trans hv
  exact ⟨hrender, htruth, hsql⟩

def lossy : Catalog :=
  .of .note "note" 1 [{ Field.ofJson "muted" .boolean "payload" ["null"] with table := "note" },
    { Field.ofJsonArray "label" "payload" ["2024"] with table := "note" }]

/-- PostgreSQL takes a note that is muted for one that is not, since `null` is no key there, and MySQL refuses the
key `2024`. -/
theorem render_loses_truth :
    Catalog.build .note "note" 1 lossy.fields = .ok lossy ∧
    (let muted := Expr.field ⟨["muted"]⟩ default
     let fragment := "((CAST((\"note\".\"payload\" #>> '\x7bnull\x7d') AS BOOLEAN) IS TRUE) = $1)"
     ∃ p t, bind lossy muted = .ok p ∧ p.check = .ok t ∧
       t.render .postgres 0 = some (fragment, [.boolean true]) ∧
       muted.truth? lossy .postgres (filled (.boolean true)) = some (some true) ∧
       Sql.truth? .postgres (filled (.boolean true)) [.boolean true] 0 fragment = some (some false)) ∧
    (let labelled := Expr.compare .equal (.field ⟨["label"]⟩ default) (.literal (.text "a") default) default
     let fragment := "(COALESCE(JSON_CONTAINS(`note`.`payload`, JSON_QUOTE(?), '$.2024'), 0))"
     ∃ p t, bind lossy labelled = .ok p ∧ p.check = .ok t ∧
       t.render .mysql 0 = some (fragment, [.text "a"]) ∧
       labelled.truth? lossy .mysql (filled (.text "a")) = some (some true) ∧
       Sql.truth? .mysql (filled (.text "a")) [.text "a"] 0 fragment = none) := by
  refine ⟨rfl, ⟨_, _, rfl, rfl, ?_, ?_, ?_⟩, ⟨_, _, rfl, rfl, ?_, ?_, ?_⟩⟩
  all_goals decide +kernel

end Predicate

end FilterSql
