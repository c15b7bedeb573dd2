import FilterSql.Proofs.Binding

/-! The typing rules of filters. They say which operand a literal is as a value of a type, which
expressions are conditions over a catalog, and how a predicate over literals becomes one over operands.
Binding and checking together accept exactly the conditions, and the predicates they give have all that
rendering relies on. -/
namespace FilterSql

inductive Literal.Denotes : FieldType → Literal → Operand → Prop where
  | text : Denotes .text (.text s) (.text s)
  | boolean : Denotes .boolean (.boolean b) (.boolean b)
  | int32 : -2147483648 ≤ n → n < 2147483648 → Denotes (.number .int32) (.integer n) (.int32 n)
  | int64 : Denotes (.number .int64) (.integer n) (.int64 n)
  | whole : Denotes (.number .float64) (.integer n) (.float (.ofInt n))
  | decimal : Denotes (.number .float64) (.decimal x) (.float x)
  | variant {type : EnumType} : v ∈ type.variants → Denotes (.enum type) (.text v.literal) (.enum v)
  | second : Denotes .timestamp (.integer n) (.timestamp n)
  | moment : Rfc3339.epochSecond s = .ok n → Denotes .timestamp (.text s) (.timestamp n)

/-- The operators that a type has: only numbers and points of time are ordered. -/
def Comparison.AppliesTo (operator : Comparison) (type : FieldType) : Prop :=
  operator.isOrdering = true → (∃ width, type = .number width) ∨ type = .timestamp

/-- The expressions that are conditions over a catalog. -/
inductive Expr.WellFormed (catalog : Catalog) : Expr → Prop where
  | connect : WellFormed catalog l → WellFormed catalog r → WellFormed catalog (.connect c l r s)
  | not : WellFormed catalog e → WellFormed catalog (.not e s)
  | field {f : Field} : catalog.lookup path.text = some f → f.type = .boolean →
      WellFormed catalog (.field path s)
  | compare {f : Field} : catalog.lookup path.text = some f → operator.AppliesTo f.type →
      Literal.Denotes f.type value operand →
      WellFormed catalog (.compare operator (.field path s₁) (.literal value s₂) s)
  | compareTurned {f : Field} : catalog.lookup path.text = some f → operator.AppliesTo f.type →
      Literal.Denotes f.type value operand →
      WellFormed catalog (.compare operator (.literal value s₁) (.field path s₂) s)
  | call {f : Field} {function : StringFunction} : catalog.lookup path.text = some f →
      function ∈ f.functions →
      WellFormed catalog (.call function.name [.field path s₁, .literal (.text needle) s₂] s)

/-- A field as the constructors make it, with any functions and any SQL of its own. -/
inductive Field.Declared : Field → Prop where
  | made : Made f → Declared f
  | withFunctions (functions : List StringFunction) : Declared f → Declared (f.withFunctions functions)
  | withOverride (d : Dialect) (sql : String) : Declared f → Declared (f.withOverride d sql)

namespace Predicate

/-- Two predicates of one shape, with the same fields, operators, functions and spans. Each operand of the
second is what the literal in its place is as a value of the field's type. -/
inductive Typed : Predicate Literal → Predicate Operand → Prop where
  | and : Typed p t → Typed q u → Typed (.and p q) (.and t u)
  | or : Typed p t → Typed q u → Typed (.or p q) (.or t u)
  | not : Typed p t → Typed (.not p) (.not t)
  | compare {f : Field} : operator.AppliesTo f.type → Literal.Denotes f.type value operand →
      Typed (.compare f operator value span) (.compare f operator operand span)
  | search (text : String) :
      Typed (.search f function (.text text) span) (.search f function (.text text) span)

/-- What rendering relies on: an array is asked only for a text that it holds or lacks, a flag only for
being true or false, and a search is one for a text, in a text that is no array and allows the function. -/
def Renderable : Predicate Operand → Prop
  | and left right => left.Renderable ∧ right.Renderable
  | or left right => left.Renderable ∧ right.Renderable
  | not operand => operand.Renderable
  | compare f operator operand _ =>
    match f.source with
    | .jsonArray .. => operator.isOrdering = false ∧ ∃ s, operand = .text s
    | .statusFlag .. => operator.isOrdering = false ∧ ∃ b, operand = .boolean b
    | _ => True
  | search f function operand _ =>
    function ∈ f.functions ∧ f.type = .text ∧ f.source.isArray = false ∧ ∃ s, operand = .text s

end Predicate

theorem Comparison.appliesTo_iff {operator : Comparison} {type : FieldType} :
    operator.AppliesTo type ↔ ¬ (operator.isOrdering = true ∧ type.isOrdered = false) := by
  unfold AppliesTo
  cases type <;> simp [FieldType.isOrdered]

theorem Comparison.appliesTo_flip {operator : Comparison} {type : FieldType} :
    operator.flip.AppliesTo type ↔ operator.AppliesTo type := by
  have hordering : operator.flip.isOrdering = operator.isOrdering := by cases operator <;> rfl
  unfold AppliesTo
  rw [hordering]

theorem Comparison.appliesTo_equal (type : FieldType) : equal.AppliesTo type := by
  intro hordering
  cases hordering

theorem Numeral.fitsInt32_iff {n : Int} : fitsInt32 n = true ↔ -2147483648 ≤ n ∧ n < 2147483648 := by
  simp only [fitsInt32, Bool.and_eq_true, decide_eq_true_eq]
  omega

namespace Predicate

variable {catalog : Catalog}

theorem checkOperator_eq_ok_iff {f : Field} {operator : Comparison} {span : Span} :
    checkOperator f operator span = .ok () ↔ operator.AppliesTo f.type := by
  rw [Comparison.appliesTo_iff]
  unfold checkOperator
  split
  case isTrue h =>
    constructor
    · intro hok
      cases hok
    · intro hnot
      exact absurd h hnot
  case isFalse h => exact ⟨fun _ => h, fun _ => rfl⟩

theorem denotes_of_coerce {f : Field} {literal : Literal} {span : Span} {operand : Operand}
    (h : coerce f literal span = .ok operand) : Literal.Denotes f.type literal operand := by
  unfold coerce at h
  split at h
  case h_1 htype => cases h; rw [htype]; exact .text
  case h_2 htype => cases h; rw [htype]; exact .boolean
  case h_3 n htype =>
    split at h
    case isTrue hfits =>
      cases h
      obtain ⟨hlow, hhigh⟩ := Numeral.fitsInt32_iff.mp hfits
      rw [htype]
      exact .int32 hlow hhigh
    case isFalse => cases h
  case h_4 htype => cases h; rw [htype]; exact .int64
  case h_5 htype => cases h; rw [htype]; exact .whole
  case h_6 htype => cases h; rw [htype]; exact .decimal
  case h_7 type s htype =>
    split at h
    case h_1 v hresolve =>
      cases h
      have hliteral : v.literal = s := by simpa using List.find?_some hresolve
      rw [htype, ← hliteral]
      exact .variant (List.mem_of_find?_eq_some hresolve)
    case h_2 => cases h
  case h_8 htype => cases h; rw [htype]; exact .second
  case h_9 s htype =>
    split at h
    case h_1 hsecond => cases h; rw [htype]; exact .moment hsecond
    case h_2 => cases h
  case h_10 => cases h

/-- A literal of a type is brought to it. Where two variants have one literal it is the first that is
meant, so the operand need not be the one given. -/
theorem coerce_of_denotes {f : Field} {literal : Literal} {operand : Operand}
    (h : Literal.Denotes f.type literal operand) (span : Span) :
    ∃ operand', coerce f literal span = .ok operand' := by
  unfold coerce
  generalize f.type = type at h
  cases h with
  | int32 hlow hhigh => exact ⟨_, if_pos (Numeral.fitsInt32_iff.mpr ⟨hlow, hhigh⟩)⟩
  | @variant v type hmem =>
    have hsome : (type.resolve? v.literal).isSome := by
      rw [EnumType.resolve?, List.find?_isSome]
      exact ⟨v, hmem, beq_self_eq_true _⟩
    obtain ⟨first, hfirst⟩ := Option.isSome_iff_exists.mp hsome
    exact ⟨.enum first, by simp only [hfirst]⟩
  | @moment s second hsecond => exact ⟨.timestamp second, by simp only [hsecond]⟩
  | _ => exact ⟨_, rfl⟩

theorem typed_of_check {p : Predicate Literal} {t : Predicate Operand} (h : p.check = .ok t) : Typed p t := by
  induction p generalizing t with
  | and left right ihl ihr =>
    obtain ⟨l, hl, h⟩ := bind_eq_ok.mp h
    obtain ⟨r, hr, h⟩ := bind_eq_ok.mp h
    cases h
    exact .and (ihl hl) (ihr hr)
  | or left right ihl ihr =>
    obtain ⟨l, hl, h⟩ := bind_eq_ok.mp h
    obtain ⟨r, hr, h⟩ := bind_eq_ok.mp h
    cases h
    exact .or (ihl hl) (ihr hr)
  | not operand ih =>
    obtain ⟨q, hq, h⟩ := bind_eq_ok.mp h
    cases h
    exact .not (ih hq)
  | compare f operator literal span =>
    obtain ⟨_, hoperator, h⟩ := bind_eq_ok.mp h
    obtain ⟨operand, hoperand, h⟩ := bind_eq_ok.mp h
    cases h
    exact .compare (checkOperator_eq_ok_iff.mp hoperator) (denotes_of_coerce hoperand)
  | search f function literal span =>
    obtain ⟨operand, hoperand, h⟩ := bind_eq_ok.mp h
    cases h
    cases literal with
    | text text =>
      cases hoperand
      exact .search text
    | _ => cases hoperand

theorem Typed.exists_check {p : Predicate Literal} {t : Predicate Operand} (h : Typed p t) :
    ∃ u, p.check = .ok u := by
  induction h with
  | and _ _ ihl ihr =>
    obtain ⟨l, hl⟩ := ihl
    obtain ⟨r, hr⟩ := ihr
    exact ⟨.and l r, bind_eq_ok.mpr ⟨l, hl, bind_eq_ok.mpr ⟨r, hr, rfl⟩⟩⟩
  | or _ _ ihl ihr =>
    obtain ⟨l, hl⟩ := ihl
    obtain ⟨r, hr⟩ := ihr
    exact ⟨.or l r, bind_eq_ok.mpr ⟨l, hl, bind_eq_ok.mpr ⟨r, hr, rfl⟩⟩⟩
  | not _ ih =>
    obtain ⟨q, hq⟩ := ih
    exact ⟨.not q, bind_eq_ok.mpr ⟨q, hq, rfl⟩⟩
  | @compare _ _ operator span f hoperator hvalue =>
    obtain ⟨operand', hoperand⟩ := coerce_of_denotes hvalue span
    refine ⟨.compare f operator operand' span, ?_⟩
    exact bind_eq_ok.mpr ⟨(), checkOperator_eq_ok_iff.mpr hoperator, bind_eq_ok.mpr ⟨operand', hoperand, rfl⟩⟩
  | search text => exact ⟨_, rfl⟩

theorem Bound.wellFormed {e : Expr} {p : Predicate Literal} {t : Predicate Operand} (hp : Bound catalog e p)
    (ht : Typed p t) : e.WellFormed catalog := by
  induction hp generalizing t with
  | and _ _ ihl ihr =>
    cases ht with
    | and hl hr => exact .connect (ihl hl) (ihr hr)
  | or _ _ ihl ihr =>
    cases ht with
    | or hl hr => exact .connect (ihl hl) (ihr hr)
  | not _ ih =>
    cases ht with
    | not h => exact .not (ih h)
  | field hlookup htype => exact .field hlookup htype
  | compare hlookup =>
    cases ht with
    | compare hoperator hvalue => exact .compare hlookup hoperator hvalue
  | compareTurned hlookup =>
    cases ht with
    | compare hoperator hvalue =>
      exact .compareTurned hlookup (Comparison.appliesTo_flip.mp hoperator) hvalue
  | call hlookup hfunction =>
    cases ht with
    | search text => exact .call hlookup hfunction

/-- A condition stands for a predicate whose literals are typed. -/
theorem bound_of_wellFormed {e : Expr} (h : e.WellFormed catalog) : ∃ p t, Bound catalog e p ∧ Typed p t := by
  induction h with
  | @connect l r c s _ _ ihl ihr =>
    obtain ⟨p, t, hp, ht⟩ := ihl
    obtain ⟨q, u, hq, hu⟩ := ihr
    cases c with
    | and => exact ⟨.and p q, .and t u, .and hp hq, .and ht hu⟩
    | or => exact ⟨.or p q, .or t u, .or hp hq, .or ht hu⟩
  | not _ ih =>
    obtain ⟨p, t, hp, ht⟩ := ih
    exact ⟨.not p, .not t, .not hp, .not ht⟩
  | @field path s f hlookup htype =>
    have hdenotes : Literal.Denotes f.type (.boolean true) (.boolean true) := by
      rw [htype]
      exact .boolean
    exact ⟨_, _, .field hlookup htype, .compare (Comparison.appliesTo_equal f.type) hdenotes⟩
  | compare hlookup hoperator hvalue => exact ⟨_, _, .compare hlookup, .compare hoperator hvalue⟩
  | compareTurned hlookup hoperator hvalue =>
    exact ⟨_, _, .compareTurned hlookup, .compare (Comparison.appliesTo_flip.mpr hoperator) hvalue⟩
  | call hlookup hfunction => exact ⟨_, _, .call hlookup hfunction, .search _⟩

end Predicate

theorem Field.Declared.regular {f : Field} (h : f.Declared) :
    (f.source.isArray = true → f.type = .text) ∧
      ∀ column value, f.source = .statusFlag column value → f.type = .boolean := by
  induction h with
  | made h => exact h.regular.2
  | withFunctions _ _ ih => exact ih
  | withOverride _ _ _ ih => exact ih

namespace Catalog

structure Sound (catalog : Catalog) : Prop where
  valid : ∀ f ∈ catalog.fields, f.Valid
  array : ∀ f ∈ catalog.fields, f.source.isArray = true → f.type = .text
  flag : ∀ f ∈ catalog.fields, ∀ column value, f.source = .statusFlag column value → f.type = .boolean

theorem sound_of_build {entity : Entity} {table : String} {version : Nat} {fields : List Field}
    {catalog : Catalog} (hdeclared : ∀ f ∈ fields, f.Declared)
    (h : build entity table version fields = .ok catalog) : catalog.Sound where
  valid f hf := ((valid_of_build h).2 f hf).2
  array g hg := by
    obtain ⟨f, hf, rfl⟩ := mem_of_build h g hg
    exact (hdeclared f hf).regular.1
  flag g hg := by
    obtain ⟨f, hf, rfl⟩ := mem_of_build h g hg
    exact (hdeclared f hf).regular.2

end Catalog

namespace Predicate

variable {catalog : Catalog}

theorem not_ordering {operator : Comparison} {type : FieldType} (h : operator.AppliesTo type)
    (htype : type = .text ∨ type = .boolean) : operator.isOrdering = false := by
  rw [Comparison.appliesTo_iff] at h
  rcases htype with rfl | rfl <;> simpa [FieldType.isOrdered] using h

theorem renderable_compare (hcatalog : catalog.Sound) {f : Field} (hf : f ∈ catalog.fields)
    {operator : Comparison} (hoperator : operator.AppliesTo f.type) {value : Literal} {operand : Operand}
    (hvalue : Literal.Denotes f.type value operand) (span : Span) :
    (compare f operator operand span).Renderable := by
  unfold Renderable
  split
  case h_1 column path hsource =>
    have htype : f.type = .text := hcatalog.array f hf (by rw [hsource]; rfl)
    refine ⟨not_ordering hoperator (.inl htype), ?_⟩
    rw [htype] at hvalue
    cases hvalue
    exact ⟨_, rfl⟩
  case h_2 column status hsource =>
    have htype : f.type = .boolean := hcatalog.flag f hf column status hsource
    refine ⟨not_ordering hoperator (.inr htype), ?_⟩
    rw [htype] at hvalue
    cases hvalue
    exact ⟨_, rfl⟩
  case h_3 => trivial

theorem Bound.renderable (hcatalog : catalog.Sound) {e : Expr} {p : Predicate Literal}
    {t : Predicate Operand} (hp : Bound catalog e p) (ht : Typed p t) : t.Renderable := by
  induction hp generalizing t with
  | and _ _ ihl ihr =>
    cases ht with
    | and hl hr => exact ⟨ihl hl, ihr hr⟩
  | or _ _ ihl ihr =>
    cases ht with
    | or hl hr => exact ⟨ihl hl, ihr hr⟩
  | not _ ih =>
    cases ht with
    | not h =>
      have hoperand := ih h
      exact hoperand
  | field hlookup =>
    cases ht with
    | compare hoperator hvalue => exact renderable_compare hcatalog (lookup_mem hlookup) hoperator hvalue _
  | compare hlookup =>
    cases ht with
    | compare hoperator hvalue => exact renderable_compare hcatalog (lookup_mem hlookup) hoperator hvalue _
  | compareTurned hlookup =>
    cases ht with
    | compare hoperator hvalue => exact renderable_compare hcatalog (lookup_mem hlookup) hoperator hvalue _
  | @call _ _ _ _ _ f function hlookup hfunction =>
    cases ht with
    | search text =>
      have hvalid := hcatalog.valid f (lookup_mem hlookup)
      obtain ⟨htype, harray⟩ := hvalid.functions (List.ne_nil_of_mem hfunction)
      exact ⟨hfunction, htype, harray, text, rfl⟩

/-- Over a catalog of declared fields, an expression is bound and checked exactly if it is a condition by
the typing rules. The checked predicate then has the shape of the bound one, its operands are what the
literals are as values of their fields' types, and it has all that rendering relies on. -/
theorem bind_check_iff_wellFormed {entity : Entity} {table : String} {version : Nat} {fields : List Field}
    {catalog : Catalog} (hdeclared : ∀ f ∈ fields, f.Declared)
    (hbuild : Catalog.build entity table version fields = .ok catalog) (e : Expr) :
    ((∃ p t, bind catalog e = .ok p ∧ p.check = .ok t) ↔ e.WellFormed catalog) ∧
      ∀ p t, bind catalog e = .ok p → p.check = .ok t → Typed p t ∧ t.Renderable := by
  refine ⟨⟨?_, ?_⟩, ?_⟩
  · rintro ⟨p, t, hp, ht⟩
    exact (bind_eq_ok_iff.mp hp).wellFormed (typed_of_check ht)
  · intro h
    obtain ⟨p, t, hp, ht⟩ := bound_of_wellFormed h
    obtain ⟨u, hu⟩ := ht.exists_check
    exact ⟨p, u, bind_eq_ok_iff.mpr hp, hu⟩
  · intro p t hp ht
    have htyped := typed_of_check ht
    exact ⟨htyped, (bind_eq_ok_iff.mp hp).renderable (Catalog.sound_of_build hdeclared hbuild) htyped⟩

/-- The expression of `3 <= difficulty && !(tag != "math") || startsWith(content, "-")`. -/
def graded : Expr :=
  .connect .or
    (.connect .and
      (.compare .lessEqual (.literal (.integer 3) ⟨0, 1, 1, 1⟩) (.field ⟨["difficulty"]⟩ ⟨5, 15, 1, 6⟩)
        ⟨0, 15, 1, 1⟩)
      (.not (.compare .notEqual (.field ⟨["tag"]⟩ ⟨21, 24, 1, 22⟩)
        (.literal (.text "math") ⟨28, 34, 1, 29⟩) ⟨21, 34, 1, 22⟩) ⟨19, 35, 1, 20⟩) ⟨0, 35, 1, 1⟩)
    (.call "startsWith" [.field ⟨["content"]⟩ ⟨50, 57, 1, 51⟩, .literal (.text "-") ⟨59, 62, 1, 60⟩]
      ⟨39, 63, 1, 40⟩) ⟨0, 63, 1, 1⟩

theorem declared_standardFields (entity : Entity) : ∀ f ∈ Catalog.standardFields entity, f.Declared := by
  have hmoment : ∀ table column, (Field.moment table column).Declared :=
    fun table column => .withOverride .mysql _ (.made (.column column .timestamp column))
  have hsearchable : ∀ column functions, (Field.searchable column functions).Declared :=
    fun column functions => .withFunctions functions (.made (.column column .text column))
  cases entity <;>
    simp only [Catalog.standardFields, List.forall_mem_cons, List.not_mem_nil, false_implies, implies_true,
      and_true, hmoment, hsearchable, true_and]
  · exact ⟨.made (.jsonArray ..), .made (.column ..), .made (.statusFlag ..), .made (.column ..),
      .made (.column ..), .made (.json ..), .made (.json ..), .made (.json ..)⟩
  · exact ⟨.made (.column ..), .made (.column ..)⟩
  · exact .made (.column ..)

theorem bind_check_graded :
    (∃ p t, bind (.standard .note) graded = .ok p ∧ p.check = .ok t ∧ Typed p t ∧ t.Renderable) ∧
      graded.WellFormed (.standard .note) ∧
      ¬ (Expr.compare .less (.field ⟨["content"]⟩ ⟨0, 7, 1, 1⟩) (.literal (.text "b") ⟨10, 13, 1, 11⟩)
        ⟨0, 13, 1, 1⟩).WellFormed (.standard .note) := by
  have hrules := bind_check_iff_wellFormed (declared_standardFields .note)
    (Catalog.build_standardFields .note)
  obtain ⟨p, t, hp, ht⟩ : ∃ p t, bind (.standard .note) graded = .ok p ∧ p.check = .ok t :=
    ⟨_, _, rfl, rfl⟩
  refine ⟨⟨p, t, hp, ht, (hrules graded).2 p t hp ht⟩, (hrules graded).1.mp ⟨p, t, hp, ht⟩, ?_⟩
  intro h
  obtain ⟨q, u, hq, hu⟩ := (hrules _).1.mpr h
  cases hq
  cases hu

end Predicate

end FilterSql
