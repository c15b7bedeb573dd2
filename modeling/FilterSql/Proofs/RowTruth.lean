import FilterSql.Proofs.CatalogChecked
import FilterSql.Proofs.ClosedCatalog
import FilterSql.Proofs.Patterns

/-! What a filter says of a row. An expression is evaluated as it is written, with the literal on either
side of a comparison; a predicate is evaluated as it is typed, with the field on the left. Truth is
three-valued on both, and binding and checking keep it. -/
namespace FilterSql

/-- A truth value of SQL; `none` is unknown. -/
abbrev Truth := Option Bool

namespace Truth

def not (v : Truth) : Truth := Option.map Bool.not v

def and : Truth → Truth → Truth
  | some false, _ => some false
  | _, some false => some false
  | some true, some true => some true
  | _, _ => none

def or : Truth → Truth → Truth
  | some true, _ => some true
  | _, some true => some true
  | some false, some false => some false
  | _, _ => none

end Truth

def Binary64.measure? (x : Binary64) : Option Int :=
  match x.read with
  | .notANumber => none
  | .infinite negative => some (if negative then -(twoTo 2100 : Nat) else (twoTo 2100 : Nat))
  | .finite negative mantissa exponent =>
    let size : Nat := mantissa * twoTo (exponent - leastExponent).toNat
    some (if negative then -size else size)

inductive Scalar where
  | text (value : String)
  | integer (value : Int)
  | float (value : Binary64)
  | boolean (value : Bool)
deriving DecidableEq, Inhabited

def Comparison.accepts : Comparison → Ordering → Bool
  | equal, o => o == .eq
  | notEqual, o => o != .eq
  | less, o => o == .lt
  | lessEqual, o => o != .gt
  | greater, o => o == .gt
  | greaterEqual, o => o != .lt

namespace Scalar

/-- How values of one kind are ordered. Nothing compares with what is not a number. -/
def order? : Scalar → Scalar → Option Ordering
  | text s, text t => some (compare s t)
  | integer m, integer n => some (compare m n)
  | float x, float y => x.measure?.bind fun m => y.measure?.map fun n => compare m n
  | boolean a, boolean b => some (compare a b)
  | _, _ => none

/-- A comparison of SQL: unknown if a side is NULL. -/
def compared (operator : Comparison) (a b : Option Scalar) : Truth :=
  a.bind fun a => b.bind fun b => (a.order? b).map operator.accepts

def truth : Option Scalar → Truth
  | some (boolean b) => some b
  | _ => none

end Scalar

/-- What the columns of a row hold, and what is found at the paths of its JSON columns. -/
structure Row where
  column : (table column : String) → Option Scalar
  scalar : (table column : String) → (path : List String) → Option Scalar
  array : (table column : String) → (path : List String) → Option (List String)

def StringFunction.searched (function : StringFunction) (needle : String) : Option Scalar → Truth
  | some (.text s) => some (decide (function.Finds needle.toList s.toList))
  | _ => none

/-- The value of a field in a row. A boolean that a JSON document lacks is false, and a status flag is
whether its column holds its text. -/
def Field.scalar (f : Field) (row : Row) : Option Scalar :=
  match f.source with
  | .column column => row.column f.table column
  | .jsonScalar column path =>
    if f.type = .boolean then some ((row.scalar f.table column path).getD (.boolean false))
    else row.scalar f.table column path
  | .jsonArray .. => none
  | .statusFlag column value => (row.column f.table column).map fun v => .boolean (v == .text value)

/-- What an array of a row holds; an array that is not there is empty. -/
def Row.texts (row : Row) (table column : String) (path : List String) : List String :=
  (row.array table column path).getD []

/-- Membership, by the operators that stand for it. -/
def Comparison.member? (isMember : Bool) : Comparison → Option Truth
  | equal => some (some isMember)
  | notEqual => some (some !isMember)
  | _ => none

/-- A literal as a value of a type: enumerations by the text they are stored as, points of time by their
seconds, integers in the place of doubles by the nearest one. -/
def Literal.scalar? (d : Dialect) : FieldType → Literal → Option Scalar
  | .text, .text s => some (.text s)
  | .boolean, .boolean b => some (.boolean b)
  | .number .float64, .integer n => some (.float (.ofInt n))
  | .number .float64, .decimal x => some (.float x)
  | .number .int32, .integer n => some (.integer n)
  | .number .int64, .integer n => some (.integer n)
  | .enum type, .text s => (type.resolve? s).map fun variant => .text (variant.encoding d)
  | .timestamp, .integer n => some (.integer n)
  | .timestamp, .text s =>
    match Rfc3339.epochSecond s with
    | .ok second => some (.integer second)
    | .error _ => none
  | _, _ => none

def Literal.text? : Literal → Option String
  | text s => some s
  | _ => none

/-- A field compared with a literal, which stands on its right or, if it comes first, on its left. An array
is compared with its members. -/
def Field.compared? (f : Field) (d : Dialect) (row : Row) (operator : Comparison) (literal : Literal)
    (literalFirst : Bool) : Option Truth :=
  match f.source with
  | .jsonArray column path =>
    literal.text?.bind fun s => operator.member? ((row.texts f.table column path).contains s)
  | _ => (literal.scalar? d f.type).map fun v =>
    if literalFirst then Scalar.compared operator (some v) (f.scalar row)
    else Scalar.compared operator (f.scalar row) (some v)

namespace Expr

/-- The truth of an expression; there is none if it is no condition over the catalog. -/
def truth? (catalog : Catalog) (d : Dialect) (row : Row) : Expr → Option Truth
  | connect .and left right _ => do
    let l ← left.truth? catalog d row
    let r ← right.truth? catalog d row
    some (l.and r)
  | connect .or left right _ => do
    let l ← left.truth? catalog d row
    let r ← right.truth? catalog d row
    some (l.or r)
  | not operand _ => (operand.truth? catalog d row).map Truth.not
  | field path _ => do
    let f ← catalog.lookup path.text
    if f.type = .boolean then some (Scalar.truth (f.scalar row)) else none
  | compare operator (field path _) (literal value _) _ => do
    let f ← catalog.lookup path.text
    f.compared? d row operator value false
  | compare operator (literal value _) (field path _) _ => do
    let f ← catalog.lookup path.text
    f.compared? d row operator value true
  | call name [field path _, literal value _] _ => do
    let function ← StringFunction.ofName? name
    let f ← catalog.lookup path.text
    let needle ← value.text?
    some (function.searched needle (f.scalar row))
  | _ => none

end Expr

def Operand.scalar (d : Dialect) : Operand → Scalar
  | text s => .text s
  | int32 n => .integer n
  | int64 n => .integer n
  | float x => .float x
  | boolean b => .boolean b
  | timestamp n => .integer n
  | enum variant => .text (variant.encoding d)

def Operand.text? : Operand → Option String
  | text s => some s
  | _ => none

def Operand.hasType : Operand → FieldType → Bool
  | text _, .text => true
  | int32 _, .number .int32 => true
  | int64 _, .number .int64 => true
  | float _, .number .float64 => true
  | boolean _, .boolean => true
  | timestamp _, .timestamp => true
  | enum _, .enum _ => true
  | _, _ => false

namespace Predicate

def compareTruth? (d : Dialect) (row : Row) (f : Field) (operator : Comparison) (operand : Operand) :
    Option Truth :=
  if operand.hasType f.type && (!operator.isOrdering || f.type.isOrdered) then
    match f.source with
    | .jsonArray column path =>
      operand.text?.bind fun s => operator.member? ((row.texts f.table column path).contains s)
    | _ => some (Scalar.compared operator (f.scalar row) (some (operand.scalar d)))
  else none

def searchTruth? (row : Row) (f : Field) (function : StringFunction) (operand : Operand) : Option Truth :=
  if f.type = .text ∧ f.source.isArray = false then
    operand.text?.map fun needle => function.searched needle (f.scalar row)
  else none

/-- The truth of a predicate; there is none if it is not well typed. -/
def truth? (d : Dialect) (row : Row) : Predicate Operand → Option Truth
  | and left right => do
    let l ← left.truth? d row
    let r ← right.truth? d row
    some (l.and r)
  | or left right => do
    let l ← left.truth? d row
    let r ← right.truth? d row
    some (l.or r)
  | not operand => (operand.truth? d row).map Truth.not
  | compare f operator operand _ => compareTruth? d row f operator operand
  | search f function operand _ => searchTruth? row f function operand

end Predicate

/-- A field as a constructor makes it, with any functions and without overrides. -/
inductive Field.Made : Field → Prop where
  | column (name : String) (type : FieldType) (column : String) : Made (.ofColumn name type column)
  | json (name : String) (type : FieldType) (column : String) (path : List String) :
    Made (.ofJson name type column path)
  | jsonArray (name column : String) (path : List String) : Made (.ofJsonArray name column path)
  | statusFlag (name column value : String) : Made (.ofStatusFlag name column value)
  | withFunctions (functions : List StringFunction) : Made f → Made (f.withFunctions functions)

def FieldType.admits : FieldType → Scalar → Bool
  | text, .text _ => true
  | number .int32, .integer n => Numeral.fitsInt32 n
  | number .int64, .integer n => Numeral.fitsInt64 n
  | number .float64, .float _ => true
  | boolean, .boolean _ => true
  | enum _, .text _ => true
  | timestamp, .integer n => Numeral.fitsInt64 n
  | _, _ => false

/-- A row in which a field finds a value of its type, or none. The column of a status flag holds texts. -/
def Row.Suits (row : Row) (f : Field) : Prop :=
  ∀ v, match f.source with
    | .column column => row.column f.table column = some v → f.type.admits v = true
    | .jsonScalar column path => row.scalar f.table column path = some v → f.type.admits v = true
    | .statusFlag column _ => row.column f.table column = some v → FieldType.text.admits v = true
    | .jsonArray .. => True

structure Field.Regular (f : Field) : Prop where
  valid : f.Valid
  overrides : f.overrides = []
  array : f.source.isArray = true → f.type = .text
  flag : ∀ column value, f.source = .statusFlag column value → f.type = .boolean

theorem Field.Made.regular {f : Field} (h : f.Made) :
    f.overrides = [] ∧ (f.source.isArray = true → f.type = .text) ∧
      ∀ column value, f.source = .statusFlag column value → f.type = .boolean := by
  induction h with
  | column => exact ⟨rfl, by simp [ofColumn, Source.isArray], by simp [ofColumn]⟩
  | json => exact ⟨rfl, by simp [ofJson, Source.isArray], by simp [ofJson]⟩
  | jsonArray => exact ⟨rfl, fun _ => rfl, fun _ _ _ => by simp_all [ofJsonArray]⟩
  | statusFlag => exact ⟨rfl, by simp [ofStatusFlag, Source.isArray], fun _ _ _ => rfl⟩
  | withFunctions _ _ ih => exact ih

theorem Catalog.regular_of_build {entity : Entity} {table : String} {version : Nat} {fields : List Field}
    {catalog : Catalog} (hmade : ∀ f ∈ fields, f.Made)
    (hbuild : Catalog.build entity table version fields = .ok catalog) :
    ∀ f ∈ catalog.fields, f.Regular := by
  intro g hg
  have hvalid := (valid_of_build hbuild).2 g hg
  obtain ⟨f, hf, rfl⟩ := mem_of_build hbuild g hg
  obtain ⟨hoverrides, harray, hflag⟩ := (hmade f hf).regular
  exact ⟨hvalid.2, hoverrides, harray, hflag⟩

theorem Comparison.accepts_flip (operator : Comparison) (o : Ordering) :
    operator.flip.accepts o.swap = operator.accepts o := by
  cases operator <;> cases o <;> rfl

theorem Comparison.flip_flip (operator : Comparison) : operator.flip.flip = operator := by
  cases operator <;> rfl

namespace Scalar

theorem order?_swap (a b : Scalar) : b.order? a = (a.order? b).map Ordering.swap := by
  cases a with
  | text s =>
    cases b with
    | text t => exact congrArg some Std.OrientedCmp.eq_swap
    | _ => rfl
  | integer m =>
    cases b with
    | integer n => exact congrArg some Std.OrientedCmp.eq_swap
    | _ => rfl
  | float x =>
    cases b with
    | float y =>
      simp only [order?]
      cases x.measure? with
      | none => cases y.measure? <;> rfl
      | some m =>
        cases y.measure? with
        | none => rfl
        | some n => exact congrArg some Std.OrientedCmp.eq_swap
    | _ => rfl
  | boolean a =>
    cases b with
    | boolean b => cases a <;> cases b <;> rfl
    | _ => rfl

theorem compared_flip (operator : Comparison) (a b : Option Scalar) :
    compared operator.flip b a = compared operator a b := by
  cases a with
  | none => cases b <;> rfl
  | some a =>
    cases b with
    | none => rfl
    | some b =>
      simp only [compared, Option.bind_some, order?_swap a b, Option.map_map]
      congr 1
      funext o
      exact operator.accepts_flip o

theorem compared_true (v : Option Scalar) : compared .equal v (some (.boolean true)) = truth v := by
  cases v with
  | none => rfl
  | some v =>
    cases v with
    | boolean b => cases b <;> rfl
    | _ => rfl

end Scalar

namespace Predicate

variable {catalog : Catalog}

theorem coerce_scalar {f : Field} {literal : Literal} {span : Span} {operand : Operand}
    (h : coerce f literal span = .ok operand) (d : Dialect) :
    operand.hasType f.type = true ∧ literal.scalar? d f.type = some (operand.scalar d) := by
  unfold coerce at h
  split at h
  case h_3 n htype =>
    split at h
    · cases h
      rw [htype]
      exact ⟨rfl, rfl⟩
    · cases h
  case h_7 type s htype =>
    split at h
    case h_1 variant hresolve =>
      cases h
      rw [htype]
      exact ⟨rfl, by rw [Literal.scalar?, hresolve]; rfl⟩
    case h_2 => cases h
  case h_9 s htype =>
    split at h
    case h_1 second hsecond =>
      cases h
      rw [htype]
      exact ⟨rfl, by rw [Literal.scalar?, hsecond]; rfl⟩
    case h_2 => cases h
  case h_10 => cases h
  -- In the other cases the literal is taken as it is.
  all_goals
    rename_i htype
    cases h
    rw [htype]
    exact ⟨rfl, rfl⟩

theorem checkOperator_eq_ok {f : Field} {operator : Comparison} {span : Span}
    (h : checkOperator f operator span = .ok ()) :
    (!operator.isOrdering || f.type.isOrdered) = true := by
  unfold checkOperator at h
  split at h
  case isTrue => cases h
  case isFalse hnot => cases hordering : operator.isOrdering <;> simp_all

theorem member?_of_unordered {operator : Comparison} (h : operator.isOrdering = false) (isMember : Bool) :
    ∃ v, operator.member? isMember = some v ∧ operator.flip.member? isMember = some v := by
  cases operator with
  | equal => exact ⟨_, rfl, rfl⟩
  | notEqual => exact ⟨_, rfl, rfl⟩
  | _ => cases h

theorem compareTruth?_of_check {f : Field} (hf : f.Regular) {operator : Comparison} {literal : Literal}
    {span : Span} {operand : Operand} (hoperator : checkOperator f operator span = .ok ())
    (hoperand : coerce f literal span = .ok operand) (d : Dialect) (row : Row) :
    ∃ v, f.compared? d row operator literal false = some v ∧
      f.compared? d row operator.flip literal true = some v ∧
      compareTruth? d row f operator operand = some v := by
  have htyped := checkOperator_eq_ok hoperator
  obtain ⟨htype, hscalar⟩ := coerce_scalar hoperand d
  have hflip := Scalar.compared_flip operator (f.scalar row) (some (operand.scalar d))
  unfold Field.compared? compareTruth?
  rw [htype, htyped]
  cases hsource : f.source with
  | jsonArray column path =>
    have htext : f.type = .text := hf.array (by rw [hsource]; rfl)
    rw [htext] at hscalar htype htyped
    cases operand with
    | text s =>
      cases literal with
      | text =>
        cases hscalar
        obtain ⟨v, hv, hflipped⟩ := member?_of_unordered (by simpa [FieldType.isOrdered] using htyped)
          ((row.texts f.table column path).contains s)
        exact ⟨v, hv, hflipped, hv⟩
      | _ => cases hscalar
    | _ => cases htype
  | _ =>
    simp only [hscalar, Option.map_some, if_true, Bool.false_eq_true, if_false, hflip]
    exact ⟨_, rfl, rfl, rfl⟩

theorem compared?_true {f : Field} (hf : f.Regular) (htype : f.type = .boolean) (d : Dialect) (row : Row) :
    f.compared? d row .equal (.boolean true) false = some (Scalar.truth (f.scalar row)) := by
  unfold Field.compared?
  cases hsource : f.source with
  | jsonArray column path =>
    have htext := hf.array (by rw [hsource]; rfl)
    rw [htype] at htext
    cases htext
  | _ =>
    rw [htype]
    exact congrArg some (Scalar.compared_true (f.scalar row))

theorem literalOperand_eq_ok {e : Expr} {value : Literal} (h : literalOperand e = .ok value) :
    ∃ span, e = .literal value span := by
  cases e with
  | literal v span =>
    cases h
    exact ⟨span, rfl⟩
  | _ => cases h

theorem resolveOperand_eq_field {e : Expr} {f : Field} (h : resolveOperand catalog e = .ok (some f)) :
    ∃ path span, e = .field path span ∧ catalog.lookup path.text = some f := by
  cases e with
  | field path span =>
    refine ⟨path, span, rfl, ?_⟩
    rw [resolveOperand] at h
    cases hresolve : resolve catalog path span with
    | error =>
      rw [hresolve] at h
      cases h
    | ok found =>
      rw [hresolve] at h
      cases h
      exact resolve_eq_ok.mp hresolve
  | _ => cases h

theorem lookup_mem {name : String} {f : Field} (h : catalog.lookup name = some f) : f ∈ catalog.fields := by
  rw [Catalog.lookup_eq_find?] at h
  exact List.mem_of_find?_eq_some h

theorem truth?_bindComparison (hfields : ∀ f ∈ catalog.fields, f.Regular) {operator : Comparison}
    {left right : Expr} {span : Span} {p : Predicate Literal} {t : Predicate Operand}
    (hp : bindComparison catalog operator left right = .ok p) (ht : p.check = .ok t) (d : Dialect)
    (row : Row) :
    ∃ v, (Expr.compare operator left right span).truth? catalog d row = some v ∧ t.truth? d row = some v := by
  obtain ⟨leftField, hleft, hp⟩ := bind_eq_ok.mp hp
  obtain ⟨rightField, hright, hp⟩ := bind_eq_ok.mp hp
  cases leftField with
  | none =>
    cases rightField with
    | none => cases hp
    | some f =>
      obtain ⟨value, hvalue, hp⟩ := bind_eq_ok.mp hp
      cases hp
      obtain ⟨_, hoperator, ht⟩ := bind_eq_ok.mp ht
      obtain ⟨operand, hoperand, ht⟩ := bind_eq_ok.mp ht
      cases ht
      obtain ⟨path, pathSpan, rfl, hlookup⟩ := resolveOperand_eq_field hright
      obtain ⟨valueSpan, rfl⟩ := literalOperand_eq_ok hvalue
      obtain ⟨v, -, hflipped, hv⟩ :=
        compareTruth?_of_check (hfields f (lookup_mem hlookup)) hoperator hoperand d row
      rw [Comparison.flip_flip] at hflipped
      exact ⟨v, by rw [Expr.truth?, hlookup]; exact hflipped, hv⟩
  | some f =>
    cases rightField with
    | some => cases hp
    | none =>
      obtain ⟨value, hvalue, hp⟩ := bind_eq_ok.mp hp
      cases hp
      obtain ⟨_, hoperator, ht⟩ := bind_eq_ok.mp ht
      obtain ⟨operand, hoperand, ht⟩ := bind_eq_ok.mp ht
      cases ht
      obtain ⟨path, pathSpan, rfl, hlookup⟩ := resolveOperand_eq_field hleft
      obtain ⟨valueSpan, rfl⟩ := literalOperand_eq_ok hvalue
      obtain ⟨v, hwritten, -, hv⟩ :=
        compareTruth?_of_check (hfields f (lookup_mem hlookup)) hoperator hoperand d row
      exact ⟨v, by rw [Expr.truth?, hlookup]; exact hwritten, hv⟩

theorem truth?_bindCall (hfields : ∀ f ∈ catalog.fields, f.Regular) {name : String} {arguments : List Expr}
    {span : Span} {p : Predicate Literal} {t : Predicate Operand}
    (hp : bindCall catalog name arguments span = .ok p) (ht : p.check = .ok t) (d : Dialect) (row : Row) :
    ∃ v, (Expr.call name arguments span).truth? catalog d row = some v ∧ t.truth? d row = some v := by
  unfold bindCall at hp
  split at hp
  case h_1 => cases hp
  case h_2 function hname =>
    split at hp
    case h_1 path pathSpan needle =>
      obtain ⟨f, hresolve, hp⟩ := bind_eq_ok.mp hp
      have hlookup := resolve_eq_ok.mp hresolve
      split at hp
      case isFalse => cases hp
      case isTrue hsupports =>
        obtain ⟨value, hvalue, hp⟩ := bind_eq_ok.mp hp
        cases hp
        obtain ⟨valueSpan, rfl⟩ := literalOperand_eq_ok hvalue
        obtain ⟨operand, hoperand, ht⟩ := bind_eq_ok.mp ht
        cases ht
        have hne : f.functions ≠ [] := by
          intro hnil
          simp [Field.supports, hnil] at hsupports
        have htext := (hfields f (lookup_mem hlookup)).valid.functions hne
        cases value with
        | text needle =>
          cases hoperand
          refine ⟨function.searched needle (f.scalar row), ?_, ?_⟩
          · rw [Expr.truth?, hname, hlookup]
            rfl
          · rw [truth?, searchTruth?, if_pos htext]
            rfl
        | _ => cases hoperand
    case h_2 => cases hp
    case h_3 => cases hp

/-- A predicate that an expression is bound to and checked as says what the expression says. -/
theorem truth?_bindExpr (hfields : ∀ f ∈ catalog.fields, f.Regular) {e : Expr} {p : Predicate Literal}
    {t : Predicate Operand} (hp : bindExpr catalog e = .ok p) (ht : p.check = .ok t) (d : Dialect)
    (row : Row) : ∃ v, e.truth? catalog d row = some v ∧ t.truth? d row = some v := by
  fun_induction bindExpr catalog e generalizing p t with
  | case1 left right span ihl ihr =>
    obtain ⟨l, hl, hp⟩ := bind_eq_ok.mp hp
    obtain ⟨r, hr, hp⟩ := bind_eq_ok.mp hp
    cases hp
    obtain ⟨tl, htl, ht⟩ := bind_eq_ok.mp ht
    obtain ⟨tr, htr, ht⟩ := bind_eq_ok.mp ht
    cases ht
    obtain ⟨v, hv, hv'⟩ := ihl hl htl
    obtain ⟨w, hw, hw'⟩ := ihr hr htr
    exact ⟨v.and w, by rw [Expr.truth?, hv, hw]; rfl, by rw [truth?, hv', hw']; rfl⟩
  | case2 left right span ihl ihr =>
    obtain ⟨l, hl, hp⟩ := bind_eq_ok.mp hp
    obtain ⟨r, hr, hp⟩ := bind_eq_ok.mp hp
    cases hp
    obtain ⟨tl, htl, ht⟩ := bind_eq_ok.mp ht
    obtain ⟨tr, htr, ht⟩ := bind_eq_ok.mp ht
    cases ht
    obtain ⟨v, hv, hv'⟩ := ihl hl htl
    obtain ⟨w, hw, hw'⟩ := ihr hr htr
    exact ⟨v.or w, by rw [Expr.truth?, hv, hw]; rfl, by rw [truth?, hv', hw']; rfl⟩
  | case3 operand span ih =>
    obtain ⟨q, hq, hp⟩ := bind_eq_ok.mp hp
    cases hp
    obtain ⟨u, hu, ht⟩ := bind_eq_ok.mp ht
    cases ht
    obtain ⟨v, hv, hv'⟩ := ih hq hu
    exact ⟨v.not, by rw [Expr.truth?, hv]; rfl, by rw [truth?, hv']; rfl⟩
  | case4 operator left right span => exact truth?_bindComparison hfields hp ht d row
  | case5 name arguments span => exact truth?_bindCall hfields hp ht d row
  | case6 path span =>
    obtain ⟨f, hresolve, hp⟩ := bind_eq_ok.mp hp
    have hlookup := resolve_eq_ok.mp hresolve
    split at hp
    case isFalse => cases hp
    case isTrue htype =>
      cases hp
      obtain ⟨_, hoperator, ht⟩ := bind_eq_ok.mp ht
      obtain ⟨operand, hoperand, ht⟩ := bind_eq_ok.mp ht
      cases ht
      -- A field that stands alone is its comparison with `true`, which is its own truth.
      obtain ⟨v, hwritten, -, hv⟩ :=
        compareTruth?_of_check (hfields f (lookup_mem hlookup)) hoperator hoperand d row
      refine ⟨v, ?_, hv⟩
      rw [compared?_true (hfields f (lookup_mem hlookup)) htype] at hwritten
      rw [Expr.truth?, hlookup, ← hwritten]
      exact if_pos htype
  | case7 value span => cases hp

end Predicate

end FilterSql
