import FilterSql.Proofs.RowTruth

/-! Binding as rules. One rule for each form of expression that has a predicate says which predicate that
is. Binding follows the rules and accepts all that they give a predicate. -/
namespace FilterSql.Predicate

inductive Bound (catalog : Catalog) : Expr → Predicate Literal → Prop where
  | and : Bound catalog l p → Bound catalog r q → Bound catalog (.connect .and l r s) (.and p q)
  | or : Bound catalog l p → Bound catalog r q → Bound catalog (.connect .or l r s) (.or p q)
  | not : Bound catalog e p → Bound catalog (.not e s) (.not p)
  | field {f : Field} : catalog.lookup path.text = some f → f.type = .boolean →
      Bound catalog (.field path s) (.compare f .equal (.boolean true) s)
  | compare {f : Field} : catalog.lookup path.text = some f →
      Bound catalog (.compare operator (.field path s₁) (.literal value s₂) s) (.compare f operator value s₂)
  | compareTurned {f : Field} : catalog.lookup path.text = some f →
      Bound catalog (.compare operator (.literal value s₁) (.field path s₂) s)
        (.compare f operator.flip value s₁)
  | call {f : Field} {function : StringFunction} : catalog.lookup path.text = some f →
      function ∈ f.functions →
      Bound catalog (.call function.name [.field path s₁, .literal value s₂] s) (.search f function value s₂)

variable {catalog : Catalog}

theorem bound_of_bindComparison {operator : Comparison} {left right : Expr} {p : Predicate Literal}
    (h : bindComparison catalog operator left right = .ok p) (span : Span) :
    Bound catalog (.compare operator left right span) p := by
  obtain ⟨leftField, hleft, h⟩ := bind_eq_ok.mp h
  obtain ⟨rightField, hright, h⟩ := bind_eq_ok.mp h
  cases leftField with
  | none =>
    cases rightField with
    | none => cases h
    | some f =>
      obtain ⟨value, hvalue, h⟩ := bind_eq_ok.mp h
      cases h
      obtain ⟨path, pathSpan, rfl, hlookup⟩ := resolveOperand_eq_field hright
      obtain ⟨valueSpan, rfl⟩ := literalOperand_eq_ok hvalue
      exact .compareTurned hlookup
  | some f =>
    cases rightField with
    | some => cases h
    | none =>
      obtain ⟨value, hvalue, h⟩ := bind_eq_ok.mp h
      cases h
      obtain ⟨path, pathSpan, rfl, hlookup⟩ := resolveOperand_eq_field hleft
      obtain ⟨valueSpan, rfl⟩ := literalOperand_eq_ok hvalue
      exact .compare hlookup

theorem ofName?_name (function : StringFunction) :
    StringFunction.ofName? function.name = some function := by
  cases function <;> rfl

theorem name_of_ofName? {name : String} {function : StringFunction}
    (h : StringFunction.ofName? name = some function) : name = function.name := by
  unfold StringFunction.ofName? at h
  have hname := List.find?_some h
  exact (eq_of_beq hname).symm

theorem mem_functions_iff {f : Field} {function : StringFunction} :
    f.supports function = true ↔ function ∈ f.functions := by
  rw [Field.supports, List.contains_iff_mem]

theorem bound_of_bindCall {name : String} {arguments : List Expr} {span : Span} {p : Predicate Literal}
    (h : bindCall catalog name arguments span = .ok p) : Bound catalog (.call name arguments span) p := by
  unfold bindCall at h
  split at h
  case h_1 => cases h
  case h_2 function hname =>
    obtain rfl := name_of_ofName? hname
    split at h
    case h_1 path pathSpan needle =>
      obtain ⟨f, hresolve, h⟩ := bind_eq_ok.mp h
      split at h
      case isFalse => cases h
      case isTrue hsupports =>
        obtain ⟨value, hvalue, h⟩ := bind_eq_ok.mp h
        cases h
        obtain ⟨valueSpan, rfl⟩ := literalOperand_eq_ok hvalue
        exact .call (resolve_eq_ok.mp hresolve) (mem_functions_iff.mp hsupports)
    case h_2 => cases h
    case h_3 => cases h

theorem bound_of_bindField {path : Path} {span : Span} {p : Predicate Literal}
    (h : bindField catalog path span = .ok p) : Bound catalog (.field path span) p := by
  obtain ⟨f, hresolve, h⟩ := bind_eq_ok.mp h
  split at h
  case isFalse => cases h
  case isTrue htype =>
    cases h
    exact .field (resolve_eq_ok.mp hresolve) htype

theorem bound_of_bindExpr {e : Expr} {p : Predicate Literal} (h : bindExpr catalog e = .ok p) :
    Bound catalog e p := by
  fun_induction bindExpr catalog e generalizing p with
  | case1 left right span ihl ihr =>
    obtain ⟨l, hl, h⟩ := bind_eq_ok.mp h
    obtain ⟨r, hr, h⟩ := bind_eq_ok.mp h
    cases h
    exact .and (ihl hl) (ihr hr)
  | case2 left right span ihl ihr =>
    obtain ⟨l, hl, h⟩ := bind_eq_ok.mp h
    obtain ⟨r, hr, h⟩ := bind_eq_ok.mp h
    cases h
    exact .or (ihl hl) (ihr hr)
  | case3 operand span ih =>
    obtain ⟨q, hq, h⟩ := bind_eq_ok.mp h
    cases h
    exact .not (ih hq)
  | case4 operator left right span => exact bound_of_bindComparison h span
  | case5 name arguments span => exact bound_of_bindCall h
  | case6 path span => exact bound_of_bindField h
  | case7 value span => cases h

theorem resolveOperand_field {path : Path} {f : Field} (h : catalog.lookup path.text = some f)
    (span : Span) : resolveOperand catalog (.field path span) = .ok (some f) := by
  rw [resolveOperand, resolve_eq_ok.mpr h]
  rfl

theorem Bound.bindExpr {e : Expr} {p : Predicate Literal} (h : Bound catalog e p) :
    bindExpr catalog e = .ok p := by
  induction h with
  | @and l p r q s _ _ ihl ihr => exact bind_eq_ok.mpr ⟨p, ihl, bind_eq_ok.mpr ⟨q, ihr, rfl⟩⟩
  | @or l p r q s _ _ ihl ihr => exact bind_eq_ok.mpr ⟨p, ihl, bind_eq_ok.mpr ⟨q, ihr, rfl⟩⟩
  | @not e p s _ ih => exact bind_eq_ok.mpr ⟨p, ih, rfl⟩
  | field hlookup htype => exact bind_eq_ok.mpr ⟨_, resolve_eq_ok.mpr hlookup, if_pos htype⟩
  | @compare _ _ _ _ _ _ f hlookup =>
    refine bind_eq_ok.mpr ⟨some f, resolveOperand_field hlookup _, ?_⟩
    exact bind_eq_ok.mpr ⟨none, rfl, rfl⟩
  | @compareTurned _ _ _ _ _ _ f hlookup =>
    refine bind_eq_ok.mpr ⟨none, rfl, ?_⟩
    exact bind_eq_ok.mpr ⟨some f, resolveOperand_field hlookup _, rfl⟩
  | @call _ _ _ _ _ f function hlookup hfunction =>
    rw [Predicate.bindExpr, bindCall, ofName?_name]
    refine bind_eq_ok.mpr ⟨f, resolve_eq_ok.mpr hlookup, ?_⟩
    rw [if_pos (mem_functions_iff.mpr hfunction)]
    rfl

theorem Bound.checkNames {e : Expr} {p : Predicate Literal} (h : Bound catalog e p) :
    checkNames catalog e = .ok () := by
  have hnone : e.names.find? (unknown catalog) = none := by
    rw [List.find?_eq_none]
    induction h with
    | and _ _ ihl ihr => exact List.forall_mem_append.mpr ⟨ihl, ihr⟩
    | or _ _ ihl ihr => exact List.forall_mem_append.mpr ⟨ihl, ihr⟩
    | not _ ih => exact ih
    | field hlookup => simp [Expr.names, unknown, hlookup]
    | compare hlookup => simp [Expr.names, unknown, hlookup]
    | compareTurned hlookup => simp [Expr.names, unknown, hlookup]
    | call hlookup => simp [Expr.names, Expr.namesOfAll, unknown, hlookup]
  rw [Predicate.checkNames, hnone]

/-- Binding follows the rules, and accepts whatever they give a predicate. -/
theorem bind_eq_ok_iff {e : Expr} {p : Predicate Literal} :
    Predicate.bind catalog e = .ok p ↔ Bound catalog e p := by
  constructor
  · intro h
    obtain ⟨_, -, h⟩ := bind_eq_ok.mp h
    exact bound_of_bindExpr h
  · intro h
    exact bind_eq_ok.mpr ⟨(), h.checkNames, h.bindExpr⟩

end FilterSql.Predicate
