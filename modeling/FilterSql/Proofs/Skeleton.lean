import FilterSql.Proofs.Outline
import FilterSql.Proofs.Rendering

/-! What of a predicate reaches the text of a statement: its fields, operators and functions, and of an
operand no more than whether it is the truth value true. Binding an expression settles this by its outline
alone, and checking does not change it. -/
namespace FilterSql

def Literal.isTrue : Literal → Bool
  | .boolean b => b
  | _ => false

def Operand.isTrue : Operand → Bool
  | .boolean b => b
  | _ => false

theorem Operand.beq_true (operand : Operand) : (operand == .boolean true) = operand.isTrue := by
  cases operand with
  | boolean b => cases b <;> decide
  | _ => exact beq_eq_false_iff_ne.mpr Operand.noConfusion

theorem Literal.isTrue_outline (value : Literal) : value.outline.isTrue = value.isTrue := by
  cases value <;> rfl

namespace Predicate

open Sql

def skeleton (isTrue : α → Bool) : Predicate α → Predicate Operand
  | and left right => .and (left.skeleton isTrue) (right.skeleton isTrue)
  | or left right => .or (left.skeleton isTrue) (right.skeleton isTrue)
  | not operand => .not (operand.skeleton isTrue)
  | compare field operator operand _ => .compare field operator (.boolean (isTrue operand)) .nowhere
  | search field function operand _ => .search field function (.boolean (isTrue operand)) .nowhere

theorem resolve_eq_ok {catalog : Catalog} {path : Path} {span : Span} {field : Field} :
    resolve catalog path span = .ok field ↔ catalog.lookup path.text = some field := by
  unfold resolve
  split <;> simp_all

theorem resolveOperand_outline {catalog : Catalog} {e : Expr} {field : Option Field}
    (h : resolveOperand catalog e = .ok field) : resolveOperand catalog e.outline = .ok field := by
  cases e with
  | field path span =>
    rw [resolveOperand] at h
    rw [Expr.outline, resolveOperand]
    cases hresolve : resolve catalog path span with
    | error =>
      rw [hresolve] at h
      cases h
    | ok found =>
      rw [hresolve] at h
      rw [resolve_eq_ok.mpr (resolve_eq_ok.mp hresolve)]
      exact h
  | _ => exact h

theorem literalOperand_outline {e : Expr} {value : Literal} (h : literalOperand e = .ok value) :
    literalOperand e.outline = .ok value.outline := by
  cases e with
  | literal =>
    cases h
    rfl
  | _ => cases h

section Binding

variable {catalog : Catalog} {p : Predicate Literal}

/-- What the outline of an expression is bound to, given what the expression is. -/
def BoundAlike (catalog : Catalog) (e : Expr) (p : Predicate Literal) : Prop :=
  ∃ q, bindExpr catalog e = .ok q ∧ q.skeleton Literal.isTrue = p.skeleton Literal.isTrue

theorem bindComparison_outline {operator : Comparison} {left right : Expr} {span : Span}
    (h : bindComparison catalog operator left right = .ok p) :
    BoundAlike catalog (Expr.compare operator left right span).outline p := by
  obtain ⟨leftField, hleft, h⟩ := bind_eq_ok.mp h
  obtain ⟨rightField, hright, h⟩ := bind_eq_ok.mp h
  have hleft := resolveOperand_outline hleft
  have hright := resolveOperand_outline hright
  cases leftField with
  | none =>
    cases rightField with
    | none => cases h
    | some field =>
      obtain ⟨value, hvalue, h⟩ := bind_eq_ok.mp h
      cases h
      refine ⟨.compare field operator.flip value.outline left.outline.span, ?_, ?_⟩
      · refine bind_eq_ok.mpr ⟨_, hleft, bind_eq_ok.mpr ⟨_, hright, ?_⟩⟩
        exact bind_eq_ok.mpr ⟨_, literalOperand_outline hvalue, rfl⟩
      · rw [skeleton, skeleton, Literal.isTrue_outline]
  | some field =>
    cases rightField with
    | some => cases h
    | none =>
      obtain ⟨value, hvalue, h⟩ := bind_eq_ok.mp h
      cases h
      refine ⟨.compare field operator value.outline right.outline.span, ?_, ?_⟩
      · refine bind_eq_ok.mpr ⟨_, hleft, bind_eq_ok.mpr ⟨_, hright, ?_⟩⟩
        exact bind_eq_ok.mpr ⟨_, literalOperand_outline hvalue, rfl⟩
      · rw [skeleton, skeleton, Literal.isTrue_outline]

theorem bindCall_outline {name : String} {arguments : List Expr} {span : Span}
    (h : bindCall catalog name arguments span = .ok p) :
    BoundAlike catalog (Expr.call name arguments span).outline p := by
  unfold bindCall at h
  split at h
  case h_1 => cases h
  case h_2 function hname =>
    split at h
    case h_1 path pathSpan needle =>
      obtain ⟨field, hfield, h⟩ := bind_eq_ok.mp h
      split at h
      case isFalse => cases h
      case isTrue hsupports =>
        obtain ⟨value, hvalue, h⟩ := bind_eq_ok.mp h
        cases h
        refine ⟨.search field function value.outline needle.outline.span, ?_, ?_⟩
        · simp only [Expr.outline, Expr.outlineAll, bindExpr, bindCall, hname]
          refine bind_eq_ok.mpr ⟨field, resolve_eq_ok.mpr (resolve_eq_ok.mp hfield), ?_⟩
          rw [if_pos hsupports]
          exact bind_eq_ok.mpr ⟨_, literalOperand_outline hvalue, rfl⟩
        · rw [skeleton, skeleton, Literal.isTrue_outline]
    case h_2 => cases h
    case h_3 => cases h

theorem bindField_outline {path : Path} {span : Span} (h : bindField catalog path span = .ok p) :
    BoundAlike catalog (Expr.field path span).outline p := by
  obtain ⟨field, hfield, h⟩ := bind_eq_ok.mp h
  split at h
  case isFalse => cases h
  case isTrue htype =>
    cases h
    refine ⟨.compare field .equal (.boolean true) .nowhere, ?_, rfl⟩
    refine bind_eq_ok.mpr ⟨field, resolve_eq_ok.mpr (resolve_eq_ok.mp hfield), ?_⟩
    rw [if_pos htype]

/-- Binding looks at no text and no number. -/
theorem bindExpr_outline {e : Expr} (h : bindExpr catalog e = .ok p) : BoundAlike catalog e.outline p := by
  fun_induction bindExpr catalog e generalizing p with
  | case1 left right span ihl ihr =>
    obtain ⟨l, hl, h⟩ := bind_eq_ok.mp h
    obtain ⟨r, hr, h⟩ := bind_eq_ok.mp h
    cases h
    obtain ⟨l', hl', hls⟩ := ihl hl
    obtain ⟨r', hr', hrs⟩ := ihr hr
    refine ⟨.and l' r', bind_eq_ok.mpr ⟨l', hl', bind_eq_ok.mpr ⟨r', hr', rfl⟩⟩, ?_⟩
    rw [skeleton, skeleton, hls, hrs]
  | case2 left right span ihl ihr =>
    obtain ⟨l, hl, h⟩ := bind_eq_ok.mp h
    obtain ⟨r, hr, h⟩ := bind_eq_ok.mp h
    cases h
    obtain ⟨l', hl', hls⟩ := ihl hl
    obtain ⟨r', hr', hrs⟩ := ihr hr
    refine ⟨.or l' r', bind_eq_ok.mpr ⟨l', hl', bind_eq_ok.mpr ⟨r', hr', rfl⟩⟩, ?_⟩
    rw [skeleton, skeleton, hls, hrs]
  | case3 operand span ih =>
    obtain ⟨q, hq, h⟩ := bind_eq_ok.mp h
    cases h
    obtain ⟨q', hq', hqs⟩ := ih hq
    refine ⟨.not q', bind_eq_ok.mpr ⟨q', hq', rfl⟩, ?_⟩
    rw [skeleton, skeleton, hqs]
  | case4 operator left right span => exact bindComparison_outline h
  | case5 name arguments span => exact bindCall_outline h
  | case6 path span => exact bindField_outline h
  | case7 value span => cases h

end Binding

theorem coerce_isTrue {field : Field} {literal : Literal} {span : Span} {operand : Operand}
    (h : coerce field literal span = .ok operand) : operand.isTrue = literal.isTrue := by
  unfold coerce at h
  split at h
  -- Where a further test is made, only the branch that passes it gives an operand.
  case h_3 =>
    split at h <;> cases h
    rfl
  case h_7 =>
    split at h <;> cases h
    rfl
  case h_9 =>
    split at h <;> cases h
    rfl
  case h_10 => cases h
  all_goals
    cases h
    rfl

theorem needle_isTrue {function : StringFunction} {literal : Literal} {span : Span} {operand : Operand}
    (h : needle function literal span = .ok operand) : operand.isTrue = literal.isTrue := by
  unfold needle at h
  split at h <;> cases h
  rfl

theorem check_skeleton {p : Predicate Literal} {q : Predicate Operand} (h : p.check = .ok q) :
    q.skeleton Operand.isTrue = p.skeleton Literal.isTrue := by
  induction p generalizing q with
  | and left right ihl ihr | or left right ihl ihr =>
    obtain ⟨l, hl, h⟩ := bind_eq_ok.mp h
    obtain ⟨r, hr, h⟩ := bind_eq_ok.mp h
    cases h
    rw [skeleton, skeleton, ihl hl, ihr hr]
  | not operand ih =>
    obtain ⟨q, hq, h⟩ := bind_eq_ok.mp h
    cases h
    rw [skeleton, skeleton, ih hq]
  | compare field operator literal span =>
    obtain ⟨-, -, h⟩ := bind_eq_ok.mp h
    obtain ⟨operand, hoperand, h⟩ := bind_eq_ok.mp h
    cases h
    rw [skeleton, skeleton, coerce_isTrue hoperand]
  | search field function literal span =>
    obtain ⟨operand, hoperand, h⟩ := bind_eq_ok.mp h
    cases h
    rw [skeleton, skeleton, needle_isTrue hoperand]

theorem fields_skeleton (isTrue : α → Bool) (p : Predicate α) : (p.skeleton isTrue).fields = p.fields := by
  induction p with
  | and left right ihl ihr | or left right ihl ihr => rw [skeleton, fields, fields, ihl, ihr]
  | not operand ih => rw [skeleton, fields, fields, ih]
  | compare => rfl
  | search => rfl

end Predicate

namespace Sql

def Piece.masked : Piece → Piece
  | .text sql => .text sql
  | .parameter _ => .parameter (.boolean false)

theorem textFrom_masked (d : Dialect) (index : Nat) (pieces : List Piece) :
    textFrom d index (pieces.map Piece.masked) = textFrom d index pieces := by
  induction pieces generalizing index with
  | nil => rfl
  | cons piece pieces ih =>
    cases piece with
    | text sql => rw [List.map_cons, Piece.masked, textFrom, textFrom, ih]
    | parameter value => rw [List.map_cons, Piece.masked, textFrom, textFrom, ih]

theorem Leaf.masked_pieces {a b : Leaf} (h : a.sql = b.sql) :
    a.pieces.map Piece.masked = b.pieces.map Piece.masked := by
  unfold pieces
  rw [h]
  rfl

theorem compareLeaf_sql (d : Dialect) (f : Field) (operator : Comparison) {a b : Operand}
    (h : a.isTrue = b.isTrue) : (compareLeaf d f operator a).sql = (compareLeaf d f operator b).sql := by
  unfold compareLeaf
  split
  · rfl
  · dsimp only
    rw [a.beq_true, b.beq_true, h]
  · rfl

end Sql

namespace Predicate

open Sql

theorem masked_skeleton (d : Dialect) (p : Predicate Operand) :
    ((p.skeleton Operand.isTrue).pieces d).map Piece.masked = (p.pieces d).map Piece.masked := by
  induction p with
  | and left right ihl ihr | or left right ihl ihr => simp only [skeleton, pieces, List.map_append, ihl, ihr]
  | not operand ih => simp only [skeleton, pieces, List.map_append, ih]
  | compare field operator operand =>
    apply Leaf.masked_pieces
    apply compareLeaf_sql
    cases h : operand.isTrue <;> rfl
  | search field function operand => exact Leaf.masked_pieces rfl

/-- Predicates of one skeleton have one text and touch the same fields. -/
theorem textFrom_of_skeleton {p q : Predicate Operand}
    (h : p.skeleton Operand.isTrue = q.skeleton Operand.isTrue) (d : Dialect) (index : Nat) :
    textFrom d index (p.pieces d) = textFrom d index (q.pieces d) := by
  rw [← textFrom_masked, ← masked_skeleton, h, masked_skeleton, textFrom_masked]

theorem referencedFields_of_skeleton {p q : Predicate Operand}
    (h : p.skeleton Operand.isTrue = q.skeleton Operand.isTrue) :
    p.referencedFields = q.referencedFields := by
  have hfields : p.fields = q.fields := by
    rw [← fields_skeleton Operand.isTrue p, h, fields_skeleton]
  unfold referencedFields
  rw [hfields]

end Predicate

end FilterSql
