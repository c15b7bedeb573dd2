import FilterSql.Catalog.Basic
import FilterSql.Expr.Basic
import FilterSql.Predicate.Basic
import FilterSql.Predicate.Error

/-! Predicates from expressions: every name is looked up in a catalog, and comparisons are turned so that
the field stands on the left. An unknown name is reported before any other fault. -/
namespace FilterSql

namespace Expr

mutual
def names : Expr → List (Path × Span)
  | literal .. => []
  | field path span => [(path, span)]
  | connect _ left right _ => left.names ++ right.names
  | not operand _ => operand.names
  | compare _ left right _ => left.names ++ right.names
  | call _ arguments _ => namesOfAll arguments

def namesOfAll : List Expr → List (Path × Span)
  | [] => []
  | e :: es => e.names ++ namesOfAll es
end

end Expr

namespace Predicate

def unknown (catalog : Catalog) (name : Path × Span) : Bool := (catalog.lookup name.1.text).isNone

def checkNames (catalog : Catalog) (e : Expr) : Except SemanticError Unit :=
  match e.names.find? (unknown catalog) with
  | some (path, span) => .error (.unknownField path.text span)
  | none => .ok ()

def resolve (catalog : Catalog) (path : Path) (span : Span) : Except SemanticError Field :=
  match catalog.lookup path.text with
  | some field => .ok field
  | none => .error (.unknownField path.text span)

def mismatch (span : Span) (cause : Mismatch) : Except SemanticError α :=
  .error (.typeMismatch cause span)

def literalOperand : Expr → Except SemanticError Literal
  | .literal value _ => .ok value
  | e => mismatch e.span (.notLiteral e.describe)

def resolveOperand (catalog : Catalog) : Expr → Except SemanticError (Option Field)
  | .field path span => (resolve catalog path span).map some
  | _ => .ok none

def bindComparison (catalog : Catalog) (operator : Comparison) (left right : Expr) :
    Except SemanticError (Predicate Literal) := do
  let leftField ← resolveOperand catalog left
  let rightField ← resolveOperand catalog right
  match leftField, rightField with
  | some field, none =>
    let value ← literalOperand right
    .ok (.compare field operator value right.span)
  | none, some field =>
    let value ← literalOperand left
    .ok (.compare field operator.flip value left.span)
  | some _, some _ => mismatch (left.span.cover right.span) .twoFields
  | none, none => mismatch (left.span.cover right.span) .noField

def bindCall (catalog : Catalog) (name : String) (arguments : List Expr) (span : Span) :
    Except SemanticError (Predicate Literal) :=
  match StringFunction.ofName? name with
  | none => .error (.unsupportedFunction name none span)
  | some function =>
    match arguments with
    | [.field path pathSpan, needle] => do
      let field ← resolve catalog path pathSpan
      if field.supports function then
        let value ← literalOperand needle
        .ok (.search field function value needle.span)
      else .error (.unsupportedFunction name (some field.name) span)
    | [target, _] => mismatch target.span (.targetNotField name target.describe)
    | _ => mismatch span (.argumentCount name arguments.length)

/-- A field on its own stands for its being true. -/
def bindField (catalog : Catalog) (path : Path) (span : Span) :
    Except SemanticError (Predicate Literal) := do
  let field ← resolve catalog path span
  if field.type = .boolean then .ok (.compare field .equal (.boolean true) span)
  else mismatch span (.fieldAlone field.type field.name)

def bindExpr (catalog : Catalog) : Expr → Except SemanticError (Predicate Literal)
  | .connect .and left right _ => do
    let left ← bindExpr catalog left
    let right ← bindExpr catalog right
    .ok (.and left right)
  | .connect .or left right _ => do
    let left ← bindExpr catalog left
    let right ← bindExpr catalog right
    .ok (.or left right)
  | .not operand _ => do
    let operand ← bindExpr catalog operand
    .ok (.not operand)
  | .compare operator left right _ => bindComparison catalog operator left right
  | .call name arguments span => bindCall catalog name arguments span
  | .field path span => bindField catalog path span
  | .literal value span => mismatch span (.literalAlone value.typeName)

/-- The predicate an expression stands for, with its literals as they were written. -/
def bind (catalog : Catalog) (e : Expr) : Except SemanticError (Predicate Literal) := do
  checkNames catalog e
  bindExpr catalog e

end Predicate

end FilterSql
