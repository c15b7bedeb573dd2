import FilterSql.Literal
import FilterSql.Operator
import FilterSql.Source.Span

/-! Filter expressions. Parentheses leave no trace in the tree. -/
namespace FilterSql

structure Path where
  segments : List String
deriving DecidableEq, Inhabited

namespace Path

def ofText (s : String) : Path := ⟨(s.toList.splitOn '.').map String.ofList⟩

def text (p : Path) : String := ".".intercalate p.segments

end Path

inductive Expr where
  | literal (value : Literal) (span : Span)
  | field (path : Path) (span : Span)
  | connect (connective : Connective) (left right : Expr) (span : Span)
  | not (operand : Expr) (span : Span)
  | compare (operator : Comparison) (left right : Expr) (span : Span)
  | call (function : String) (arguments : List Expr) (span : Span)
deriving Inhabited

namespace Expr

def span : Expr → Span
  | literal _ span => span
  | field _ span => span
  | connect _ _ _ span => span
  | not _ span => span
  | compare _ _ _ span => span
  | call _ _ span => span

def describe : Expr → String
  | literal .. => "literal"
  | field .. => "identifier"
  | connect .. => "boolean expression"
  | not .. => "negation"
  | compare .. => "comparison"
  | call .. => "function call"

def join (connective : Connective) (left right : Expr) : Expr :=
  connect connective left right (left.span.cover right.span)

end Expr

end FilterSql
