import FilterSql.Catalog.Field
import FilterSql.Source.Span

/-! Predicates over the fields of a catalog, with operands of any kind: literals once names are resolved,
typed operands once types are checked. -/
namespace FilterSql

inductive Predicate (α : Type) where
  | and (left right : Predicate α)
  | or (left right : Predicate α)
  | not (operand : Predicate α)
  | compare (field : Field) (operator : Comparison) (operand : α) (span : Span)
  | search (field : Field) (function : StringFunction) (operand : α) (span : Span)
deriving DecidableEq, Inhabited

def insertName (name : String) : List String → List String
  | [] => [name]
  | n :: ns =>
    if name < n then name :: n :: ns
    else if name = n then n :: ns
    else n :: insertName name ns

namespace Predicate

def fields : Predicate α → List Field
  | and left right => left.fields ++ right.fields
  | or left right => left.fields ++ right.fields
  | not operand => operand.fields
  | compare field .. => [field]
  | search field .. => [field]

/-- The names of the fields a predicate touches, sorted and each once. -/
def referencedFields (p : Predicate α) : List String :=
  (p.fields.map Field.name).foldl (fun names name => insertName name names) []

end Predicate

end FilterSql
