import FilterSql.Value

/-! Compiled filters: an SQL condition with placeholders, and the values to bind to them in order. -/
namespace FilterSql

structure Statement where
  fragment : String
  parameters : List Value
  /-- Sorted, each field once. -/
  referencedFields : List String
deriving DecidableEq, Inhabited

namespace Statement

def references (s : Statement) (field : String) : Bool := s.referencedFields.contains field

def json (s : Statement) : Json :=
  .object [("fragment", .text s.fragment), ("parameters", .array (s.parameters.map Value.json)),
    ("referenced_fields", .texts s.referencedFields)]

end Statement

end FilterSql
