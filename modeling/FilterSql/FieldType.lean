import FilterSql.Dialect

/-! What the values of a field mean. An enumeration lists its literals with the text each is stored as,
which may differ by dialect. -/
namespace FilterSql

inductive NumberWidth where
  | int32
  | int64
  | float64
deriving DecidableEq, Inhabited

namespace NumberWidth

def name : NumberWidth → String
  | int32 => "Int32"
  | int64 => "Int64"
  | float64 => "Float64"

def isIntegral : NumberWidth → Bool
  | float64 => false
  | _ => true

end NumberWidth

structure Variant where
  literal : String
  stored : String
  overrides : Overrides := []
deriving DecidableEq, Inhabited

namespace Variant

def encoding (v : Variant) (d : Dialect) : String := (v.overrides.get? d).getD v.stored

def json (v : Variant) : Json :=
  .object [("literal", .text v.literal), ("stored", .text v.stored), ("overrides", v.overrides.json)]

end Variant

structure EnumType where
  name : String
  variants : List Variant := []
deriving DecidableEq, Inhabited

namespace EnumType

def editLast (f : Variant → Variant) : List Variant → List Variant
  | [] => []
  | [v] => [f v]
  | v :: vs => v :: editLast f vs

def variantStoredAs (e : EnumType) (literal stored : String) : EnumType :=
  { e with variants := e.variants ++ [⟨literal, stored, []⟩] }

def variant (e : EnumType) (literal : String) : EnumType := e.variantStoredAs literal literal

/-- Sets how the variant declared last is stored in one dialect. -/
def storedFor (e : EnumType) (d : Dialect) (stored : String) : EnumType :=
  { e with variants := editLast (fun v => { v with overrides := v.overrides.set d stored }) e.variants }

inductive Step where
  | variant (literal : String)
  | variantStoredAs (literal stored : String)
  | storedFor (dialect : Dialect) (stored : String)
deriving DecidableEq

def apply (e : EnumType) : Step → EnumType
  | .variant literal => e.variant literal
  | .variantStoredAs literal stored => e.variantStoredAs literal stored
  | .storedFor dialect stored => e.storedFor dialect stored

def ofSteps (name : String) (steps : List Step) : EnumType := steps.foldl apply ⟨name, []⟩

/-- The first variant of a literal. -/
def resolve? (e : EnumType) (literal : String) : Option Variant :=
  e.variants.find? (·.literal == literal)

def literals (e : EnumType) : List String := e.variants.map (·.literal)

def json (e : EnumType) : Json :=
  .object [("name", .text e.name), ("variants", .array (e.variants.map Variant.json))]

end EnumType

inductive FieldType where
  | text
  | number (width : NumberWidth)
  | boolean
  | enum (type : EnumType)
  | timestamp
deriving DecidableEq, Inhabited

namespace FieldType

def isOrdered : FieldType → Bool
  | number _ => true
  | timestamp => true
  | _ => false

def name : FieldType → String
  | text => "string"
  | number _ => "number"
  | boolean => "boolean"
  | enum _ => "enum"
  | timestamp => "timestamp"

def shown : FieldType → String
  | number width => "number(" ++ width.name ++ ")"
  | enum type => "enum " ++ type.name
  | other => other.name

def json : FieldType → Json
  | text => .text "String"
  | number width => .object [("Number", .text width.name)]
  | boolean => .text "Boolean"
  | enum type => .object [("Enum", type.json)]
  | timestamp => .text "Timestamp"

end FieldType

end FilterSql
