import FilterSql.Catalog.Field
import FilterSql.Instant.Rfc3339
import FilterSql.Literal
import FilterSql.Source.Span

/-! Why an expression means nothing over a catalog. -/
namespace FilterSql

inductive Mismatch where
  | twoFields
  | noField
  | notLiteral (found : String)
  | fieldAlone (type : FieldType) (field : String)
  | literalAlone (typeName : String)
  | argumentCount (function : String) (count : Nat)
  | targetNotField (function found : String)
  | notOrdered (operator : Comparison) (type : FieldType) (field : String)
  | outOfRange (value : Int) (field : String)
  | noVariant (given : String) (type : EnumType)
  | noTimestamp (given : String) (fault : Rfc3339.Fault)
  | incomparable (type : FieldType) (field : String) (operand : Literal)
  | needleNotText (function : StringFunction) (operand : Literal)
deriving DecidableEq

def Mismatch.message : Mismatch → String
  | twoFields => "comparing two fields is not supported"
  | noField => "comparison must reference a field"
  | notLiteral found => "expected a literal operand, found " ++ found
  | fieldAlone type field =>
    type.shown ++ " field '" ++ field ++ "' cannot be used as a condition on its own"
  | literalAlone typeName => typeName ++ " literal cannot be used as a condition"
  | argumentCount function count =>
    function ++ "() takes a field and a string, got " ++ toString count ++ " argument(s)"
  | targetNotField function found =>
    "first argument of " ++ function ++ "() must be a field, found " ++ found
  | notOrdered operator type field =>
    "operator '" ++ operator.symbol ++ "' is not defined for " ++ type.shown ++ " field '" ++ field ++ "'"
  | outOfRange value field => toString value ++ " is out of range for 32-bit field '" ++ field ++ "'"
  | noVariant given type =>
    Text.quote given ++ " is not a valid " ++ type.name ++ " (expected one of " ++
      ", ".intercalate type.literals ++ ")"
  | noTimestamp given fault =>
    Text.quote given ++ " is not an RFC 3339 timestamp: " ++ fault.message
  | incomparable type field operand =>
    "cannot compare " ++ type.shown ++ " field '" ++ field ++ "' with " ++ operand.typeName ++ " " ++
      operand.shown
  | needleNotText function operand =>
    function.name ++ "() expects a string, found " ++ operand.typeName ++ " " ++ operand.shown

inductive SemanticError where
  | unknownField (name : String) (span : Span)
  | unsupportedFunction (name : String) (field : Option String) (span : Span)
  | typeMismatch (cause : Mismatch) (span : Span)
deriving DecidableEq

namespace SemanticError

def span : SemanticError → Span
  | unknownField _ span => span
  | unsupportedFunction _ _ span => span
  | typeMismatch _ span => span

def message : SemanticError → String
  | unknownField name span => "unknown field '" ++ name ++ "' at " ++ span.text
  | unsupportedFunction name none span =>
    "function '" ++ name ++ "' is not supported at " ++ span.text
  | unsupportedFunction name (some field) span =>
    "function '" ++ name ++ "' is not supported for field '" ++ field ++ "' at " ++ span.text
  | typeMismatch cause span => "type mismatch at " ++ span.text ++ ": " ++ cause.message

end SemanticError

end FilterSql
