import FilterSql.Number.Numeral
import FilterSql.Predicate.Bind

/-! Operands brought to the type of their field. Checking keeps the shape of a predicate and reports the
leftmost fault. -/
namespace FilterSql

inductive Operand where
  | text (value : String)
  | int32 (value : Int)
  | int64 (value : Int)
  | float (value : Binary64)
  | boolean (value : Bool)
  /-- Seconds since the epoch. -/
  | timestamp (second : Int)
  | enum (variant : Variant)
deriving DecidableEq, Inhabited

namespace Predicate

def checkOperator (field : Field) (operator : Comparison) (span : Span) :
    Except SemanticError Unit :=
  if operator.isOrdering ∧ field.type.isOrdered = false then
    mismatch span (.notOrdered operator field.type field.name)
  else .ok ()

def coerce (field : Field) (literal : Literal) (span : Span) : Except SemanticError Operand :=
  match field.type, literal with
  | .text, .text s => .ok (.text s)
  | .boolean, .boolean b => .ok (.boolean b)
  | .number .int32, .integer n =>
    if Numeral.fitsInt32 n then .ok (.int32 n) else mismatch span (.outOfRange n field.name)
  | .number .int64, .integer n => .ok (.int64 n)
  | .number .float64, .integer n => .ok (.float (.ofInt n))
  | .number .float64, .decimal x => .ok (.float x)
  | .enum type, .text s =>
    match type.resolve? s with
    | some variant => .ok (.enum variant)
    | none => mismatch span (.noVariant s type)
  | .timestamp, .integer n => .ok (.timestamp n)
  | .timestamp, .text s =>
    match Rfc3339.epochSecond s with
    | .ok second => .ok (.timestamp second)
    | .error fault => mismatch span (.noTimestamp s fault)
  | type, literal => mismatch span (.incomparable type field.name literal)

def needle (function : StringFunction) (literal : Literal) (span : Span) :
    Except SemanticError Operand :=
  match literal with
  | .text s => .ok (.text s)
  | other => mismatch span (.needleNotText function other)

def check : Predicate Literal → Except SemanticError (Predicate Operand)
  | and left right => do
    let left ← check left
    let right ← check right
    .ok (.and left right)
  | or left right => do
    let left ← check left
    let right ← check right
    .ok (.or left right)
  | not operand => do
    let operand ← check operand
    .ok (.not operand)
  | compare field operator literal span => do
    checkOperator field operator span
    let operand ← coerce field literal span
    .ok (.compare field operator operand span)
  | search field function literal span => do
    let operand ← needle function literal span
    .ok (.search field function operand span)

end Predicate

end FilterSql
