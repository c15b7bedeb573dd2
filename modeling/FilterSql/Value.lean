import FilterSql.Literal
import FilterSql.Text.Json

/-! The values that are handed to the database beside a statement. -/
namespace FilterSql

inductive Value where
  | int32 (value : Int)
  | int64 (value : Int)
  | float (value : Binary64)
  | text (value : String)
  | boolean (value : Bool)
deriving DecidableEq, Inhabited

namespace Value

def shown : Value → String
  | int32 n => toString n
  | int64 n => toString n
  | float x => Binary64.Layout.plain.write x
  | text s => Text.quote s
  | boolean b => boolText b

def json : Value → Json
  | int32 n => .integer n
  | int64 n => .integer n
  | float x => .number (Binary64.Layout.json.write x)
  | text s => .text s
  | boolean b => .bool b

end Value

end FilterSql
