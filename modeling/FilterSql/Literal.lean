import FilterSql.Text.Quoted
import FilterSql.Number.Layout

/-! Literals of the filter language. -/
namespace FilterSql

inductive Literal where
  | text (value : String)
  | integer (value : Int)
  | decimal (value : Binary64)
  | boolean (value : Bool)
deriving DecidableEq, Inhabited

def boolText (b : Bool) : String := if b then "true" else "false"

namespace Literal

def typeName : Literal → String
  | .text _ => "string"
  | .integer _ => "integer"
  | .decimal _ => "decimal"
  | .boolean _ => "boolean"

def shown : Literal → String
  | .text s => Text.quote s
  | .integer n => toString n
  | .decimal x => Binary64.Layout.plain.write x
  | .boolean b => boolText b

end Literal

end FilterSql
