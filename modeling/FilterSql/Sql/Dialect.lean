import FilterSql.FieldType
import FilterSql.Sql.Pattern
import FilterSql.Value

/-! How each dialect writes what a predicate needs. Column expressions come in ready to be used, and the
path segments of a catalog are letters, digits and underscores, so they are written as they are. -/
namespace FilterSql

/-- SQL text around exactly one placeholder. -/
structure Sql.Template where
  before : String
  after : String
deriving DecidableEq, Inhabited

def Sql.Template.fill (t : Template) (placeholder : String) : String := t.before ++ placeholder ++ t.after

namespace Dialect

open Sql

def quote : Dialect → String → String
  | mysql, name => "`" ++ name ++ "`"
  | postgres, name => "\"" ++ name ++ "\""
  | sqlite, name => "\"" ++ name ++ "\""

def quoteColumn (d : Dialect) (table column : String) : String := d.quote table ++ "." ++ d.quote column

def placeholder : Dialect → Nat → String
  | postgres, index => "$" ++ toString (index + 1)
  | mysql, _ => "?"
  | sqlite, _ => "?"

def encodeBool : Dialect → Bool → Value
  | postgres, b => .boolean b
  | mysql, b => .int32 (if b then 1 else 0)
  | sqlite, b => .int32 (if b then 1 else 0)

/-- A text expression that is compared with regard to case, which MySQL has to be told. -/
def caseSensitive : Dialect → String → String
  | mysql, expr => expr ++ " COLLATE utf8mb4_bin"
  | postgres, expr => expr
  | sqlite, expr => expr

def jsonPath : Dialect → List String → String
  | postgres, path => "'\x7b" ++ ",".intercalate path ++ "\x7d'"
  | mysql, path => "'$." ++ ".".intercalate path ++ "'"
  | sqlite, path => "'$." ++ ".".intercalate path ++ "'"

/-- A value taken out of a JSON column, as the type asked for. A missing boolean is false. -/
def jsonScalar (d : Dialect) (column : String) (path : List String) (type : FieldType) : String :=
  match d with
  | postgres =>
    let text := "(" ++ column ++ " #>> " ++ d.jsonPath path ++ ")"
    match type with
    | .boolean => "(CAST(" ++ text ++ " AS BOOLEAN) IS TRUE)"
    | .number .int32 => "CAST(" ++ text ++ " AS INTEGER)"
    | .number .int64 => "CAST(" ++ text ++ " AS BIGINT)"
    | .timestamp => "CAST(" ++ text ++ " AS BIGINT)"
    | .number .float64 => "CAST(" ++ text ++ " AS DOUBLE PRECISION)"
    | .text => text
    | .enum _ => text
  | mysql =>
    let value := "JSON_EXTRACT(" ++ column ++ ", " ++ d.jsonPath path ++ ")"
    match type with
    | .boolean => "(" ++ value ++ " IS TRUE)"
    | .text => "JSON_UNQUOTE(" ++ value ++ ")"
    | .enum _ => "JSON_UNQUOTE(" ++ value ++ ")"
    | .number _ => value
    | .timestamp => value
  | sqlite =>
    let value := "json_extract(" ++ column ++ ", " ++ d.jsonPath path ++ ")"
    match type with
    | .boolean => "(" ++ value ++ " IS TRUE)"
    | _ => value

/-- Whether a JSON array holds the parameter; false, and never unknown, if there is no array. -/
def arrayContains (d : Dialect) (column : String) (path : List String) : Template :=
  match d with
  | postgres =>
    ⟨"COALESCE((" ++ column ++ " #> " ++ d.jsonPath path ++ ") @> jsonb_build_array(CAST(",
     " AS TEXT)), FALSE)"⟩
  | mysql =>
    ⟨"COALESCE(JSON_CONTAINS(" ++ column ++ ", JSON_QUOTE(", "), " ++ d.jsonPath path ++ "), 0)"⟩
  | sqlite =>
    ⟨"EXISTS (SELECT 1 FROM json_each(" ++ column ++ ", " ++ d.jsonPath path ++
      ") WHERE json_each.value = ", ")"⟩

def textMatches (d : Dialect) (expr : String) : Template :=
  match d with
  | postgres => ⟨expr ++ " LIKE ", " ESCAPE '" ++ likeEscape.toString ++ "'"⟩
  | mysql => ⟨d.caseSensitive expr ++ " LIKE ", " ESCAPE '" ++ likeEscape.toString ++ "'"⟩
  | sqlite => ⟨expr ++ " GLOB ", ""⟩

end Dialect

end FilterSql
