import FilterSql.FieldType
import FilterSql.Operator

/-! The fields a filter may name, and where their values live. -/
namespace FilterSql

inductive Field.Source where
  | column (column : String)
  | jsonScalar (column : String) (path : List String)
  /-- A JSON array of texts; equality means membership. -/
  | jsonArray (column : String) (path : List String)
  /-- Whether a status column holds a certain text. -/
  | statusFlag (column : String) (value : String)
deriving DecidableEq, Inhabited

namespace Field.Source

def columnName : Source → String
  | column c => c
  | jsonScalar c _ => c
  | jsonArray c _ => c
  | statusFlag c _ => c

def path? : Source → Option (List String)
  | jsonScalar _ path => some path
  | jsonArray _ path => some path
  | _ => none

def isArray : Source → Bool
  | jsonArray .. => true
  | _ => false

def json : Source → Json
  | column c => .object [("kind", .text "column"), ("column", .text c)]
  | jsonScalar c path =>
    .object [("kind", .text "json_scalar"), ("column", .text c), ("path", .texts path)]
  | jsonArray c path =>
    .object [("kind", .text "json_array"), ("column", .text c), ("path", .texts path)]
  | statusFlag c value =>
    .object [("kind", .text "status_flag"), ("column", .text c), ("value", .text value)]

def shown : Source → String
  | column c => c
  | jsonScalar c path => c ++ "." ++ ".".intercalate path
  | jsonArray c path => c ++ "." ++ ".".intercalate path ++ "[]"
  | statusFlag c value => c ++ " = " ++ value

end Field.Source

structure Field where
  name : String
  type : FieldType
  table : String := ""
  source : Field.Source
  functions : List StringFunction := []
  /-- SQL that stands for the field in some dialects. -/
  overrides : Overrides := []
deriving DecidableEq, Inhabited

namespace Field

def ofColumn (name : String) (type : FieldType) (column : String) : Field :=
  { name, type, source := .column column }

def ofJson (name : String) (type : FieldType) (column : String) (path : List String) : Field :=
  { name, type, source := .jsonScalar column path }

def ofJsonArray (name column : String) (path : List String) : Field :=
  { name, type := .text, source := .jsonArray column path }

def ofStatusFlag (name column value : String) : Field :=
  { name, type := .boolean, source := .statusFlag column value }

def addFunction (known : List StringFunction) (g : StringFunction) : List StringFunction :=
  if g ∈ known then known else known ++ [g]

def withFunctions (f : Field) (functions : List StringFunction) : Field :=
  { f with functions := functions.foldl addFunction f.functions }

def withOverride (f : Field) (d : Dialect) (sql : String) : Field :=
  { f with overrides := f.overrides.set d sql }

def supports (f : Field) (function : StringFunction) : Bool := f.functions.contains function

def json (f : Field) : Json :=
  .object ([("name", .text f.name), ("type", f.type.json), ("table", .text f.table),
    ("source", f.source.json), ("functions", .texts (f.functions.map StringFunction.name))] ++
    if f.overrides.isEmpty then [] else [("overrides", f.overrides.json)])

end Field

end FilterSql
