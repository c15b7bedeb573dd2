import FilterSql.Text.Trim
import FilterSql.Text.Json

/-! The SQL dialects a filter can be written in, and values that may differ from dialect to dialect. -/
namespace FilterSql

inductive NameError where
  | dialect (given : String)
  | entity (given : String)
deriving DecidableEq

def NameError.message : NameError → String
  | dialect given => "unsupported SQL dialect: '" ++ given ++ "'"
  | entity given => "unknown entity kind: '" ++ given ++ "'"

inductive Dialect where
  | mysql
  | postgres
  | sqlite
deriving DecidableEq, Inhabited

namespace Dialect

def all : List Dialect := [mysql, postgres, sqlite]

def name : Dialect → String
  | mysql => "MySQL"
  | postgres => "PostgreSQL"
  | sqlite => "SQLite"

def key : Dialect → String
  | mysql => "mysql"
  | postgres => "postgres"
  | sqlite => "sqlite"

def ofKey? (s : String) : Option Dialect := all.find? (·.key == s)

def rank : Dialect → Nat
  | mysql => 0
  | postgres => 1
  | sqlite => 2

def ofName (s : String) : Except NameError Dialect :=
  match Text.foldName s with
  | "mysql" => .ok mysql
  | "postgres" | "postgresql" | "pg" => .ok postgres
  | "sqlite" | "sqlite3" => .ok sqlite
  | _ => .error (.dialect s)

end Dialect

/-- Texts that replace a common one in some dialects; a dialect has at most one. -/
abbrev Overrides := List (Dialect × String)

namespace Overrides

def get? (o : Overrides) (d : Dialect) : Option String := (o.find? (·.1 == d)).map (·.2)

def set (o : Overrides) (d : Dialect) (s : String) : Overrides := o.filter (·.1 != d) ++ [(d, s)]

def json (o : Overrides) : Json := .array (o.map fun e => Json.texts [e.1.key, e.2])

end Overrides

end FilterSql
