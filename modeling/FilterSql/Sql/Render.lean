import FilterSql.Predicate.Check
import FilterSql.Sql.Draft

/-! Predicates as SQL. Every leaf and every connective stands in parentheses of its own, so `NOT` needs
none; a leaf has exactly one parameter, and no operand ever becomes text. -/
namespace FilterSql

def Comparison.sql : Comparison → String
  | equal => " = "
  | notEqual => " <> "
  | less => " < "
  | lessEqual => " <= "
  | greater => " > "
  | greaterEqual => " >= "

def Operand.encode (d : Dialect) : Operand → Value
  | text s => .text s
  | int32 n => .int32 n
  | int64 n => .int64 n
  | timestamp n => .int64 n
  | float x => .float x
  | boolean b => d.encodeBool b
  | enum variant => .text (variant.encoding d)

def Operand.needle (d : Dialect) : Operand → String
  | text s => s
  | other => (other.encode d).shown

/-- The SQL for a field's value: what the catalog says for the dialect, else where the value lives. -/
def Field.valueSql (f : Field) (d : Dialect) : String :=
  match f.overrides.get? d with
  | some sql => sql
  | none =>
    let column := d.quoteColumn f.table f.source.columnName
    match f.source with
    | .jsonScalar _ path => d.jsonScalar column path f.type
    | _ => column

namespace Sql

/-- A predicate over one field: SQL with one placeholder, and its parameter. -/
structure Leaf where
  sql : Template
  parameter : Value
deriving DecidableEq

def compareLeaf (d : Dialect) (f : Field) (operator : Comparison) (operand : Operand) : Leaf :=
  let column := d.quoteColumn f.table f.source.columnName
  match f.source with
  | .jsonArray _ path =>
    let contains := d.arrayContains column path
    let negation := if operator = .notEqual then "NOT " else ""
    ⟨⟨negation ++ contains.before, contains.after⟩, operand.encode d⟩
  | .statusFlag _ value =>
    let holds := (operator == .equal) == (operand == .boolean true)
    ⟨⟨column ++ (if holds then " = " else " <> "), ""⟩, .text value⟩
  | _ =>
    let lhs := if f.type = .text then d.caseSensitive (f.valueSql d) else f.valueSql d
    ⟨⟨lhs ++ operator.sql, ""⟩, operand.encode d⟩

def searchLeaf (d : Dialect) (f : Field) (function : StringFunction) (operand : Operand) : Leaf :=
  ⟨d.textMatches (f.valueSql d), .text (pattern d function (operand.needle d))⟩

def Leaf.pieces (leaf : Leaf) : List Piece :=
  [.text ("(" ++ leaf.sql.before), .parameter leaf.parameter, .text (leaf.sql.after ++ ")")]

end Sql

namespace Predicate

open Sql

def pieces (d : Dialect) : Predicate Operand → List Piece
  | and left right => [.text "("] ++ left.pieces d ++ [.text " AND "] ++ right.pieces d ++ [.text ")"]
  | or left right => [.text "("] ++ left.pieces d ++ [.text " OR "] ++ right.pieces d ++ [.text ")"]
  | not operand => [.text "NOT "] ++ operand.pieces d
  | compare field operator operand _ => (compareLeaf d field operator operand).pieces
  | search field function operand _ => (searchLeaf d field function operand).pieces

def renderOn (p : Predicate Operand) (draft : Draft) : Option Draft :=
  draft.pushAll (p.pieces draft.dialect)

/-- The SQL and the parameters of a predicate, its placeholders numbered on from `offset`. There is none
if the numbers run out. -/
def render (p : Predicate Operand) (d : Dialect) (offset : Nat) : Option (String × List Value) :=
  (p.renderOn ⟨d, offset, "", []⟩).map fun draft => (draft.sql, draft.parameters)

end Predicate

end FilterSql
