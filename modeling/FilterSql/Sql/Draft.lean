import FilterSql.Sql.Dialect

/-! SQL text in the making, with the parameters bound so far. Placeholders are numbered on from those that
the caller has bound before the draft. -/
namespace FilterSql.Sql

inductive Piece where
  | text (sql : String)
  | parameter (value : Value)
deriving DecidableEq

/-- The largest placeholder number, that of a sixty-four bit word. -/
def maxPlaceholder : Nat := 18446744073709551615

structure Draft where
  dialect : Dialect
  offset : Nat
  sql : String := ""
  parameters : List Value := []
deriving DecidableEq

namespace Draft

/-- Binds a parameter and gives its placeholder without writing it. There is no placeholder past the
largest number. -/
def bind (draft : Draft) (value : Value) : Option (String × Draft) :=
  let index := draft.offset + draft.parameters.length
  if index + 1 ≤ maxPlaceholder then
    some (draft.dialect.placeholder index,
      { draft with parameters := draft.parameters ++ [value] })
  else none

def push (draft : Draft) (sql : String) : Draft := { draft with sql := draft.sql ++ sql }

def pushParameter (draft : Draft) (value : Value) : Option Draft :=
  (draft.bind value).map fun (placeholder, draft) => draft.push placeholder

def pushPiece (draft : Draft) : Piece → Option Draft
  | .text sql => some (draft.push sql)
  | .parameter value => draft.pushParameter value

def pushAll (draft : Draft) : List Piece → Option Draft
  | [] => some draft
  | piece :: pieces => (draft.pushPiece piece).bind fun draft => draft.pushAll pieces

end Draft

end FilterSql.Sql
