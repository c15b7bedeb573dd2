import FilterSql.Dialect

/-! The kinds of records that can be filtered. -/
namespace FilterSql

inductive Entity where
  | note
  /-- Shown under the name `class`. -/
  | classroom
  | savedQuery
deriving DecidableEq, Inhabited

namespace Entity

def all : List Entity := [note, classroom, savedQuery]

def name : Entity → String
  | note => "note"
  | classroom => "class"
  | savedQuery => "saved_query"

def rank : Entity → Nat
  | note => 0
  | classroom => 1
  | savedQuery => 2

def ofName (s : String) : Except NameError Entity :=
  match Text.foldName s with
  | "note" | "memo" => .ok note
  | "class" => .ok classroom
  | "saved_query" | "shortcut" => .ok savedQuery
  | _ => .error (.entity s)

end Entity

end FilterSql
