import FilterSql.Number.Binary64

/-! TOML values and the building of tables. -/
namespace FilterSql

/-- How a table came to be, which decides who may add to it. -/
inductive Toml.Origin where
  /-- Written out in braces; nothing is ever added. -/
  | inline
  | header
  /-- On the way to a table under a header. -/
  | implied
  /-- On the way of a dotted key. -/
  | dotted
deriving DecidableEq

inductive Toml where
  | text (value : String)
  | integer (value : Int)
  | float (value : Binary64)
  | boolean (value : Bool)
  | moment
  | array (items : List Toml)
  | table (origin : Toml.Origin) (entries : List (String × Toml))
  | tables (items : List (List (String × Toml)))

namespace Toml

abbrev Entries := List (String × Toml)

def isEmpty : Toml → Bool
  | .array items => items.isEmpty
  | .table _ entries => entries.isEmpty
  | .tables items => items.isEmpty
  | _ => false

def find? (entries : Entries) (key : String) : Option Toml := (entries.find? (·.1 == key)).map (·.2)

def replace (entries : Entries) (key : String) (value : Toml) : Entries :=
  entries.map fun e => if e.1 == key then (key, value) else e

def editLast (f : Entries → Option Entries) : List Entries → Option (List Entries)
  | [] => none
  | [t] => (f t).map ([·])
  | t :: ts => (editLast f ts).map (t :: ·)

def add (key : String) (value : Toml) (entries : Entries) : Option Entries :=
  if (find? entries key).isSome then none else some (entries ++ [(key, value)])

/-- Adds a value under a dotted key. Tables are made on the way; one that has a header of its own is not
entered, and the last one must have been made by dotted keys. -/
def addDotted (key : String) (value : Toml) : List String → Entries → Option Entries
  | [], entries => add key value entries
  | p :: path, entries =>
    match find? entries p with
    | none => (addDotted key value path []).map fun inner => entries ++ [(p, .table .dotted inner)]
    | some (.table origin inner) =>
      if origin = .dotted ∨ (origin = .implied ∧ path ≠ []) then
        (addDotted key value path inner).map fun inner => replace entries p (.table origin inner)
      else none
    | some (.tables items) =>
      if path = [] then none
      else (editLast (addDotted key value path) items).map fun items => replace entries p (.tables items)
    | some _ => none

/-- Applies a step to the table that a header's path leads to, making tables on the way. -/
def editAt (f : Entries → Option Entries) : List String → Entries → Option Entries
  | [], entries => f entries
  | p :: path, entries =>
    match find? entries p with
    | none => (editAt f path []).map fun inner => entries ++ [(p, .table .implied inner)]
    | some (.table origin inner) =>
      if origin = .inline then none
      else (editAt f path inner).map fun inner => replace entries p (.table origin inner)
    | some (.tables items) =>
      (editLast (editAt f path) items).map fun items => replace entries p (.tables items)
    | some _ => none

def openTable (key : String) (entries : Entries) : Option Entries :=
  match find? entries key with
  | none => some (entries ++ [(key, .table .header [])])
  | some (.table .implied inner) => some (replace entries key (.table .header inner))
  | some _ => none

def openElement (key : String) (entries : Entries) : Option Entries :=
  match find? entries key with
  | none => some (entries ++ [(key, .tables [[]])])
  | some (.tables items) => some (replace entries key (.tables (items ++ [[]])))
  | some _ => none

end Toml

end FilterSql
