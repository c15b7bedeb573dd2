import FilterSql.Toml.Lexical

/-! TOML documents. A document is read line by line into one table; a key that is set twice, or a table
that is defined twice, makes the whole document malformed. -/
namespace FilterSql.Toml

def items? (value : Read Toml) : Nat → Read (List Toml)
  | 0, _ => none
  | bound + 1, cs =>
    match skipLines cs.length cs with
    | ']' :: rest => some ([], rest)
    | cs => do
      let (first, rest) ← value cs
      match skipLines rest.length rest with
      | ',' :: rest => do
        let (others, rest) ← items? value bound rest
        some (first :: others, rest)
      | ']' :: rest => some ([first], rest)
      | _ => none

def setting? (value : Read Toml) : Read ((List String × String) × Toml) := fun cs => do
  let (key, rest) ← key? cs
  let rest ← char? '=' rest
  let (v, rest) ← value (skipGap rest)
  some ((key, v), rest)

def settings? (value : Read Toml) (entries : Entries) : Nat → Read Entries
  | 0, _ => none
  | bound + 1, cs => do
    let (((path, key), v), rest) ← setting? value cs
    let entries ← addDotted key v path entries
    match skipGap rest with
    | ',' :: rest => settings? value entries bound rest
    | '\x7d' :: rest => some (entries, rest)
    | _ => none

/-- A value in which arrays and tables may be nested `depth` deep. -/
def value? : Nat → Read Toml
  | depth, cs =>
    match cs with
    | '"' :: _ => (string? cs).map fun (s, rest) => (.text s, rest)
    | '\'' :: _ => (string? cs).map fun (s, rest) => (.text s, rest)
    | 't' :: 'r' :: 'u' :: 'e' :: rest => some (.boolean true, rest)
    | 'f' :: 'a' :: 'l' :: 's' :: 'e' :: rest => some (.boolean false, rest)
    | '[' :: rest =>
      match depth with
      | 0 => none
      | depth + 1 => (items? (value? depth) rest.length rest).map fun (vs, rest) => (.array vs, rest)
    | '\x7b' :: rest =>
      match depth with
      | 0 => none
      | depth + 1 =>
        match skipGap rest with
        | '\x7d' :: rest => some (.table .inline [], rest)
        | rest =>
          (settings? (value? depth) [] rest.length rest).map fun (entries, rest) =>
            (.table .inline entries, rest)
    | _ => number? cs

def header? (cs : List Char) : Option ((List String × String) × List Char) := do
  let (key, rest) ← key? cs
  let rest ← char? ']' rest
  some (key, rest)

/-- A document in the making: its table, and the path to the table that settings now go to. -/
structure Draft where
  entries : Entries
  current : List String

def line? (draft : Draft) : List Char → Option (Draft × List Char)
  | '[' :: '[' :: cs => do
    let ((path, key), rest) ← header? cs
    let rest ← char? ']' rest
    let entries ← editAt (openElement key) path draft.entries
    some (⟨entries, path ++ [key]⟩, rest)
  | '[' :: cs => do
    let ((path, key), rest) ← header? cs
    let entries ← editAt (openTable key) path draft.entries
    some (⟨entries, path ++ [key]⟩, rest)
  | cs => do
    let (((path, key), v), rest) ← setting? (value? (depthLimit - 1)) cs
    let entries ← editAt (addDotted key v path) draft.current draft.entries
    some ({ draft with entries }, rest)

def lines? (draft : Draft) : Nat → List Char → Option Entries
  | 0, _ => none
  | bound + 1, cs =>
    match skipLines cs.length cs with
    | [] => some draft.entries
    | cs => do
      let (draft, rest) ← line? draft cs
      lines? draft bound (← lineEnd? rest)

def parse? (source : String) : Option Entries :=
  let cs := match source.toList with
    | '\ufeff' :: cs => cs
    | cs => cs
  lines? ⟨[], []⟩ (cs.length + 1) cs

end FilterSql.Toml
