/-! JSON documents and their two written forms. Members keep the order they are given in, and a number
is held as the text to be written. -/
namespace FilterSql

inductive Json where
  | null
  | bool (value : Bool)
  | number (numeral : String)
  | text (value : String)
  | array (items : List Json)
  | object (members : List (String × Json))
deriving Inhabited

namespace Json

def natural (n : Nat) : Json := .number (toString n)

def integer (n : Int) : Json := .number (toString n)

def texts (items : List String) : Json := .array (items.map .text)

def hexDigit (n : Nat) : Char := if n < 10 then Char.ofNat (48 + n) else Char.ofNat (87 + n)

/-- Controls are escaped, with a short escape where the format has one; all else is written as it is. -/
def escapeChar (c : Char) : List Char :=
  if c = '"' then ['\\', '"']
  else if c = '\\' then ['\\', '\\']
  else if c = '\x08' then ['\\', 'b']
  else if c = '\x0c' then ['\\', 'f']
  else if c = '\n' then ['\\', 'n']
  else if c = '\r' then ['\\', 'r']
  else if c = '\t' then ['\\', 't']
  else if c.toNat < 0x20 then
    ['\\', 'u', '0', '0', hexDigit (c.toNat / 16), hexDigit (c.toNat % 16)]
  else [c]

def quoted (s : String) : String :=
  "\"" ++ String.ofList (s.toList.flatMap escapeChar) ++ "\""

def atom : Json → String
  | .null => "null"
  | .bool true => "true"
  | .bool false => "false"
  | .number n => n
  | .text s => quoted s
  | .array _ => "[]"
  | .object _ => "\x7b\x7d"

mutual
def compact : Json → String
  | .array items => "[" ++ ",".intercalate (compactItems items) ++ "]"
  | .object members => "\x7b" ++ ",".intercalate (compactMembers members) ++ "\x7d"
  | j => atom j

def compactItems : List Json → List String
  | [] => []
  | j :: js => compact j :: compactItems js

def compactMembers : List (String × Json) → List String
  | [] => []
  | (key, j) :: rest => (quoted key ++ ":" ++ compact j) :: compactMembers rest
end

/-- A bracketed block with one entry a line, indented one step more than the brackets. -/
def block (indent : String) (opening closing : String) (entries : List String) : String :=
  match entries with
  | [] => opening ++ closing
  | _ =>
    let inner := indent ++ "  "
    opening ++ "\n" ++ ",\n".intercalate (entries.map (inner ++ ·)) ++ "\n" ++ indent ++ closing

mutual
/-- The form for readers: one entry a line, two spaces a step. -/
def prettyAt (indent : String) : Json → String
  | .array items => block indent "[" "]" (prettyItems (indent ++ "  ") items)
  | .object members => block indent "\x7b" "\x7d" (prettyMembers (indent ++ "  ") members)
  | j => atom j

def prettyItems (indent : String) : List Json → List String
  | [] => []
  | j :: js => prettyAt indent j :: prettyItems indent js

def prettyMembers (indent : String) : List (String × Json) → List String
  | [] => []
  | (key, j) :: rest => (quoted key ++ ": " ++ prettyAt indent j) :: prettyMembers indent rest
end

def pretty (j : Json) : String := prettyAt "" j

end Json

end FilterSql
