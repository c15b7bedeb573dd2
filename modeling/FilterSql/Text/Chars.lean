/-! Character classes of the filter language and the measures used to locate text in a source. Names
and numerals are ASCII, so every class here is an ASCII class. -/
namespace FilterSql.Text

def isHexDigit (c : Char) : Bool :=
  c.isDigit || ('a' ≤ c && c ≤ 'f') || ('A' ≤ c && c ≤ 'F')

def isNameStart (c : Char) : Bool := c.isAlpha || c == '_'

def isNamePart (c : Char) : Bool := isNameStart c || c.isDigit

/-- A character that glues itself to a number or a word before it. -/
def isWordChar (c : Char) : Bool := isNamePart c || c == '.'

def isBlank (c : Char) : Bool := c == ' ' || c == '\t' || c == '\r' || c == '\n'

def hexValue (c : Char) : Nat :=
  if c.isDigit then c.toNat - '0'.toNat
  else if 'a' ≤ c then c.toNat - 'a'.toNat + 10
  else c.toNat - 'A'.toNat + 10

def byteLength (cs : List Char) : Nat := cs.foldl (fun n c => n + c.utf8Size) 0

def isIdentifier : List Char → Bool
  | [] => false
  | c :: cs => isNameStart c && cs.all isNamePart

def isDottedName (cs : List Char) : Bool := (cs.splitOn '.').all isIdentifier

def copies (n : Nat) (s : String) : String := String.join (List.replicate n s)

def padRight (width : Nat) (s : String) : String := s ++ copies (width - s.length) " "

end FilterSql.Text
