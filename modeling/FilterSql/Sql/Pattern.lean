import FilterSql.Dialect
import FilterSql.Operator

/-! Patterns for matching a text literally. A `LIKE` pattern sets `!` before each character with a meaning
of its own; a `GLOB` pattern puts such a character in a class by itself. -/
namespace FilterSql.Sql

def likeEscape : Char := '!'

def likeChar (c : Char) : List Char :=
  if c = '%' ∨ c = '_' ∨ c = likeEscape then [likeEscape, c] else [c]

def globChar (c : Char) : List Char :=
  if c = '*' ∨ c = '?' ∨ c = '[' then ['[', c, ']'] else [c]

/-- Leaves open the sides of an escaped text on which the function allows more. -/
def openSides (wildcard : Char) (escaped : List Char) : StringFunction → List Char
  | .contains => wildcard :: (escaped ++ [wildcard])
  | .startsWith => escaped ++ [wildcard]
  | .endsWith => wildcard :: escaped

def likePattern (function : StringFunction) (needle : List Char) : List Char :=
  openSides '%' (needle.flatMap likeChar) function

def globPattern (function : StringFunction) (needle : List Char) : List Char :=
  openSides '*' (needle.flatMap globChar) function

def pattern (d : Dialect) (function : StringFunction) (needle : String) : String :=
  String.ofList (match d with
    | .mysql => likePattern function needle.toList
    | .postgres => likePattern function needle.toList
    | .sqlite => globPattern function needle.toList)

end FilterSql.Sql
