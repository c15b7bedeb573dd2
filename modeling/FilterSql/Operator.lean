/-! The operators and string functions of the filter language. -/
namespace FilterSql

inductive Comparison where
  | equal
  | notEqual
  | greater
  | less
  | greaterEqual
  | lessEqual
deriving DecidableEq, Inhabited

namespace Comparison

def all : List Comparison := [equal, notEqual, greater, less, greaterEqual, lessEqual]

def isOrdering : Comparison → Bool
  | equal | notEqual => false
  | _ => true

/-- The operator that says the same with its operands swapped. -/
def flip : Comparison → Comparison
  | equal => equal
  | notEqual => notEqual
  | greater => less
  | less => greater
  | greaterEqual => lessEqual
  | lessEqual => greaterEqual

def symbol : Comparison → String
  | equal => "=="
  | notEqual => "!="
  | greater => ">"
  | less => "<"
  | greaterEqual => ">="
  | lessEqual => "<="

def name : Comparison → String
  | equal => "Equal"
  | notEqual => "NotEqual"
  | greater => "GreaterThan"
  | less => "LessThan"
  | greaterEqual => "GreaterOrEqual"
  | lessEqual => "LessOrEqual"

end Comparison

inductive Connective where
  | and
  | or
deriving DecidableEq, Inhabited

namespace Connective

def symbol : Connective → String
  | and => "&&"
  | or => "||"

def name : Connective → String
  | and => "And"
  | or => "Or"

end Connective

namespace Negation

def symbol : String := "!"

def name : String := "Not"

end Negation

inductive StringFunction where
  | contains
  | startsWith
  | endsWith
deriving DecidableEq, Inhabited

namespace StringFunction

def all : List StringFunction := [contains, startsWith, endsWith]

def name : StringFunction → String
  | contains => "contains"
  | startsWith => "startsWith"
  | endsWith => "endsWith"

def ofName? (s : String) : Option StringFunction := all.find? (·.name == s)

end StringFunction

end FilterSql
