import FilterSql.Literal
import FilterSql.Operator
import FilterSql.Source.Span

/-! Tokens of a filter expression. -/
namespace FilterSql

inductive Symbol where
  | compare (operator : Comparison)
  | connect (connective : Connective)
  | not
  | leftParen
  | rightParen
  | comma
deriving DecidableEq, Inhabited

def Symbol.text : Symbol → String
  | .compare operator => operator.symbol
  | .connect connective => connective.symbol
  | .not => Negation.symbol
  | .leftParen => "("
  | .rightParen => ")"
  | .comma => ","

def Symbol.all : List Symbol :=
  Comparison.all.map .compare ++
    [.connect .and, .connect .or, .not, .leftParen, .rightParen, .comma]

inductive Token.Kind where
  | literal (value : Literal)
  | name (word : String)
  /-- A word with an opening parenthesis right behind it. -/
  | call (word : String)
  | symbol (sign : Symbol)
  | finish
deriving DecidableEq, Inhabited

def Token.Kind.text : Token.Kind → String
  | .literal value => value.shown
  | .name word => word
  | .call word => word ++ "("
  | .symbol sign => sign.text
  | .finish => "end of input"

structure Token where
  kind : Token.Kind
  lexeme : String
  span : Span
deriving DecidableEq, Inhabited

def Token.finish (span : Span) : Token := ⟨.finish, "", span⟩

end FilterSql
