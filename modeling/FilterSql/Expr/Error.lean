import FilterSql.Token.Error

/-! Why a token stream is no filter expression. -/
namespace FilterSql

inductive Expected where
  | primary
  | operatorOrEnd
  | leftParen
  | rightParen
  | commaOrRightParen
deriving DecidableEq

def Expected.text : Expected → String
  | primary => "a field, literal, function call or '('"
  | operatorOrEnd => "'&&', '||' or end of input"
  | leftParen => "'('"
  | rightParen => "')'"
  | commaOrRightParen => "',' or ')'"

inductive Guard where
  | depth (limit : Nat)
  | tokens (count limit : Nat)
deriving DecidableEq

def Guard.text : Guard → String
  | depth limit => s!"nesting deeper than {limit} levels"
  | tokens count limit => s!"{count} tokens exceeds the limit of {limit}"

inductive ParseError where
  | empty
  | unexpectedToken (found : String) (expected : Expected) (span : Span)
  | unexpectedEnd (expected : Expected) (span : Span)
  | unclosedParen (span : Span)
  | unmatchedParen (span : Span)
  | tooComplex (guard : Guard) (span : Span)
deriving DecidableEq

namespace ParseError

def span? : ParseError → Option Span
  | empty => none
  | unexpectedToken _ _ span => some span
  | unexpectedEnd _ span => some span
  | unclosedParen span => some span
  | unmatchedParen span => some span
  | tooComplex _ span => some span

def isTooComplex : ParseError → Bool
  | tooComplex .. => true
  | _ => false

def message : ParseError → String
  | empty => "filter expression is empty"
  | unexpectedToken found expected span =>
    "unexpected token '" ++ found ++ "' at " ++ span.text ++ ", expected " ++ expected.text
  | unexpectedEnd expected span =>
    "expression ends unexpectedly at " ++ span.text ++ ", expected " ++ expected.text
  | unclosedParen span => "parenthesis opened at " ++ span.text ++ " is never closed"
  | unmatchedParen span => "unmatched ')' at " ++ span.text
  | tooComplex guard _ => "expression is too complex: " ++ guard.text

end ParseError

inductive SyntaxError where
  | lex (error : LexError)
  | parse (error : ParseError)
deriving DecidableEq

def SyntaxError.message : SyntaxError → String
  | lex error => error.message
  | parse error => error.message

end FilterSql
