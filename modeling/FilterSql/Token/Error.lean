import FilterSql.Source.Caret

/-! What can be wrong with a lexeme. -/
namespace FilterSql

inductive LexError where
  | unterminatedString (span : Span)
  | invalidEscape (escape : String) (span : Span)
  | illegalCharacter (character : Char) (span : Span)
  | invalidNumber (lexeme : String) (span : Span)
deriving DecidableEq

namespace LexError

def span : LexError → Span
  | unterminatedString span => span
  | invalidEscape _ span => span
  | illegalCharacter _ span => span
  | invalidNumber _ span => span

def message : LexError → String
  | unterminatedString span => "unterminated string literal starting at " ++ span.text
  | invalidEscape escape span => "invalid escape sequence '" ++ escape ++ "' at " ++ span.text
  | illegalCharacter c span => "illegal character '" ++ c.toString ++ "' at " ++ span.text
  | invalidNumber lexeme span => "invalid number '" ++ lexeme ++ "' at " ++ span.text

def shownIn (e : LexError) (source : String) : String :=
  Source.underlined e.message e.span source

end LexError

end FilterSql
