import FilterSql.Token.Error

/-! The text a string literal denotes. -/
namespace FilterSql.Lexeme

open FilterSql.Text

def shortEscape? (c : Char) : Option Char :=
  if c = '"' ∨ c = '\\' ∨ c = '/' then some c
  else if c = 'n' then some '\n'
  else if c = 't' then some '\t'
  else if c = 'r' then some '\r'
  else none

/-- The character of four hexadecimal digits; a surrogate or zero is no character of a text. -/
def codeEscape? (a b c d : Char) : Option Char :=
  let code := ((hexValue a * 16 + hexValue b) * 16 + hexValue c) * 16 + hexValue d
  if [a, b, c, d].all isHexDigit ∧ code.isValidChar ∧ code ≠ 0 then some (Char.ofNat code) else none

/-- The escape as far as it reads as one: at most four digits behind the `u`. -/
def brokenCode (cs : List Char) : List Char := '\\' :: 'u' :: (cs.take 4).takeWhile isHexDigit

def invalidEscape (literal : Span) (passed escape : List Char) : LexError :=
  .invalidEscape (String.ofList escape) (literal.inner passed.reverse escape)

/-- Decodes the body of a literal. The characters that are passed and those that they stand for are in
reverse order; the place of a fault is counted from the start of the literal. The leftmost fault is the one
reported. -/
def unescape (literal : Span) (passed done : List Char) : List Char → Except LexError (List Char)
  | [] => .ok done.reverse
  | '\\' :: 'u' :: a :: b :: c :: d :: cs =>
    match codeEscape? a b c d with
    | some ch => unescape literal (d :: c :: b :: a :: 'u' :: '\\' :: passed) (ch :: done) cs
    | none => .error (invalidEscape literal passed (brokenCode [a, b, c, d]))
  | '\\' :: 'u' :: cs => .error (invalidEscape literal passed (brokenCode cs))
  | '\\' :: e :: cs =>
    match shortEscape? e with
    | some ch => unescape literal (e :: '\\' :: passed) (ch :: done) cs
    | none => .error (invalidEscape literal passed ['\\', e])
  | ['\\'] => .error (invalidEscape literal passed ['\\'])
  | c :: cs =>
    if c = '\x00' then .error (.illegalCharacter c (literal.inner passed.reverse [c]))
    else unescape literal (c :: passed) (c :: done) cs

end FilterSql.Lexeme
