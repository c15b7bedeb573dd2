import FilterSql.Token.Lexeme
import FilterSql.Token.Unescape

/-! Tokens of a source text, in order and with their places. The first malformed lexeme ends the reading
with its error. -/
namespace FilterSql

namespace Lexeme

def numberKind (p : Position) (lexeme : List Char) : Except LexError Token.Kind :=
  if lexeme.contains '.' then .ok (.literal (.decimal (Numeral.decimal lexeme)))
  else
    let n := Numeral.integer lexeme
    if Numeral.fitsInt64 n then .ok (.literal (.integer n))
    else .error (.invalidNumber (String.ofList lexeme) (p.span lexeme))

def kind (p : Position) (lexeme : List Char) : Shape → Except LexError Token.Kind
  | .closedString =>
    match unescape (p.span lexeme) (lexeme.take 1) [] ((lexeme.drop 1).dropLast) with
    | .ok cs => .ok (.literal (.text (String.ofList cs)))
    | .error e => .error e
  | .openString => .error (.unterminatedString (p.span lexeme))
  | .number => numberKind p lexeme
  | .badNumber => .error (.invalidNumber (String.ofList lexeme) (p.span lexeme))
  | .symbol sign => .ok (.symbol sign)
  | .boolean value => .ok (.literal (.boolean value))
  | .call => .ok (.call (String.ofList lexeme))
  | .name => .ok (.name (String.ofList lexeme))
  | .illegal => .error (.illegalCharacter (lexeme.headD '\x00') (p.span lexeme))

end Lexeme

/-- Reads on from place `p`, behind the tokens `done`, which are in reverse order. The end has no token yet. -/
def tokensFrom (p : Position) (done : List Token) (cs : List Char) :
    Except LexError (List Token) :=
  match _h : cs.dropWhile Text.isBlank with
  | [] => .ok done.reverse
  | c :: rest =>
    let here := p.after (cs.takeWhile Text.isBlank)
    let (shape, length) := Lexeme.cut (c :: rest)
    let lexeme := c :: rest.take (length - 1)
    match Lexeme.kind here lexeme shape with
    | .error e => .error e
    | .ok kind =>
      let token : Token := ⟨kind, String.ofList lexeme, here.span lexeme⟩
      tokensFrom (here.after lexeme) (token :: done) (rest.drop (length - 1))
termination_by cs.length
decreasing_by
  have h := (List.dropWhile_sublist Text.isBlank (l := cs)).length_le
  simp_all
  omega

/-- The tokens of a source text; the last one marks its end, whose place is counted from the start. -/
def tokenize (source : String) : Except LexError (List Token) := do
  let tokens ← tokensFrom .start [] source.toList
  .ok (tokens ++ [.finish ((Source.place source.toList).span [])])

end FilterSql
