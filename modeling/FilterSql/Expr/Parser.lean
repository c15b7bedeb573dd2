import FilterSql.Expr.Basic
import FilterSql.Expr.Error
import FilterSql.Token.Lexer

/-! Reading expressions. `||` binds less tightly than `&&`, which binds less tightly than `!` and the
comparisons; chains of one connective lean to the left.

Every parenthesis, negation, call and chained connective opens a nesting level. The parser for one level
is built from the parser for the next deeper level, so how deep an expression may nest is how many
levels were built. -/
namespace FilterSql

structure Limits where
  maxDepth : Nat := 128
  maxTokens : Nat := 4096
deriving DecidableEq, Inhabited

namespace Limits

def depthCeiling : Nat := 160

def effectiveDepth (l : Limits) : Nat := min l.maxDepth depthCeiling

end Limits

namespace Parser

abbrev Parse (α : Type) := List Token → Except ParseError (α × List Token)

/-- The next token; past the end of a stream there is only its end. -/
def peek (ts : List Token) : Token := ts.headD (.finish ⟨0, 0, 0, 0⟩)

def unexpected (token : Token) (expected : Expected) : ParseError :=
  .unexpectedToken token.kind.text expected token.span

/-- The parsers for what may stand at one nesting level. A tail reads on behind a first operand. -/
structure Level where
  unary : Parse Expr
  andTail : Expr → Parse Expr
  orTail : Expr → Parse Expr

namespace Level

def andExpr (level : Level) : Parse Expr := fun ts => do
  let (left, ts) ← level.unary ts
  level.andTail left ts

def orExpr (level : Level) : Parse Expr := fun ts => do
  let (left, ts) ← level.andExpr ts
  level.orTail left ts

end Level

/-- The next level down, or the refusal to go there. -/
def enter (limit : Nat) (deeper : Option Level) (span : Span) : Except ParseError Level :=
  match deeper with
  | some level => .ok level
  | none => .error (.tooComplex (.depth limit) span)

def group (limit : Nat) (deeper : Option Level) (opening : Span) : Parse Expr := fun ts => do
  let level ← enter limit deeper opening
  let (inner, ts) ← level.orExpr ts
  match (peek ts).kind with
  | .symbol .rightParen => .ok (inner, ts.tail)
  | .finish => .error (.unclosedParen opening)
  | _ => .error (unexpected (peek ts) .rightParen)

/-- Arguments separated by commas, with the span of the parenthesis that closes them. At most `bound`
of them are read; a stream has no more arguments than tokens. -/
def arguments (argument : Parse Expr) (opening : Span) : Nat → Parse (List Expr × Span)
  | 0, ts => .error (.unexpectedEnd .primary (peek ts).span)
  | bound + 1, ts => do
    let (first, ts) ← argument ts
    match (peek ts).kind with
    | .symbol .comma =>
      let ((rest, closing), ts) ← arguments argument opening bound ts.tail
      .ok ((first :: rest, closing), ts)
    | .symbol .rightParen => .ok (([first], (peek ts).span), ts.tail)
    | .finish => .error (.unclosedParen opening)
    | _ => .error (unexpected (peek ts) .commaOrRightParen)

def call (limit : Nat) (deeper : Option Level) (function : String) (name : Span) : Parse Expr :=
  fun ts => do
    let opening := peek ts
    if opening.kind ≠ .symbol .leftParen then .error (unexpected opening .leftParen)
    else
      let level ← enter limit deeper opening.span
      let ts := ts.tail
      match (peek ts).kind with
      | .symbol .rightParen => .ok (.call function [] (name.cover (peek ts).span), ts.tail)
      | _ =>
        let ((args, closing), ts) ← arguments level.orExpr opening.span ts.length ts
        .ok (.call function args (name.cover closing), ts)

def primary (limit : Nat) (deeper : Option Level) : Parse Expr := fun ts =>
  let token := peek ts
  match token.kind with
  | .literal value => .ok (.literal value token.span, ts.tail)
  | .name word => .ok (.field (.ofText word) token.span, ts.tail)
  | .call word => call limit deeper word token.span ts.tail
  | .symbol .leftParen => group limit deeper token.span ts.tail
  | .finish => .error (.unexpectedEnd .primary token.span)
  | .symbol _ => .error (unexpected token .primary)

def comparison (limit : Nat) (deeper : Option Level) : Parse Expr := fun ts => do
  let (left, ts) ← primary limit deeper ts
  match (peek ts).kind with
  | .symbol (.compare operator) =>
    let (right, ts) ← primary limit deeper ts.tail
    .ok (.compare operator left right (left.span.cover right.span), ts)
  | _ => .ok (left, ts)

def unary (limit : Nat) (deeper : Option Level) : Parse Expr := fun ts => do
  let token := peek ts
  if token.kind = .symbol .not then
    let level ← enter limit deeper token.span
    let (operand, ts) ← level.unary ts.tail
    .ok (.not operand (token.span.cover operand.span), ts)
  else comparison limit deeper ts

/-- Reads a chain on: each further connective and its operand stand one level deeper than the last. -/
def chain (limit : Nat) (deeper : Option Level) (connective : Connective)
    (operand : Level → Parse Expr) (tail : Level → Expr → Parse Expr) (left : Expr) :
    Parse Expr := fun ts => do
  let token := peek ts
  if token.kind = .symbol (.connect connective) then
    let level ← enter limit deeper token.span
    let (right, ts) ← operand level ts.tail
    tail level (.join connective left right) ts
  else .ok (left, ts)

def Level.above (limit : Nat) (deeper : Option Level) : Level where
  unary := Parser.unary limit deeper
  andTail := chain limit deeper .and Level.unary Level.andTail
  orTail := chain limit deeper .or Level.andExpr Level.orTail

def level (limit : Nat) : Nat → Level
  | 0 => .above limit none
  | room + 1 => .above limit (some (level limit room))

end Parser

namespace Expr

open FilterSql.Parser

def tokenCount (tokens : List Token) : Nat := tokens.countP fun t => t.kind ≠ .finish

/-- The token that a stream is taken to end with: its own end if it has one, else one behind its last
token. -/
def streamEnd (tokens : List Token) : Token :=
  .finish ((tokens.getLast?.map Token.span).getD ⟨0, 0, 0, 0⟩).atStop

def ofTokens (limits : Limits) (tokens : List Token) : Except ParseError Expr :=
  let count := tokenCount tokens
  if count = 0 then .error .empty
  else if limits.maxTokens < count then
    .error (.tooComplex (.tokens count limits.maxTokens)
      ((tokens[limits.maxTokens]?.map Token.span).getD ⟨0, 0, 0, 0⟩))
  else do
    let depth := limits.effectiveDepth
    let (e, rest) ← (level depth depth).orExpr (tokens ++ [streamEnd tokens])
    match (peek rest).kind with
    | .finish => .ok e
    | .symbol .rightParen => .error (.unmatchedParen (peek rest).span)
    | _ => .error (unexpected (peek rest) .operatorOrEnd)

def ofText (limits : Limits) (source : String) : Except SyntaxError Expr := do
  let tokens ← (tokenize source).mapError .lex
  (ofTokens limits tokens).mapError .parse

end Expr

end FilterSql
