import FilterSql.Number.Numeral
import FilterSql.Token.Basic

/-! Cutting the first lexeme off a text. Each rule gives the length of the lexeme it finds at the front;
the rules stand in a fixed order and the first that applies wins, so every non-empty text has exactly
one first lexeme. -/
namespace FilterSql.Lexeme

open FilterSql.Text

inductive Shape where
  | closedString
  | openString
  | number
  | badNumber
  | symbol (sign : Symbol)
  | boolean (value : Bool)
  | call
  | name
  | illegal
deriving DecidableEq

def continuesWord : List Char → Bool
  | [] => false
  | c :: _ => isWordChar c

/-- The length up to and including the closing quote, given `n` characters already passed. A backslash
takes the next character with it. -/
def closingQuote? (n : Nat) : List Char → Option Nat
  | [] => none
  | '"' :: _ => some (n + 1)
  | '\\' :: _ :: cs => closingQuote? (n + 2) cs
  | _ :: cs => closingQuote? (n + 1) cs

def signLength : List Char → Nat
  | '-' :: _ => 1
  | _ => 0

def digitsLength (cs : List Char) : Nat := (cs.takeWhile Char.isDigit).length

def fractionLength : List Char → Nat
  | '.' :: cs => if digitsLength cs = 0 then 0 else digitsLength cs + 1
  | _ => 0

def number? (cs : List Char) : Option Nat :=
  let sign := signLength cs
  let whole := digitsLength (cs.drop sign)
  let fraction := fractionLength (cs.drop (sign + whole))
  let length := sign + whole + fraction
  if whole = 0 ∨ continuesWord (cs.drop length) then none else some length

def badNumber? (cs : List Char) : Option Nat :=
  let sign := signLength cs
  match cs.drop sign with
  | c :: rest => if c.isDigit then some (sign + 1 + (rest.takeWhile isWordChar).length) else none
  | [] => none

def symbol? : List Char → Option (Symbol × Nat)
  | '&' :: '&' :: _ => some (.connect .and, 2)
  | '|' :: '|' :: _ => some (.connect .or, 2)
  | '=' :: '=' :: _ => some (.compare .equal, 2)
  | '!' :: '=' :: _ => some (.compare .notEqual, 2)
  | '<' :: '=' :: _ => some (.compare .lessEqual, 2)
  | '>' :: '=' :: _ => some (.compare .greaterEqual, 2)
  | '<' :: _ => some (.compare .less, 1)
  | '>' :: _ => some (.compare .greater, 1)
  | '!' :: _ => some (.not, 1)
  | '(' :: _ => some (.leftParen, 1)
  | ')' :: _ => some (.rightParen, 1)
  | ',' :: _ => some (.comma, 1)
  | _ => none

def boolean? : List Char → Option (Bool × Nat)
  | 't' :: 'r' :: 'u' :: 'e' :: cs => if continuesWord cs then none else some (true, 4)
  | 'f' :: 'a' :: 'l' :: 's' :: 'e' :: cs => if continuesWord cs then none else some (false, 5)
  | _ => none

def word? : List Char → Option Nat
  | c :: cs => if isNameStart c then some (1 + (cs.takeWhile isNamePart).length) else none
  | [] => none

/-- An identifier with an opening parenthesis right behind it, which is not part of the lexeme. -/
def call? (cs : List Char) : Option Nat :=
  (word? cs).filter fun n => (cs.drop n).head? == some '('

def startsName : List Char → Bool
  | [] => false
  | c :: _ => isNameStart c

/-- The length of the rest of a dotted name, given `n` characters already passed. A dot belongs to the
name only if an identifier follows it. -/
def dotted (n : Nat) : List Char → Nat
  | [] => n
  | c :: cs =>
    if isNamePart c || (c == '.' && startsName cs) then dotted (n + 1) cs else n

def name? (cs : List Char) : Option Nat :=
  if startsName cs then some (dotted 0 cs) else none

def cut (cs : List Char) : Shape × Nat :=
  match cs with
  | '"' :: body =>
    match closingQuote? 1 body with
    | some n => (.closedString, n)
    | none => (.openString, cs.length)
  | _ =>
    let found := (number? cs).map (Prod.mk .number)
      <|> (badNumber? cs).map (Prod.mk .badNumber)
      <|> (symbol? cs).map (Prod.map .symbol id)
      <|> (boolean? cs).map (Prod.map .boolean id)
      <|> (call? cs).map (Prod.mk .call)
      <|> (name? cs).map (Prod.mk .name)
    found.getD (.illegal, 1)

end FilterSql.Lexeme
