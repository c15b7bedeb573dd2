import FilterSql.Instant.Calendar
import FilterSql.Number.Numeral
import FilterSql.Toml.Value

/-! The parts of a TOML document below its values: blanks, strings, keys, numbers and dates. A reader gives
what is left of the text, or nothing if the text is malformed. -/
namespace FilterSql.Toml

open FilterSql.Text

abbrev Read (α : Type) := List Char → Option (α × List Char)

def isGap (c : Char) : Bool := c == ' ' || c == '\t'

def skipGap (cs : List Char) : List Char := cs.dropWhile isGap

/-- A character that may stand in a comment or a string: a tab or no control character. -/
def isContent (c : Char) : Bool := c == '\t' || (0x20 ≤ c.toNat && c.toNat != 0x7f)

def newline? : List Char → Option (List Char)
  | '\n' :: cs => some cs
  | '\r' :: '\n' :: cs => some cs
  | _ => none

def skipComment : List Char → List Char
  | '#' :: cs => cs.dropWhile isContent
  | cs => cs

def lineEnd? (cs : List Char) : Option (List Char) :=
  match skipComment (skipGap cs) with
  | [] => some []
  | rest => newline? rest

def skipLines : Nat → List Char → List Char
  | 0, cs => cs
  | bound + 1, cs =>
    let rest := skipComment (skipGap cs)
    match newline? rest with
    | some rest => skipLines bound rest
    | none => rest

def codePoint? (digits : List Char) : Option Char :=
  let code := digits.foldl (fun n c => 16 * n + hexValue c) 0
  if digits.all isHexDigit ∧ code.isValidChar then some (Char.ofNat code) else none

def escape? : Read Char
  | 'u' :: a :: b :: c :: d :: cs => (codePoint? [a, b, c, d]).map (·, cs)
  | 'U' :: a :: b :: c :: d :: e :: f :: g :: h :: cs =>
    (codePoint? [a, b, c, d, e, f, g, h]).map (·, cs)
  | 'b' :: cs => some ('\x08', cs)
  | 't' :: cs => some ('\t', cs)
  | 'n' :: cs => some ('\n', cs)
  | 'f' :: cs => some ('\x0c', cs)
  | 'r' :: cs => some ('\r', cs)
  | '"' :: cs => some ('"', cs)
  | '\\' :: cs => some ('\\', cs)
  | _ => none

def shortString (q : Char) (done : List Char) : Nat → Read (List Char)
  | bound + 1, c :: cs =>
    if c = q then some (done.reverse, cs)
    else if c = '\\' ∧ q = '"' then
      (escape? cs).bind fun (ch, cs) => shortString q (ch :: done) bound cs
    else if isContent c then shortString q (c :: done) bound cs
    else none
  | _, _ => none

/-- What is left behind blanks and line ends. A carriage return goes only with its line feed. -/
def skipBlankLines : List Char → List Char
  | '\r' :: '\n' :: cs => skipBlankLines cs
  | c :: cs => if isGap c || c == '\n' then skipBlankLines cs else c :: cs
  | [] => []

/-- A backslash at the end of a line, which takes all blanks and line ends behind it with it. -/
def continuation? (cs : List Char) : Option (List Char) := (newline? (skipGap cs)).map skipBlankLines

/-- The rest of a string over several lines, up to three quotes `q`; two more may stand before them. -/
def longString (q : Char) (done : List Char) : Nat → Read (List Char)
  | bound + 1, c :: cs =>
    if c = q then
      match cs with
      | c₁ :: c₂ :: rest =>
        if c₁ = q ∧ c₂ = q then
          let extra := min 2 (rest.takeWhile (· == q)).length
          some (done.reverse ++ List.replicate extra q, rest.drop extra)
        else longString q (c :: done) bound cs
      | _ => none
    else if c = '\\' ∧ q = '"' then
      match continuation? cs with
      | some rest => longString q done bound rest
      | none => (escape? cs).bind fun (ch, cs) => longString q (ch :: done) bound cs
    else if isContent c then longString q (c :: done) bound cs
    else (newline? (c :: cs)).bind fun rest => longString q ('\n' :: done) bound rest
  | _, _ => none

def skipFirstNewline (cs : List Char) : List Char := (newline? cs).getD cs

def string? : Read String
  | '"' :: '"' :: '"' :: cs => (longString '"' [] cs.length (skipFirstNewline cs)).map asText
  | '\'' :: '\'' :: '\'' :: cs => (longString '\'' [] cs.length (skipFirstNewline cs)).map asText
  | '"' :: cs => (shortString '"' [] cs.length cs).map asText
  | '\'' :: cs => (shortString '\'' [] cs.length cs).map asText
  | _ => none
where
  asText (p : List Char × List Char) : String × List Char := (String.ofList p.1, p.2)

def isBareKey (c : Char) : Bool := isNamePart c || c == '-'

def keyPart? : Read String
  | '"' :: cs => (shortString '"' [] cs.length cs).map fun (s, cs) => (String.ofList s, cs)
  | '\'' :: cs => (shortString '\'' [] cs.length cs).map fun (s, cs) => (String.ofList s, cs)
  | cs =>
    let word := cs.takeWhile isBareKey
    if word = [] then none else some (String.ofList word, cs.dropWhile isBareKey)

/-- A key has less than this many parts, and values are nested less deep. -/
def depthLimit : Nat := 80

def keyParts? : Nat → Read (List String)
  | 0, _ => none
  | bound + 1, cs =>
    (keyPart? (skipGap cs)).bind fun (part, rest) =>
      match skipGap rest with
      | '.' :: rest => (keyParts? bound rest).map fun (parts, rest) => (part :: parts, rest)
      | rest => some ([part], rest)

def key? (cs : List Char) : Option ((List String × String) × List Char) :=
  (keyParts? (depthLimit - 1) cs).bind fun (parts, rest) =>
    parts.getLast?.map fun last => ((parts.dropLast, last), rest)

def digitRun? (isDigit : Char → Bool) : List Char → Option (List Char × List Char)
  | [] => none
  | c :: cs => if isDigit c then some (more [c] cs) else none
where
  more (done : List Char) : List Char → List Char × List Char
    | '_' :: c :: cs => if isDigit c then more (c :: done) cs else (done.reverse, '_' :: c :: cs)
    | c :: cs => if isDigit c then more (c :: done) cs else (done.reverse, c :: cs)
    | [] => (done.reverse, [])

def sign : List Char → Bool × List Char
  | '-' :: cs => (true, cs)
  | '+' :: cs => (false, cs)
  | cs => (false, cs)

def decimalDigits? : List Char → Option (List Char × List Char)
  | '0' :: cs => some (['0'], cs)
  | cs => digitRun? Char.isDigit cs

def exponent? (cs : List Char) : Option (Int × List Char) :=
  match cs with
  | [] => none
  | c :: rest =>
    if c = 'e' ∨ c = 'E' then
      let (negative, rest) := sign rest
      (digitRun? Char.isDigit rest).map fun (ds, rest) =>
        (if negative then -(Numeral.natural ds : Int) else Numeral.natural ds, rest)
    else none

/-- A number with a fraction or an exponent. One that rounds to positive infinity is refused. -/
def float? : Read Toml := fun cs =>
  let (negative, rest) := sign cs
  match rest with
  | 'i' :: 'n' :: 'f' :: rest => some (.float (Binary64.infinity negative), rest)
  | 'n' :: 'a' :: 'n' :: rest => some (.float Binary64.notANumber, rest)
  | _ => do
    let (whole, rest) ← decimalDigits? rest
    let (fraction, exponent, rest) ← match rest with
      | '.' :: rest => do
        let (fraction, rest) ← digitRun? Char.isDigit rest
        match exponent? rest with
        | some (e, rest) => some (fraction, e, rest)
        | none => some (fraction, 0, rest)
      | _ => do
        let (e, rest) ← exponent? rest
        some ([], e, rest)
    let x := Numeral.double negative whole fraction exponent
    if x = Binary64.infinity false then none else some (.float x, rest)

def isOctal (c : Char) : Bool := '0' ≤ c && c ≤ '7'

def isBinary (c : Char) : Bool := c == '0' || c == '1'

def integerOf (n : Int) (rest : List Char) : Option (Toml × List Char) :=
  if Numeral.fitsInt64 n then some (.integer n, rest) else none

def integer? : Read Toml
  | '0' :: 'x' :: cs => (digitRun? isHexDigit cs).bind fun (ds, rest) =>
    integerOf (ds.foldl (fun n c => 16 * n + hexValue c) 0 : Nat) rest
  | '0' :: 'o' :: cs => (digitRun? isOctal cs).bind fun (ds, rest) =>
    integerOf (ds.foldl (fun n c => 8 * n + hexValue c) 0 : Nat) rest
  | '0' :: 'b' :: cs => (digitRun? isBinary cs).bind fun (ds, rest) =>
    integerOf (ds.foldl (fun n c => 2 * n + hexValue c) 0 : Nat) rest
  | cs =>
    let (negative, rest) := sign cs
    (decimalDigits? rest).bind fun (ds, rest) =>
      integerOf (if negative then -(Numeral.natural ds : Int) else Numeral.natural ds) rest

def fixed? (n low high : Nat) : Read Nat := fun cs =>
  let ds := cs.take n
  let value := Numeral.natural ds
  if ds.length = n ∧ ds.all Char.isDigit ∧ low ≤ value ∧ value ≤ high then some (value, cs.drop n)
  else none

def char? (c : Char) : List Char → Option (List Char)
  | d :: cs => if c = d then some cs else none
  | [] => none

def timeTail? (cs : List Char) : Option (List Char) := do
  let (_, cs) ← fixed? 2 0 59 cs
  let cs ← char? ':' cs
  let (_, cs) ← fixed? 2 0 60 cs
  match cs with
  | '.' :: c :: rest => if c.isDigit then some (rest.dropWhile Char.isDigit) else none
  | '.' :: [] => none
  | _ => some cs

def timeHead? (cs : List Char) : Option (List Char) := do
  let (_, cs) ← fixed? 2 0 23 cs
  char? ':' cs

def offsetTail? (cs : List Char) : Option (List Char) := do
  let (_, cs) ← fixed? 2 0 23 cs
  let cs ← char? ':' cs
  let (_, cs) ← fixed? 2 0 59 cs
  some cs

def skipOffset? : List Char → Option (List Char)
  | 'Z' :: cs => some cs
  | 'z' :: cs => some cs
  | '+' :: cs => offsetTail? cs
  | '-' :: cs => offsetTail? cs
  | cs => some cs

def dateHead? (cs : List Char) : Option (Nat × List Char) := do
  let (year, cs) ← fixed? 4 0 9999 cs
  let cs ← char? '-' cs
  some (year, cs)

def dateTail? (year : Nat) (cs : List Char) : Option (List Char) := do
  let (month, cs) ← fixed? 2 1 12 cs
  let cs ← char? '-' cs
  let (day, cs) ← fixed? 2 1 31 cs
  if Calendar.exists? year month day then
    match cs with
    | c :: rest =>
      if c = 'T' ∨ c = 't' ∨ c = ' ' then
        match timeHead? rest with
        | some rest => do skipOffset? (← timeTail? rest)
        | none => some cs
      else some cs
    | [] => some []
  else none

/-- A date, a time, a float or an integer; which of them it is shows at its front. -/
def number? : Read Toml := fun cs =>
  match dateHead? cs with
  | some (year, rest) => (dateTail? year rest).map (.moment, ·)
  | none =>
    match timeHead? cs with
    | some rest => (timeTail? rest).map (.moment, ·)
    | none => float? cs <|> integer? cs

end FilterSql.Toml
