import FilterSql.Text.Chars
import FilterSql.Number.Binary64

/-! Reading numerals. -/
namespace FilterSql.Numeral

open FilterSql.Text

def natural (ds : List Char) : Nat := ds.foldl (fun n c => 10 * n + (c.toNat - '0'.toNat)) 0

def sign : List Char → Bool × List Char
  | '-' :: cs => (true, cs)
  | cs => (false, cs)

def integer (cs : List Char) : Int :=
  match sign cs with
  | (true, ds) => -(natural ds : Int)
  | (false, ds) => natural ds

def fitsInt32 (n : Int) : Bool := -2147483648 ≤ n && n ≤ 2147483647

def fitsInt64 (n : Int) : Bool := -9223372036854775808 ≤ n && n ≤ 9223372036854775807

def double (negative : Bool) (whole fraction : List Char) (exponent : Int) : Binary64 :=
  Binary64.ofDecimal negative (natural (whole ++ fraction)) (exponent - fraction.length)

def decimal (cs : List Char) : Binary64 :=
  let (negative, ds) := sign cs
  double negative (ds.takeWhile Char.isDigit) ((ds.dropWhile Char.isDigit).drop 1) 0

/-- An integer with an optional sign of either kind and nothing else. -/
def integer? : List Char → Option Int
  | '+' :: ds => if ds ≠ [] ∧ ds.all Char.isDigit then some (natural ds) else none
  | cs =>
    let ds := (sign cs).2
    if ds ≠ [] ∧ ds.all Char.isDigit then some (integer cs) else none

def exponent? : List Char → Option Int
  | [] => some 0
  | c :: cs => if c = 'e' ∨ c = 'E' then integer? cs else none

def finite? (negative : Bool) (cs : List Char) : Option Binary64 :=
  let whole := cs.takeWhile Char.isDigit
  let rest := cs.dropWhile Char.isDigit
  let (fraction, tail) := match rest with
    | '.' :: more => (more.takeWhile Char.isDigit, more.dropWhile Char.isDigit)
    | _ => ([], rest)
  if whole = [] ∧ fraction = [] then none
  else (exponent? tail).map (double negative whole fraction)

/-- A double in any spelling: signed, with a point or an exponent, infinite or not a number. -/
def double? (s : String) : Option Binary64 :=
  let (negative, cs) := match s.toList with
    | '+' :: cs => (false, cs)
    | cs => sign cs
  match String.ofList (cs.map Char.toLower) with
  | "inf" | "infinity" => some (Binary64.infinity negative)
  | "nan" => some Binary64.notANumber
  | _ => finite? negative cs

end FilterSql.Numeral
