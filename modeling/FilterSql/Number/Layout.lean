import FilterSql.Number.Shortest

/-! How a double is laid out as text. A layout says which decimal exponents are written out in full, and
the rest is written with an exponent. -/
namespace FilterSql.Binary64

structure Layout where
  tie : Tie
  /-- The decimal exponents written positionally; `none` is all of them. -/
  positional : Option (Int × Int)
  wholeMark : String
  notANumber : String
  infinite : String
  minusInfinite : String

/-- Plain text: every digit in place, no exponent and no mark on whole numbers. -/
def Layout.plain : Layout := ⟨.up, none, "", "NaN", "inf", "-inf"⟩

/-- JSON text: exponents from -5 to 15 in place; what is not a number has no JSON numeral. -/
def Layout.json : Layout := ⟨.toEven, some (-5, 15), ".0", "null", "null", "null"⟩

def zeros (n : Nat) : List Char := List.replicate n '0'

def Decimal.positional (d : Decimal) (wholeMark : String) : String :=
  if d.point ≤ 0 then "0." ++ String.ofList (zeros (-d.point).toNat ++ d.digits)
  else
    let n := d.point.toNat
    if d.digits.length ≤ n then
      String.ofList (d.digits ++ zeros (n - d.digits.length)) ++ wholeMark
    else String.ofList (d.digits.take n) ++ "." ++ String.ofList (d.digits.drop n)

def Decimal.scientific (d : Decimal) : String :=
  let e := d.point - 1
  let mantissa := match d.digits with
    | [] => "0"
    | [c] => c.toString
    | c :: cs => c.toString ++ "." ++ String.ofList cs
  mantissa ++ "e" ++ (if 0 ≤ e then "+" else "") ++ toString e

def Layout.decimal (l : Layout) (d : Decimal) : String :=
  match l.positional with
  | none => d.positional l.wholeMark
  | some (low, high) =>
    if low ≤ d.point - 1 ∧ d.point - 1 ≤ high then d.positional l.wholeMark else d.scientific

def Layout.write (l : Layout) (x : Binary64) : String :=
  match x.read with
  | .notANumber => l.notANumber
  | .infinite negative => if negative then l.minusInfinite else l.infinite
  | .finite negative mantissa exponent =>
    (if negative then "-" else "") ++
      (if mantissa = 0 then "0" ++ l.wholeMark
       else l.decimal (shortest l.tie mantissa exponent))

end FilterSql.Binary64
