import FilterSql.Number.Binary64

/-! The shortest decimal that reads back as a given double. Grids of one, two, … seventeen significant
digits are tried in turn; the two grid points next to the number are the only candidates, since a grid
point inside the rounding interval has one of them between itself and the number. -/
namespace FilterSql.Binary64

inductive Tie where
  | up
  | toEven
deriving DecidableEq

/-- A decimal `0.d₁d₂…dₙ * 10 ^ point`, with neither a leading nor a trailing zero digit. -/
structure Decimal where
  digits : List Char
  point : Int
deriving DecidableEq

/-- A positive number `mantissa * 2 ^ exponent`, as four times numerator over denominator, with the
ends of the interval of reals that round to it. -/
structure Interval where
  low : Nat
  value : Nat
  high : Nat
  unit : Nat
  closed : Bool

def interval (mantissa : Nat) (exponent : Int) : Interval :=
  let place := twoTo exponent.toNat
  let narrow := mantissa = twoTo 52 && leastExponent < exponent
  { low := 4 * mantissa * place - (if narrow then place else 2 * place)
    value := 4 * mantissa * place
    high := 4 * mantissa * place + 2 * place
    unit := 4 * twoTo (-exponent).toNat
    closed := mantissa % 2 == 0 }

/-- The `k` with `10 ^ (k - 1) ≤ x < 10 ^ k`. Every double is above `10 ^ (-400)`, so the integer part of
`x * 10 ^ 400` has `k + 400` digits. -/
def decimalPoint (i : Interval) : Int :=
  ((Nat.toDigits 10 (i.value * tenTo 400 / i.unit)).length : Int) - 400

def Interval.holds (i : Interval) (grid : Int) (c : Nat) : Bool :=
  let x := c * tenTo grid.toNat * i.unit
  let s := tenTo (-grid).toNat
  if i.closed then i.low * s ≤ x && x ≤ i.high * s else i.low * s < x && x < i.high * s

def Interval.below (i : Interval) (grid : Int) : Nat :=
  i.value * tenTo (-grid).toNat / (tenTo grid.toNat * i.unit)

def Interval.pick (i : Interval) (tie : Tie) (grid : Int) : Option Nat :=
  let s := tenTo (-grid).toNat
  let g := tenTo grid.toNat * i.unit
  let below := i.below grid
  let gap := 2 * (i.value * s - below * g)
  match i.holds grid below, i.holds grid (below + 1) with
  | true, true =>
    if gap < g || (gap == g && tie == .toEven && below % 2 == 0) then some below
    else some (below + 1)
  | true, false => some below
  | false, true => some (below + 1)
  | false, false => none

def trimZeros (ds : List Char) : List Char := (ds.reverse.dropWhile (· == '0')).reverse

def decimalOf (c : Nat) (grid : Int) : Decimal :=
  let ds := Nat.toDigits 10 c
  ⟨trimZeros ds, grid + ds.length⟩

/-- Tries the grids of `17 - left + 1`, … seventeen digits. -/
def Interval.search (i : Interval) (tie : Tie) (point : Int) : Nat → Decimal
  | 0 => decimalOf (i.below (point - 17)) (point - 17)
  | left + 1 =>
    let grid := point - (17 - left)
    match i.pick tie grid with
    | some c => decimalOf c grid
    | none => i.search tie point left

/-- The fewest digits that read back, and of those the nearest. -/
def shortest (tie : Tie) (mantissa : Nat) (exponent : Int) : Decimal :=
  let i := interval mantissa exponent
  i.search tie (decimalPoint i) 17

end FilterSql.Binary64
