/-! Double-precision numbers as the sixty-four bits of the IEEE 754 format. Every operation is exact
integer arithmetic, so a number read from text is the nearest double by construction. -/
namespace FilterSql

def twoTo (n : Nat) : Nat := Nat.pow 2 n

def tenTo (n : Nat) : Nat := Nat.pow 10 n

structure Binary64 where
  bits : UInt64
deriving DecidableEq, Inhabited

namespace Binary64

/-- What a bit pattern stands for; a finite number is `mantissa * 2 ^ exponent`, negated if `negative`. -/
inductive Reading where
  | notANumber
  | infinite (negative : Bool)
  | finite (negative : Bool) (mantissa : Nat) (exponent : Int)
deriving DecidableEq

/-- The exponent of the last place of the smallest numbers. -/
def leastExponent : Int := -1074

def read (x : Binary64) : Reading :=
  let n := x.bits.toNat
  let negative : Bool := twoTo 63 ≤ n
  let biased : Nat := n / twoTo 52 % twoTo 11
  let fraction : Nat := n % twoTo 52
  if biased = 2047 then
    if fraction = 0 then .infinite negative else .notANumber
  else if biased = 0 then .finite negative fraction leastExponent
  else .finite negative (twoTo 52 + fraction) (biased + leastExponent - 1)

def signBit (negative : Bool) : Nat := if negative then twoTo 63 else 0

def infinity (negative : Bool) : Binary64 := ⟨(signBit negative + 2047 * twoTo 52).toUInt64⟩

def notANumber : Binary64 := ⟨(2047 * twoTo 52 + twoTo 51).toUInt64⟩

def zero (negative : Bool) : Binary64 := ⟨(signBit negative).toUInt64⟩

/-- The integer nearest to `num / den`; a half goes to the even neighbour. -/
def roundHalfEven (num den : Nat) : Nat :=
  let q := num / den
  let r := num % den
  if den < 2 * r || (2 * r == den && q % 2 == 1) then q + 1 else q

def scaled (num den : Nat) (e : Int) : Nat × Nat :=
  (num * twoTo (-e).toNat, den * twoTo e.toNat)

/-- The exponent whose last place gives `num / den` its fifty-three digits, or the least one. -/
def placeExponent (num den : Nat) : Int :=
  let e := max leastExponent ((num.log2 : Int) - den.log2 - 53)
  let s := scaled num den e
  if twoTo 53 ≤ s.1 / s.2 then e + 1 else e

/-- The double nearest to `num / den`, ties to even; past the largest double it is infinite. -/
def ofRatio (negative : Bool) (num den : Nat) : Binary64 :=
  if num = 0 then zero negative
  else
    let e := placeExponent num den
    let s := scaled num den e
    let n := (e - leastExponent).toNat * twoTo 52 + roundHalfEven s.1 s.2
    if 2047 * twoTo 52 ≤ n then infinity negative else ⟨(signBit negative + n).toUInt64⟩

def ofInt (n : Int) : Binary64 := ofRatio (n < 0) n.natAbs 1

/-- The double nearest to `digits * 10 ^ exponent`. Exponents that leave the range whatever the
digits are settled first, which keeps the powers small. -/
def ofDecimal (negative : Bool) (digits : Nat) (exponent : Int) : Binary64 :=
  if digits = 0 then zero negative
  else if 400 ≤ exponent then infinity negative
  else if exponent + (Nat.toDigits 10 digits).length ≤ -400 then zero negative
  else ofRatio negative (digits * tenTo exponent.toNat) (tenTo (-exponent).toNat)

end Binary64

end FilterSql
