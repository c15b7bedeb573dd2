import FilterSql.Instant.Calendar
import FilterSql.Number.Numeral

/-! Timestamps of RFC 3339, read to the second. Any fraction is passed over, and a leap second counts as
the second before it. -/
namespace FilterSql.Rfc3339

open FilterSql.Text

inductive Fault where
  | short
  | invalid
  | range
  | trailing
deriving DecidableEq

def Fault.message : Fault → String
  | short => "premature end of input"
  | invalid => "input contains invalid characters"
  | range => "input is out of range"
  | trailing => "trailing input"

abbrev Read (α : Type) := List Char → Except Fault (α × List Char)

def digits (n : Nat) : Read Nat := fun cs =>
  let ds := cs.take n
  if ds.length = n ∧ ds.all Char.isDigit then .ok (Numeral.natural ds, cs.drop n) else .error .invalid

def oneOf (allowed : List Char) : Read Unit
  | c :: cs => if allowed.contains c then .ok ((), cs) else .error .invalid
  | [] => .error .invalid

/-- Days since the epoch. -/
def date : Read Int := fun cs => do
  let (year, cs) ← digits 4 cs
  let (_, cs) ← oneOf ['-'] cs
  let (month, cs) ← digits 2 cs
  let (_, cs) ← oneOf ['-'] cs
  let (day, cs) ← digits 2 cs
  if Calendar.exists? year month day then .ok (Calendar.epochDay year month day, cs)
  else .error .range

/-- A point and at least one digit, if there is a point. -/
def fraction : Read Unit
  | '.' :: [] => .error .short
  | '.' :: c :: cs =>
    if c.isDigit then .ok ((), cs.dropWhile Char.isDigit) else .error .invalid
  | cs => .ok ((), cs)

/-- Seconds since midnight. -/
def time : Read Nat := fun cs => do
  let (_, cs) ← oneOf ['T', 't', ' '] cs
  let (hour, cs) ← digits 2 cs
  let (_, cs) ← oneOf [':'] cs
  let (minute, cs) ← digits 2 cs
  let (_, cs) ← oneOf [':'] cs
  let (second, cs) ← digits 2 cs
  let second := if second = 60 then 59 else second
  let (_, cs) ← fraction cs
  if 23 < hour ∨ 59 < minute ∨ 59 < second then .error .range
  else .ok (3600 * hour + 60 * minute + second, cs)

/-- The sign of an offset, which may be written as a true minus sign. -/
def offsetSign : Read Int
  | [] => .error .short
  | c :: cs =>
    if c = '+' then .ok (1, cs)
    else if c = '-' ∨ c = '\u2212' then .ok (-1, cs)
    else .error .invalid

/-- Two digits of an offset; less than two bytes are too few to be wrong. -/
def offsetDigits : Read Nat := fun cs =>
  if byteLength cs < 2 then .error .short else digits 2 cs

def offsetColon : Read Unit
  | [] => .error .short
  | cs => oneOf [':'] cs

/-- Seconds east of Greenwich. -/
def offset : Read Int
  | 'Z' :: cs => .ok (0, cs)
  | 'z' :: cs => .ok (0, cs)
  | cs => do
    let (sign, cs) ← offsetSign cs
    let (hours, cs) ← offsetDigits cs
    let (_, cs) ← offsetColon cs
    let (minutes, cs) ← offsetDigits cs
    if 59 < minutes then .error .range
    else .ok (sign * (3600 * hours + 60 * minutes : Nat), cs)

def epochSecond (s : String) : Except Fault Int := do
  let cs := s.toList
  if byteLength cs < 19 then .error .short
  else
    let (day, cs) ← date cs
    let (second, cs) ← time cs
    let (east, cs) ← offset cs
    if cs ≠ [] then .error .trailing
    else if 86400 ≤ east.natAbs then .error .range
    else .ok (day * 86400 + second - east)

end FilterSql.Rfc3339
