import FilterSql.Instant.Rfc3339
import FilterSql.Proofs.CivilClock
import FilterSql.Proofs.Tiling
import FilterSql.Proofs.WholeNumerals

/-! Civil times written out as timestamps. Whatever separates the day from the time, however many digits the
fraction has and whatever the offset from Greenwich is, a timestamp is read as the number of seconds that the clock
ticks from the epoch to its instant. -/
namespace FilterSql

namespace Numeral

def padded : Nat → Nat → List Char
  | 0, _ => []
  | width + 1, n => padded width (n / 10) ++ [digit ⟨n % 10, Nat.mod_lt n (by decide)⟩]

theorem length_padded (width n : Nat) : (padded width n).length = width := by
  induction width generalizing n with
  | zero => rfl
  | succ width ih => rw [padded, List.length_append, ih, List.length_singleton]

theorem isDigit_of_mem_padded {width n : Nat} {c : Char} (h : c ∈ padded width n) : c.isDigit = true := by
  induction width generalizing n with
  | zero => cases h
  | succ width ih =>
    rw [padded, List.mem_append, List.mem_singleton] at h
    rcases h with h | rfl
    · exact ih h
    · exact isDigit_digit _

theorem natural_padded {width n : Nat} (h : n < 10 ^ width) : natural (padded width n) = n := by
  induction width generalizing n with
  | zero =>
    have hzero : n = 0 := by simpa using h
    rw [hzero]
    rfl
  | succ width ih =>
    have hfront : n / 10 < 10 ^ width := Nat.div_lt_of_lt_mul (by rwa [Nat.pow_succ'] at h)
    have hfold := ih hfront
    unfold natural at hfold ⊢
    rw [padded, List.foldl_append, hfold, List.foldl_cons, List.foldl_nil, toNat_digit]
    exact Nat.div_add_mod n 10

end Numeral

namespace Rfc3339

open Numeral Text

theorem digits_padded {width n : Nat} (h : n < 10 ^ width) (rest : List Char) :
    digits width (padded width n ++ rest) = .ok (n, rest) := by
  have htake : (padded width n ++ rest).take width = padded width n :=
    List.take_left' (length_padded width n)
  have hdrop : (padded width n ++ rest).drop width = rest := List.drop_left' (length_padded width n)
  have hall : (padded width n).all Char.isDigit = true := List.all_eq_true.mpr fun c hc => isDigit_of_mem_padded hc
  simp only [digits, htake, hdrop, hall, length_padded, natural_padded h, and_self, if_true]

theorem length_le_byteLength (cs : List Char) : cs.length ≤ byteLength cs := by
  induction cs with
  | nil => exact Nat.zero_le _
  | cons c cs ih =>
    have hsize := c.utf8Size_pos
    rw [List.length_cons, byteLength_cons]
    omega

inductive Zone where
  /-- At Greenwich, by a letter of either case. -/
  | zulu (upper : Bool)
  | east (hours : Fin 24) (minutes : Fin 60)
  | west (hours : Fin 24) (minutes : Fin 60)

namespace Zone

def ahead : Zone → Int
  | zulu _ => 0
  | east hours minutes => (60 * hours + minutes : Nat)
  | west hours minutes => -(60 * hours + minutes : Nat)

def chars : Zone → List Char
  | zulu upper => [if upper then 'Z' else 'z']
  | east hours minutes => '+' :: (padded 2 hours ++ ':' :: padded 2 minutes)
  | west hours minutes => '-' :: (padded 2 hours ++ ':' :: padded 2 minutes)

theorem natAbs_ahead_lt (zone : Zone) : zone.ahead.natAbs < 1440 := by
  cases zone <;> simp only [ahead] <;> omega

theorem exists_cons_chars (zone : Zone) : ∃ c cs, zone.chars = c :: cs ∧ c.isDigit = false ∧ c ≠ '.' := by
  cases zone with
  | zulu upper => exact ⟨_, [], rfl, by cases upper <;> decide, by cases upper <;> decide⟩
  | east hours minutes => exact ⟨'+', _, rfl, by decide, by decide⟩
  | west hours minutes => exact ⟨'-', _, rfl, by decide, by decide⟩

end Zone

theorem offsetDigits_padded {n : Nat} (h : n < 100) (rest : List Char) :
    offsetDigits (padded 2 n ++ rest) = .ok (n, rest) := by
  have hlength := length_le_byteLength (padded 2 n ++ rest)
  rw [List.length_append, length_padded] at hlength
  rw [offsetDigits, if_neg (by omega)]
  exact digits_padded h rest

theorem offset_signed {sign : Char} {factor : Int} (hours : Fin 24) (minutes : Fin 60)
    (hsign : ∀ cs, offsetSign (sign :: cs) = .ok (factor, cs)) (hletter : sign ≠ 'Z' ∧ sign ≠ 'z') :
    offset (sign :: (padded 2 hours ++ ':' :: padded 2 minutes)) =
      .ok (factor * (3600 * hours + 60 * minutes : Nat), []) := by
  have hhours := offsetDigits_padded (show hours.val < 100 by omega) (':' :: padded 2 minutes)
  have hminutes := offsetDigits_padded (show minutes.val < 100 by omega) []
  have hcolon : offsetColon (':' :: padded 2 minutes) = .ok ((), padded 2 minutes) := rfl
  have hrange : ¬59 < minutes.val := by omega
  rw [List.append_nil] at hminutes
  unfold offset
  split
  case h_1 heq => exact absurd (List.cons.inj heq).1 hletter.1
  case h_2 heq => exact absurd (List.cons.inj heq).1 hletter.2
  case h_3 =>
    refine bind_eq_ok.mpr ⟨_, hsign _, bind_eq_ok.mpr ⟨_, hhours, bind_eq_ok.mpr ⟨_, hcolon, ?_⟩⟩⟩
    exact bind_eq_ok.mpr ⟨_, hminutes, if_neg hrange⟩

theorem offset_zone (zone : Zone) : offset zone.chars = .ok (60 * zone.ahead, []) := by
  cases zone with
  | zulu upper => cases upper <;> rfl
  | east hours minutes =>
    rw [Zone.chars, offset_signed hours minutes (fun _ => rfl) (by decide), Zone.ahead]
    congr 2
    omega
  | west hours minutes =>
    rw [Zone.chars, offset_signed hours minutes (fun _ => rfl) (by decide), Zone.ahead]
    congr 2
    omega

def fractionChars (fraction : List (Fin 10)) : List Char :=
  if fraction = [] then [] else '.' :: fraction.map digit

theorem fraction_chars (digits : List (Fin 10)) {c : Char} (cs : List Char) (hdigit : c.isDigit = false)
    (hpoint : c ≠ '.') : fraction (fractionChars digits ++ c :: cs) = .ok ((), c :: cs) := by
  cases digits with
  | nil => simp [fractionChars, fraction, hpoint]
  | cons d ds =>
    have hmore : ((ds.map digit) ++ c :: cs).dropWhile Char.isDigit = c :: cs := by
      rw [List.dropWhile_append_of_pos, List.dropWhile_cons_of_neg (by simp [hdigit])]
      intro a ha
      obtain ⟨e, -, rfl⟩ := List.mem_map.mp ha
      exact isDigit_digit e
    simp [fractionChars, fraction, isDigit_digit, hmore]

theorem date_chars (date : Civil.Date) (hyear : date.year ≤ 9999) (rest : List Char) :
    Rfc3339.date (padded 4 date.year ++ '-' :: (padded 2 date.month ++ '-' :: (padded 2 date.day ++ rest))) =
      .ok (date.epochDay, rest) := by
  have hmonth := date.month_le
  have hday : date.day ≤ 31 := date.day_le.trans (Civil.daysIn_le _ _)
  refine bind_eq_ok.mpr ⟨_, digits_padded (by omega) _, bind_eq_ok.mpr ⟨_, rfl, ?_⟩⟩
  refine bind_eq_ok.mpr ⟨_, digits_padded (by omega) _, bind_eq_ok.mpr ⟨_, rfl, ?_⟩⟩
  refine bind_eq_ok.mpr ⟨_, digits_padded (by omega) _, ?_⟩
  exact if_pos date.exists_date

/-- A timestamp: a civil time that exists, the letter between the day and the time, digits of a fraction and a
zone. -/
structure Stamp where
  civil : Civil
  year_le : civil.date.year ≤ 9999
  separator : Char
  separates : separator = 'T' ∨ separator = 't' ∨ separator = ' '
  fraction : List (Fin 10)
  zone : Zone

namespace Stamp

variable (stamp : Stamp)

def timeChars : List Char :=
  stamp.separator :: (padded 2 stamp.civil.hour ++ ':' :: (padded 2 stamp.civil.minute ++ ':' ::
    (padded 2 stamp.civil.second ++ (fractionChars stamp.fraction ++ stamp.zone.chars))))

def chars : List Char :=
  padded 4 stamp.civil.date.year ++ '-' :: (padded 2 stamp.civil.date.month ++ '-' ::
    (padded 2 stamp.civil.date.day ++ stamp.timeChars))

def text : String := String.ofList stamp.chars

/-- The instant is `n` seconds from the epoch at Greenwich: clocks in the zone of the timestamp are ahead of those
at Greenwich, so they have been ticking for longer. -/
def Names (n : Int) : Prop := Civil.epoch.Apart stamp.civil (n + 60 * stamp.zone.ahead)

theorem names_iff {n : Int} : stamp.Names n ↔ n = stamp.civil.epochSecond - 60 * stamp.zone.ahead := by
  rw [Names, Civil.epoch_apart_iff]
  omega

theorem time_chars : time stamp.timeChars =
    .ok (3600 * stamp.civil.hour + 60 * stamp.civil.minute + stamp.civil.second, stamp.zone.chars) := by
  obtain ⟨c, cs, hzone, hdigit, hpoint⟩ := stamp.zone.exists_cons_chars
  have hfraction := fraction_chars stamp.fraction cs hdigit hpoint
  rw [← hzone] at hfraction
  have hseparator : ∀ rest, oneOf ['T', 't', ' '] (stamp.separator :: rest) = .ok ((), rest) := by
    intro rest
    rcases stamp.separates with h | h | h
    all_goals
      rw [h]
      rfl
  have hsecond : (if stamp.civil.second.val = 60 then 59 else stamp.civil.second.val) = stamp.civil.second :=
    if_neg (by omega)
  refine bind_eq_ok.mpr ⟨_, hseparator _, ?_⟩
  refine bind_eq_ok.mpr ⟨_, digits_padded (by omega) _, bind_eq_ok.mpr ⟨_, rfl, ?_⟩⟩
  refine bind_eq_ok.mpr ⟨_, digits_padded (by omega) _, bind_eq_ok.mpr ⟨_, rfl, ?_⟩⟩
  refine bind_eq_ok.mpr ⟨_, digits_padded (by omega) _, bind_eq_ok.mpr ⟨_, hfraction, ?_⟩⟩
  simp only [hsecond]
  exact if_neg (by omega)

theorem length_chars : 19 ≤ stamp.chars.length := by
  simp only [chars, timeChars, List.length_append, List.length_cons, length_padded]
  omega

/-- A timestamp is read as the count of seconds that it names. -/
theorem epochSecond_text {n : Int} (h : stamp.Names n) : Rfc3339.epochSecond stamp.text = .ok n := by
  have hbytes : ¬byteLength stamp.chars < 19 := by
    have := length_le_byteLength stamp.chars
    have := stamp.length_chars
    omega
  have hzone := stamp.zone.natAbs_ahead_lt
  have hdate := date_chars stamp.civil.date stamp.year_le stamp.timeChars
  rw [stamp.names_iff.mp h, Rfc3339.epochSecond, text, String.toList_ofList]
  simp only [hbytes, if_false]
  refine bind_eq_ok.mpr ⟨_, hdate, bind_eq_ok.mpr ⟨_, stamp.time_chars, bind_eq_ok.mpr ⟨_, offset_zone _, ?_⟩⟩⟩
  simp only [ne_eq, not_true, if_false]
  exact if_neg (by omega)

/-- Each timestamp names exactly one count of seconds. -/
theorem existsUnique_names : ∃! n, stamp.Names n := by
  simp only [names_iff]
  exact ⟨_, rfl, fun _ h => h⟩

theorem Names.within {stamp : Stamp} {n : Int} (h : stamp.Names n) : Within 64 n := by
  have hyear : stamp.civil.date.year + 1 ≤ 10000 := Nat.succ_le_succ stamp.year_le
  have hyears := Civil.Date.daysBeforeYear_mono hyear
  have hday := stamp.civil.date.dayNumber_lt.2
  have hlast : Calendar.daysBeforeYear 10000 = 3652425 := by decide
  have hfirst : Calendar.daysBeforeYear 1970 = 719528 := by decide
  have hzone := stamp.zone.natAbs_ahead_lt
  rw [names_iff, Civil.epochSecond, Civil.Date.epochDay_eq] at h
  simp only [Within]
  omega

end Stamp

end Rfc3339

end FilterSql
