import Mathlib.Data.Nat.Init
import Mathlib.Logic.Function.Iterate
import Mathlib.Order.Monotone.Basic
import Mathlib.Tactic.ByContra
import Mathlib.Tactic.IntervalCases
import FilterSql.Instant.Calendar

/-! A clock that ticks through the Gregorian calendar, a second at a time. How far two civil times are apart is how
often the clock ticks between them; there are no leap seconds. The days that the calendar counts from the epoch are
in step with the clock, so its count is the one of the ticks. -/
namespace FilterSql

namespace Civil

/-- Every fourth year is a leap year, but of those that end a century only every fourth. -/
def LeapYear (year : Nat) : Prop := 4 ∣ year ∧ (100 ∣ year → 400 ∣ year)

instance (year : Nat) : Decidable (LeapYear year) := inferInstanceAs (Decidable (_ ∧ _))

def daysIn (year : Nat) : Nat → Nat
  | 2 => if LeapYear year then 29 else 28
  | 4 | 6 | 9 | 11 => 30
  | _ => 31

theorem daysIn_pos (year month : Nat) : 1 ≤ daysIn year month := by
  unfold daysIn
  split
  · split <;> decide
  all_goals decide

theorem daysIn_le (year month : Nat) : daysIn year month ≤ 31 := by
  unfold daysIn
  split
  · split <;> decide
  all_goals decide

@[ext]
structure Date where
  year : Nat
  month : Nat
  day : Nat
  month_pos : 1 ≤ month
  month_le : month ≤ 12
  day_pos : 1 ≤ day
  day_le : day ≤ daysIn year month

def Date.next (date : Date) : Date :=
  if h : date.day + 1 ≤ daysIn date.year date.month then
    { date with day := date.day + 1, day_pos := by omega, day_le := h }
  else if h : date.month + 1 ≤ 12 then
    ⟨date.year, date.month + 1, 1, by omega, h, by decide, daysIn_pos _ _⟩
  else ⟨date.year + 1, 1, 1, by decide, by decide, by decide, daysIn_pos _ _⟩

end Civil

@[ext]
structure Civil where
  date : Civil.Date
  hour : Fin 24
  minute : Fin 60
  second : Fin 60

namespace Civil

def tick (c : Civil) : Civil :=
  if h : c.second.val + 1 < 60 then { c with second := ⟨c.second + 1, h⟩ }
  else if h : c.minute.val + 1 < 60 then { c with minute := ⟨c.minute + 1, h⟩, second := 0 }
  else if h : c.hour.val + 1 < 24 then { c with hour := ⟨c.hour + 1, h⟩, minute := 0, second := 0 }
  else ⟨c.date.next, 0, 0, 0⟩

def epoch : Civil := ⟨⟨1970, 1, 1, by decide, by decide, by decide, by decide⟩, 0, 0, 0⟩

/-- The second time is `n` seconds after the first; a negative number counts the seconds before it. -/
def Apart (a b : Civil) (n : Int) : Prop :=
  (∃ k : Nat, n = k ∧ tick^[k] a = b) ∨ ∃ k : Nat, n = -k ∧ tick^[k] b = a

/-! The calendar in step with the clock. -/

theorem isLeap_iff (year : Nat) : Calendar.isLeap year = true ↔ LeapYear year := by
  simp only [Calendar.isLeap, LeapYear, Bool.and_eq_true, Bool.or_eq_true, beq_iff_eq, bne_iff_ne, ne_eq]
  omega

theorem monthLength_eq (year : Nat) {month : Nat} (hpos : 1 ≤ month) (hle : month ≤ 12) :
    Calendar.monthLength year month = daysIn year month := by
  interval_cases month <;> simp [Calendar.monthLength, Calendar.monthLengths, daysIn, isLeap_iff]

theorem daysBeforeMonth_succ (year : Nat) {month : Nat} (hpos : 1 ≤ month) (hle : month ≤ 12) :
    Calendar.daysBeforeMonth year (month + 1) = Calendar.daysBeforeMonth year month + daysIn year month := by
  rw [← monthLength_eq year hpos hle]
  interval_cases month <;> simp [Calendar.daysBeforeMonth, Calendar.monthLength, Calendar.monthLengths]

theorem multiples_succ (year : Nat) {k : Nat} (hk : 0 < k) :
    (year + 1 + (k - 1)) / k = (year + (k - 1)) / k + if k ∣ year then 1 else 0 := by
  have hsum : year + (k - 1) + 1 = year + k := by omega
  rw [Nat.add_right_comm, Nat.succ_div, hsum]
  simp only [Nat.dvd_add_self_right]

theorem daysBeforeYear_step (year : Nat) :
    Calendar.daysBeforeYear (year + 1) = Calendar.daysBeforeYear year + if LeapYear year then 366 else 365 := by
  have hfour := multiples_succ year (k := 4) (by decide)
  have hcentury := multiples_succ year (k := 100) (by decide)
  have hfourth := multiples_succ year (k := 400) (by decide)
  have hroom : (year + 99) / 100 ≤ 365 * year + (year + 3) / 4 := by omega
  simp only [Nat.reduceSub] at hfour hcentury hfourth
  unfold Calendar.daysBeforeYear LeapYear
  rw [hfour, hcentury, hfourth]
  -- Each of the three numbers divides the next, which leaves four cases.
  by_cases h4 : 4 ∣ year
  · by_cases h100 : 100 ∣ year
    · by_cases h400 : 400 ∣ year
      · simp only [h4, h100, h400, if_true, implies_true, and_true]
        omega
      · simp only [h4, h100, h400, if_true, if_false, imp_false, not_true, and_false]
        omega
    · have h400 : ¬400 ∣ year := fun h => h100 (Nat.dvd_trans (by decide) h)
      simp only [h4, h100, h400, if_true, if_false, false_implies, and_true]
      omega
  · have h100 : ¬100 ∣ year := fun h => h4 (Nat.dvd_trans (by decide) h)
    have h400 : ¬400 ∣ year := fun h => h4 (Nat.dvd_trans (by decide) h)
    simp only [h4, h100, h400, if_false, false_and]
    omega

theorem daysBeforeYear_succ (year : Nat) :
    Calendar.daysBeforeYear (year + 1) = Calendar.daysBeforeYear year + Calendar.daysBeforeMonth year 13 := by
  have hmonths : Calendar.daysBeforeMonth year 13 = if LeapYear year then 366 else 365 := by
    simp only [Calendar.daysBeforeMonth, Calendar.monthLengths, isLeap_iff]
    split <;> rfl
  rw [hmonths, daysBeforeYear_step]

namespace Date

def dayNumber (date : Date) : Nat :=
  Calendar.daysBeforeYear date.year + Calendar.daysBeforeMonth date.year date.month + (date.day - 1)

def epochDay (date : Date) : Int := Calendar.epochDay date.year date.month date.day

theorem epochDay_eq (date : Date) : date.epochDay = date.dayNumber - (Calendar.daysBeforeYear 1970 : Nat) := rfl

theorem exists_date (date : Date) : Calendar.exists? date.year date.month date.day = true := by
  rw [Calendar.exists?, monthLength_eq _ date.month_pos date.month_le]
  simp [date.day_pos, date.day_le]

theorem dayNumber_next (date : Date) : date.next.dayNumber = date.dayNumber + 1 := by
  have hday := date.day_pos
  have hlast := date.day_le
  have hmonth := daysBeforeMonth_succ date.year date.month_pos date.month_le
  unfold next
  split
  case isTrue => simp only [dayNumber]; omega
  case isFalse hended =>
    split
    case isTrue => simp only [dayNumber, hmonth]; omega
    case isFalse hdecember =>
      have hle := date.month_le
      have htwelve : date.month = 12 := by omega
      have hfirst : Calendar.daysBeforeMonth (date.year + 1) 1 = 0 := rfl
      have hyear := daysBeforeYear_succ date.year
      rw [htwelve] at hmonth hlast hended
      simp only [dayNumber, htwelve, hfirst, hyear, hmonth]
      omega

theorem daysBeforeMonth_mono (year : Nat) {m n : Nat} (hpos : 1 ≤ m) (h : m ≤ n) (hle : n ≤ 13) :
    Calendar.daysBeforeMonth year m ≤ Calendar.daysBeforeMonth year n := by
  induction n, h using Nat.le_induction with
  | base => exact Nat.le_refl _
  | succ n hmn ih =>
    rw [daysBeforeMonth_succ year (by omega) (by omega)]
    exact Nat.le_add_right_of_le (ih (by omega))

theorem daysBeforeYear_mono : Monotone Calendar.daysBeforeYear :=
  monotone_nat_of_le_succ fun year => by rw [daysBeforeYear_succ]; exact Nat.le_add_right _ _

theorem dayNumber_lt (date : Date) :
    date.dayNumber < Calendar.daysBeforeYear date.year + Calendar.daysBeforeMonth date.year (date.month + 1) ∧
    date.dayNumber < Calendar.daysBeforeYear (date.year + 1) := by
  have hday := date.day_le
  have hpos := date.day_pos
  have hmonth := daysBeforeMonth_succ date.year date.month_pos date.month_le
  have hle : date.month + 1 ≤ 13 := Nat.succ_le_succ date.month_le
  have hrest := daysBeforeMonth_mono date.year (Nat.le_add_left 1 date.month) hle (Nat.le_refl 13)
  have hyear := daysBeforeYear_succ date.year
  unfold dayNumber
  omega

theorem year_le_of_dayNumber_le {a b : Date} (h : a.dayNumber ≤ b.dayNumber) : a.year ≤ b.year := by
  by_contra hlt
  have hyears := daysBeforeYear_mono (show b.year + 1 ≤ a.year by omega)
  have hb := b.dayNumber_lt.2
  unfold dayNumber at h hb
  omega

theorem month_le_of_dayNumber_le {a b : Date} (hyear : a.year = b.year) (h : a.dayNumber ≤ b.dayNumber) :
    a.month ≤ b.month := by
  by_contra hlt
  have hle := a.month_le
  have hmonths := daysBeforeMonth_mono b.year (Nat.le_add_left 1 b.month) (show b.month + 1 ≤ a.month by omega)
    (by omega)
  have hb := b.dayNumber_lt.1
  unfold dayNumber at h hb
  rw [hyear] at h
  omega

theorem dayNumber_injective : Function.Injective dayNumber := by
  intro a b h
  have hyear : a.year = b.year :=
    Nat.le_antisymm (year_le_of_dayNumber_le h.le) (year_le_of_dayNumber_le h.ge)
  have hmonth : a.month = b.month :=
    Nat.le_antisymm (month_le_of_dayNumber_le hyear h.le) (month_le_of_dayNumber_le hyear.symm h.ge)
  have ha := a.day_pos
  have hb := b.day_pos
  unfold dayNumber at h
  rw [hyear, hmonth] at h
  exact Date.ext hyear hmonth (by omega)

end Date

/-- The second of a civil time, counted by the calendar. -/
def epochSecond (c : Civil) : Int := c.date.epochDay * 86400 + (3600 * c.hour + 60 * c.minute + c.second : Nat)

theorem epochSecond_tick (c : Civil) : c.tick.epochSecond = c.epochSecond + 1 := by
  have hnext := c.date.dayNumber_next
  have hhour := c.hour.isLt
  have hminute := c.minute.isLt
  have hsecond := c.second.isLt
  unfold tick
  split
  case isTrue => simp only [epochSecond]; omega
  case isFalse =>
    split
    case isTrue => simp only [epochSecond, Fin.val_zero]; omega
    case isFalse =>
      split
      case isTrue => simp only [epochSecond, Fin.val_zero]; omega
      case isFalse => simp only [epochSecond, Date.epochDay_eq, hnext, Fin.val_zero]; omega

theorem epochSecond_ticks (k : Nat) (c : Civil) : (tick^[k] c).epochSecond = c.epochSecond + k := by
  induction k with
  | zero => simp
  | succ k ih =>
    rw [Function.iterate_succ_apply', epochSecond_tick, ih]
    omega

theorem epochSecond_injective : Function.Injective epochSecond := by
  intro a b h
  have := a.hour.isLt
  have := a.minute.isLt
  have := a.second.isLt
  have := b.hour.isLt
  have := b.minute.isLt
  have := b.second.isLt
  simp only [epochSecond, Date.epochDay_eq] at h
  -- The time of day is less than a day, so equal seconds are of one day.
  have hdate : a.date = b.date := Date.dayNumber_injective (by omega)
  rw [hdate] at h
  exact Civil.ext hdate (Fin.ext (by omega)) (Fin.ext (by omega)) (Fin.ext (by omega))

/-- The clock ticks from one time to the other as often as the calendar says. -/
theorem apart_iff {a b : Civil} {n : Int} : a.Apart b n ↔ n = b.epochSecond - a.epochSecond := by
  constructor
  · rintro (⟨k, rfl, rfl⟩ | ⟨k, rfl, rfl⟩)
    · rw [epochSecond_ticks]
      omega
    · rw [epochSecond_ticks]
      omega
  · intro hn
    obtain ⟨k, hk | hk⟩ := Int.eq_nat_or_neg n
    · refine .inl ⟨k, hk, epochSecond_injective ?_⟩
      rw [epochSecond_ticks]
      omega
    · refine .inr ⟨k, hk, epochSecond_injective ?_⟩
      rw [epochSecond_ticks]
      omega

theorem epochSecond_epoch : epoch.epochSecond = 0 := by
  simp [epochSecond, Date.epochDay_eq, Date.dayNumber, Calendar.daysBeforeMonth, epoch]

/-- The count of a time from the epoch is its second. -/
theorem epoch_apart_iff {c : Civil} {n : Int} : epoch.Apart c n ↔ n = c.epochSecond := by
  rw [apart_iff, epochSecond_epoch, Int.sub_zero]

end Civil

end FilterSql
