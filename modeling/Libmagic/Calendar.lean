import Mathlib.Tactic.Common

/-!
# The Gregorian calendar

Months are counted from 0 and days from 1. The date of a day number is found by going from a date
to the next one.
-/
namespace Libmagic.Calendar

def isLeap (year : Nat) : Bool := year % 4 == 0 && (year % 100 != 0 || year % 400 == 0)

def leapDays (year : Nat) : Nat := if isLeap year then 1 else 0

/-- The months of a year that is not a leap year. -/
def lengths : List Nat := [31, 28, 31, 30, 31, 30, 31, 31, 30, 31, 30, 31]

def monthLength (year month : Nat) : Nat := lengths.getD month 0 + if month = 1 then leapDays year else 0

def yearLength (year : Nat) : Nat := 365 + leapDays year

/-- The days of the year before a month of it. -/
def monthsBefore (year : Nat) : Nat → Nat
  | 0 => 0
  | month + 1 => monthsBefore year month + monthLength year month

/-- The days of so many years from a year on. -/
def yearsFrom (base : Nat) : Nat → Nat
  | 0 => 0
  | n + 1 => yearsFrom base n + yearLength (base + n)

theorem monthsBefore_twelve (year : Nat) : monthsBefore year 12 = yearLength year := by
  simp only [monthsBefore, monthLength, lengths, yearLength]
  simp
  omega

theorem monthLength_pos {year month : Nat} (lt : month < 12) : 28 ≤ monthLength year month := by
  unfold monthLength
  have whole : ∀ m < 12, 28 ≤ lengths.getD m 0 := by decide
  exact Nat.le_trans (whole month lt) (Nat.le_add_right _ _)

theorem monthsBefore_mono (year : Nat) {m n : Nat} (le : m ≤ n) :
    monthsBefore year m ≤ monthsBefore year n := by
  induction le with
  | refl => exact Nat.le_refl _
  | step _ ih => exact Nat.le_trans ih (Nat.le_add_right _ _)

theorem yearsFrom_mono (base : Nat) {m n : Nat} (le : m ≤ n) : yearsFrom base m ≤ yearsFrom base n := by
  induction le with
  | refl => exact Nat.le_refl _
  | step _ ih => exact Nat.le_trans ih (Nat.le_add_right _ _)

theorem le_yearsFrom (base n : Nat) : 365 * n ≤ yearsFrom base n := by
  induction n with
  | zero => exact Nat.zero_le _
  | succ n ih =>
      rw [yearsFrom, yearLength]
      omega

theorem yearsFrom_le (base n : Nat) : yearsFrom base n ≤ 366 * n := by
  induction n with
  | zero => exact Nat.le_refl _
  | succ n ih =>
      have leap : leapDays (base + n) ≤ 1 := by
        unfold leapDays
        split <;> omega
      rw [yearsFrom, yearLength]
      omega

/-- The leap years up to a year, which may be before the first. -/
def leapsUpTo (year : Int) : Int := year / 4 - year / 100 + year / 400

theorem leapDays_eq (year : Nat) : (leapDays year : Int) = leapsUpTo year - leapsUpTo (year - 1) := by
  have rule : isLeap year = true ↔ year % 4 = 0 ∧ (year % 100 ≠ 0 ∨ year % 400 = 0) := by
    simp [isLeap]
  unfold leapDays leapsUpTo
  split
  next leap =>
    rw [rule] at leap
    omega
  next ordinary =>
    rw [rule] at ordinary
    omega

theorem yearsFrom_eq (base n : Nat) :
    (yearsFrom base n : Int) = 365 * n + (leapsUpTo ((base + n : Nat) - 1) - leapsUpTo ((base : Int) - 1)) := by
  induction n with
  | zero =>
      rw [Nat.add_zero, Int.sub_self]
      rfl
  | succ n ih =>
      have year := leapDays_eq (base + n)
      have last : ((base + (n + 1) : Nat) : Int) - 1 = (base + n : Nat) := by omega
      rw [yearsFrom, yearLength, last]
      omega

/-! ## Dates -/

structure Date where
  year : Nat
  month : Nat
  day : Nat
  month_lt : month < 12
  day_pos : 1 ≤ day
  day_le : day ≤ monthLength year month

namespace Date

/-- The first of a month. -/
def first (year month : Nat) (lt : month < 12) : Date :=
  ⟨year, month, 1, lt, Nat.le_refl 1, Nat.le_trans (by decide) (monthLength_pos lt)⟩

def next (d : Date) : Date :=
  if more : d.day < monthLength d.year d.month then
    ⟨d.year, d.month, d.day + 1, d.month_lt, Nat.le_add_left 1 _, more⟩
  else if later : d.month + 1 < 12 then first d.year (d.month + 1) later
  else first (d.year + 1) 0 (by decide)

/-- The last day of a month. -/
def EndsMonth (d : Date) : Prop := d.day = monthLength d.year d.month

instance (d : Date) : Decidable d.EndsMonth := inferInstanceAs (Decidable (_ = _))

/-- The days from the start of a year to a date. -/
def days (base : Nat) (d : Date) : Nat :=
  yearsFrom base (d.year - base) + monthsBefore d.year d.month + (d.day - 1)

/-- The date that is so many days behind the start of a year. -/
def after (base : Nat) : Nat → Date
  | 0 => first base 0 (by decide)
  | n + 1 => (after base n).next

theorem le_year_next {base : Nat} (d : Date) (le : base ≤ d.year) : base ≤ d.next.year := by
  unfold next
  split
  · exact le
  · split
    · exact le
    · exact Nat.le_succ_of_le le

theorem days_next {base : Nat} (d : Date) (le : base ≤ d.year) : d.next.days base = d.days base + 1 := by
  have day_pos := d.day_pos
  have day_le := d.day_le
  unfold next
  split
  next more =>
    simp only [days]
    omega
  next full =>
    split
    next later =>
      simp only [days, first, monthsBefore]
      omega
    next december =>
      have month : d.month = 11 := by
        have := d.month_lt
        omega
      have whole := monthsBefore_twelve d.year
      have behind : d.year + 1 - base = d.year - base + 1 := by omega
      have same : base + (d.year - base) = d.year := by omega
      have start : monthsBefore (d.year + 1) 0 = 0 := rfl
      rw [monthsBefore] at whole
      rw [month] at full day_le
      simp only [days, first, behind, yearsFrom, same, start, month]
      omega

theorem le_year_after (base n : Nat) : base ≤ (after base n).year := by
  induction n with
  | zero => exact Nat.le_refl base
  | succ n ih => exact le_year_next _ ih

theorem days_after (base n : Nat) : (after base n).days base = n := by
  induction n with
  | zero =>
      rw [after, days, first, Nat.sub_self]
      rfl
  | succ n ih => rw [after, days_next _ (le_year_after base n), ih]

/-- A date is in its year. -/
theorem days_lt (base : Nat) (d : Date) (le : base ≤ d.year) :
    yearsFrom base (d.year - base) ≤ d.days base ∧ d.days base < yearsFrom base (d.year - base + 1) := by
  have same : base + (d.year - base) = d.year := by omega
  have month : monthsBefore d.year (d.month + 1) ≤ monthsBefore d.year 12 := monthsBefore_mono _ d.month_lt
  have day_pos := d.day_pos
  have day_le := d.day_le
  rw [monthsBefore_twelve, monthsBefore] at month
  rw [yearsFrom, same]
  unfold days
  omega

end Date

end Libmagic.Calendar
