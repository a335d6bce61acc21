import Libmagic.Calendar
import Libmagic.Softmagic.Types
import Mathlib.Tactic.IntervalCases

/-!
# `cdf_time.c`: from a timestamp of Windows to one of Unix

The year is found by a division by 365, which is too large a year where the leap days of the years
before fill the rest of the true one. The days are then counted from that year, and may be negative.
-/
namespace Libmagic.Cdf

open Softmagic
open Calendar (Date leapDays leapsUpTo monthLength monthsBefore yearsFrom)

def CDF_BASE_YEAR : Int := 1601
def CDF_TIME_PREC : Int := 10000000

/-- `isleap`. -/
def isleap (y : Int) : Bool := y.tmod 4 == 0 && (y.tmod 100 != 0 || y.tmod 400 == 0)

def mdays : List Int := [31, 28, 31, 30, 31, 30, 31, 31, 30, 31, 30, 31]

/-- `cdf_getdays`. -/
def cdfGetdays (year : Int) : Int :=
  (List.range (year - CDF_BASE_YEAR).toNat).foldl
    (fun (days : Int) (y : Nat) => days + ((if isleap (CDF_BASE_YEAR + y) then 1 else 0) + 365)) 0

/-- The loop of `cdf_getday`, from a month on. -/
def getdayFrom (year : Int) : (m : Nat) → List Int → Int → Int
  | _, [], days => days
  | m, mday :: rest, days =>
      let sub := mday + if m = 1 ∧ isleap year then 1 else 0
      if days < sub then days else getdayFrom year (m + 1) rest (days - sub)

/-- `cdf_getday`. -/
def cdfGetday (year days : Int) : Int := getdayFrom year 0 mdays days

/-- The loop of `cdf_getmonth`, from a month on. -/
def getmonthFrom (year : Int) : (m : Nat) → List Int → Int → Nat
  | m, [], _ => m
  | m, mday :: rest, days =>
      let days := days - mday
      let days := if m = 1 ∧ isleap year then days - 1 else days
      if days ≤ 0 then m else getmonthFrom year (m + 1) rest days

/-- `cdf_getmonth`. -/
def cdfGetmonth (year days : Int) : Nat := getmonthFrom year 0 mdays days

/-- `struct tm`, without the members that `mktime` does not look at in UTC. -/
structure Tm where
  sec : Int
  min : Int
  hour : Int
  mday : Int
  mon : Int
  year : Int

/-- `mktime` in UTC. The month is brought into its year first, and the other members may be out of
their ranges too. -/
def mktime (tm : Tm) : Int :=
  let year := tm.year + tm.mon / 12
  let mon := (tm.mon % 12).toNat
  let yday := (mdays.take mon).sum + (if 1 < mon ∧ isleap (year + 1900) then 1 else 0) + tm.mday - 1
  tm.sec + tm.min * 60 + tm.hour * 3600 + yday * 86400 + (year - 70) * 31536000 +
    (year - 69) / 4 * 86400 - (year - 1) / 100 * 86400 + (year + 299) / 400 * 86400

/-- `struct timespec`. -/
structure Timespec where
  sec : Int
  nsec : Int
  deriving DecidableEq, Repr

/-- `cdf_timestamp_to_timespec`: what it returns, and `*ts`. -/
def cdfTimestampToTimespec (t : Int) : Int × Timespec :=
  let nsec := t.tmod CDF_TIME_PREC * 100
  let t := t.tdiv CDF_TIME_PREC
  let sec := sN 32 (t.tmod 60)
  let t := t.tdiv 60
  let min := sN 32 (t.tmod 60)
  let t := t.tdiv 60
  let hour := sN 32 (t.tmod 24)
  let t := t.tdiv 24
  let year := sN 32 (CDF_BASE_YEAR + t.tdiv 365)
  if year > 9999 then (-1, ⟨0, nsec⟩)
  else
    let t := t - (cdfGetdays year - 1)
    let mday := cdfGetday year (sN 32 t)
    let mon := cdfGetmonth year (sN 32 t)
    let time := mktime ⟨sec, min, hour, mday, mon, year - 1900⟩
    if time = -1 then (-1, ⟨time, nsec⟩) else (0, ⟨time, nsec⟩)

/-! ## Years and months -/

section Months

variable (year : Nat)

theorem isleap_natCast : isleap year = Calendar.isLeap year := by
  unfold isleap Calendar.isLeap
  rw [Bool.eq_iff_iff]
  simp [Int.tmod_eq_emod_of_nonneg]
  omega

theorem cdfGetdays_eq (n : Nat) : cdfGetdays (CDF_BASE_YEAR + n) = yearsFrom 1601 n := by
  have rounds : (CDF_BASE_YEAR + n - CDF_BASE_YEAR).toNat = n := by omega
  rw [cdfGetdays, rounds]
  induction n with
  | zero => rfl
  | succ n ih =>
      have leap := isleap_natCast (1601 + n)
      rw [List.range_succ, List.foldl_concat, ih (by omega)]
      have same : CDF_BASE_YEAR + (n : Int) = ((1601 + n : Nat) : Int) := by rw [CDF_BASE_YEAR]; omega
      rw [same, leap, yearsFrom, Calendar.yearLength, leapDays]
      split <;> omega

/-- What is left of the table is a month and what is behind it. -/
theorem mdays_drop {m : Nat} (lt : m < 12) :
    mdays.drop m = ((Calendar.lengths.getD m 0 : Nat) : Int) :: mdays.drop (m + 1) := by
  have table : ∀ m < 12, mdays.drop m = ((Calendar.lengths.getD m 0 : Nat) : Int) :: mdays.drop (m + 1) := by
    decide
  exact table m lt

theorem leap_month (m : Nat) :
    ((Calendar.lengths.getD m 0 : Nat) : Int) + (if m = 1 ∧ isleap year then 1 else 0) = monthLength year m := by
  rw [isleap_natCast, monthLength, leapDays]
  by_cases february : m = 1 <;> cases Calendar.isLeap year <;> simp [february]

theorem getdayFrom_cons {m : Nat} (lt : m < 12) (days : Int) :
    getdayFrom year m (mdays.drop m) days =
      if days < monthLength year m then days
      else getdayFrom year (m + 1) (mdays.drop (m + 1)) (days - monthLength year m) := by
  rw [mdays_drop lt, getdayFrom, leap_month]

theorem getmonthFrom_cons {m : Nat} (lt : m < 12) (days : Int) :
    getmonthFrom year m (mdays.drop m) days =
      if days ≤ monthLength year m then m
      else getmonthFrom year (m + 1) (mdays.drop (m + 1)) (days - monthLength year m) := by
  have month := leap_month year m
  have rest : (if m = 1 ∧ isleap year then days - ((Calendar.lengths.getD m 0 : Nat) : Int) - 1
      else days - ((Calendar.lengths.getD m 0 : Nat) : Int)) = days - monthLength year m := by
    rw [← month]
    split <;> omega
  rw [mdays_drop lt, getmonthFrom, rest]
  congr 1
  exact propext (by omega)

/-- A day before the year is given back as it is, in January. -/
theorem cdfGetday_early {days : Int} (early : days ≤ 0) : cdfGetday year days = days := by
  have january : days < monthLength year 0 := by
    have := @Calendar.monthLength_pos year 0 (by decide)
    omega
  exact (getdayFrom_cons year (by decide) days).trans (if_pos january)

theorem cdfGetmonth_early {days : Int} (early : days ≤ 0) : cdfGetmonth year days = 0 :=
  (getmonthFrom_cons year (by decide) days).trans (if_pos (Int.le_trans early (Int.natCast_nonneg _)))

/-- The last day of a month is taken for the day 0 of the one behind it. -/
theorem getdayFrom_eq {k day : Nat} (lt : k < 12) (pos : 1 ≤ day) (le : day ≤ monthLength year k) {m : Nat}
    (before : m ≤ k) :
    getdayFrom year m (mdays.drop m) (monthsBefore year k - monthsBefore year m + day) =
      if day < monthLength year k then day else 0 := by
  induction before using Nat.decreasingInduction with
  | self =>
      rw [getdayFrom_cons year lt, Int.sub_self, Int.zero_add]
      by_cases inside : day < monthLength year k
      · rw [if_pos inside, if_pos (by exact_mod_cast inside)]
      · have last : day = monthLength year k := Nat.le_antisymm le (Nat.le_of_not_lt inside)
        rw [if_neg inside, if_neg (by exact_mod_cast inside), last, Int.sub_self]
        -- nothing is left for the next month, or there is none
        by_cases next : k + 1 < 12
        · have some := @Calendar.monthLength_pos year (k + 1) next
          exact (getdayFrom_cons year next 0).trans (if_pos (by omega))
        · have past : mdays.drop (k + 1) = [] := List.drop_eq_nil_of_le (Nat.le_of_not_lt next)
          rw [past]
          rfl
  | of_succ m before ih =>
      have later := Calendar.monthsBefore_mono year before
      rw [monthsBefore] at later ih
      rw [getdayFrom_cons year (Nat.lt_trans before lt), if_neg (by omega)]
      have shift : (monthsBefore year k - monthsBefore year m + day : Int) - monthLength year m =
          monthsBefore year k - (monthsBefore year m + monthLength year m : Nat) + day := by omega
      rw [shift]
      exact ih

theorem getmonthFrom_eq {k day : Nat} (lt : k < 12) (pos : 1 ≤ day) (le : day ≤ monthLength year k) {m : Nat}
    (before : m ≤ k) :
    getmonthFrom year m (mdays.drop m) (monthsBefore year k - monthsBefore year m + day) = k := by
  induction before using Nat.decreasingInduction with
  | self => rw [getmonthFrom_cons year lt, Int.sub_self, Int.zero_add, if_pos (by exact_mod_cast le)]
  | of_succ m before ih =>
      have later := Calendar.monthsBefore_mono year before
      rw [monthsBefore] at later ih
      rw [getmonthFrom_cons year (Nat.lt_trans before lt), if_neg (by omega)]
      have shift : (monthsBefore year k - monthsBefore year m + day : Int) - monthLength year m =
          monthsBefore year k - (monthsBefore year m + monthLength year m : Nat) + day := by omega
      rw [shift]
      exact ih

end Months

/-! ## Seconds -/

/-- `mktime` counts the days from 1970 on, of which 134774 come before them since 1601. -/
theorem mktime_eq (sec min hour mday : Int) {n mon : Nat} (lt : mon < 12) :
    mktime ⟨sec, min, hour, mday, mon, (1601 + n : Nat) - 1900⟩ =
      sec + 60 * min + 3600 * hour +
        86400 * (yearsFrom 1601 n + monthsBefore (1601 + n) mon + mday - 1 - 134774) := by
  have month : ((mon : Int) % 12).toNat = mon := by omega
  have within : (mon : Int) / 12 = 0 := by omega
  have behind : ((1601 + n : Nat) : Int) - 1900 + 0 + 1900 = (1601 + n : Nat) := by omega
  have table : (mdays.take mon).sum + (if 1 < mon ∧ isleap (1601 + n : Nat) then 1 else 0) =
      (monthsBefore (1601 + n) mon : Int) := by
    rw [isleap_natCast]
    generalize 1601 + n = year
    have leap : leapDays year = if Calendar.isLeap year then 1 else 0 := rfl
    interval_cases mon <;>
      simp only [mdays, monthsBefore, monthLength, Calendar.lengths, leap] <;>
      cases Calendar.isLeap year <;> rfl
  have years := Calendar.yearsFrom_eq 1601 n
  unfold leapsUpTo at years
  unfold mktime
  simp only [month, within, behind, table]
  omega

/-- The calendar day of a timestamp. -/
def dateOf (t : Nat) : Date := Date.after 1601 (t / 10000000 / 86400)

/-- The year that the division by 365 gives for a timestamp. -/
def approxYear (t : Nat) : Nat := 1601 + t / 10000000 / 86400 / 365

/-- The seconds of Unix. -/
def unixSeconds (t : Nat) : Int := (t / 10000000 : Nat) - 11644473600

/-- The day that the year, the month and the day of the month stand for, which is that of the
timestamp unless the date is the last of a month of the year that was approximated. -/
theorem day_back {n : Nat} {date : Date} (isDate : Date.after 1601 n = date) :
    let days : Int := n - (yearsFrom 1601 (n / 365) - 1)
    ∃ mon, cdfGetmonth (1601 + n / 365 : Nat) days = mon ∧ mon < 12 ∧
      (yearsFrom 1601 (n / 365) + monthsBefore (1601 + n / 365) mon +
          cdfGetday (1601 + n / 365 : Nat) days - 1 : Int) =
        n - if date.EndsMonth ∧ 1601 + n / 365 = date.year then (date.day : Int) else 0 := by
  intro days
  subst isDate
  have le := Date.le_year_after 1601 n
  have count := Date.days_after 1601 n
  generalize Date.after 1601 n = date at le count
  obtain ⟨low, high⟩ := date.days_lt 1601 le
  rw [count] at low high
  have year_le : date.year ≤ 1601 + n / 365 := by
    have := Calendar.le_yearsFrom 1601 (date.year - 1601)
    omega
  rcases Nat.lt_or_eq_of_le year_le with later | same
  · -- the days are counted from a year that has not begun
    have before := @Calendar.yearsFrom_mono 1601 (date.year - 1601 + 1) (n / 365) (by omega)
    have early : days ≤ 0 := by omega
    refine ⟨0, cdfGetmonth_early _ early, by decide, ?_⟩
    rw [cdfGetday_early _ early, if_neg (fun ends => absurd ends.2 (by omega)), monthsBefore]
    omega
  · have years : n / 365 = date.year - 1601 := by omega
    have day_pos := date.day_pos
    have counted : days = n - (yearsFrom 1601 (date.year - 1601) - 1) := by rw [← years]
    have start : days = monthsBefore date.year date.month - monthsBefore date.year 0 + date.day := by
      unfold Date.days at count
      rw [monthsBefore]
      omega
    have whole : mdays.drop 0 = mdays := rfl
    refine ⟨date.month, ?_, date.month_lt, ?_⟩
    · rw [← same, start]
      exact getmonthFrom_eq date.year date.month_lt day_pos date.day_le (Nat.zero_le _)
    · have day := getdayFrom_eq date.year date.month_lt day_pos date.day_le (Nat.zero_le date.month)
      rw [whole] at day
      rw [← same, start, cdfGetday, day, years]
      unfold Date.days at count
      by_cases ends : date.EndsMonth
      · have last : ¬ date.day < monthLength date.year date.month := Nat.not_lt.mpr (Nat.le_of_eq ends.symm)
        rw [if_neg last, if_pos ⟨ends, rfl⟩]
        omega
      · have inside : date.day < monthLength date.year date.month :=
          Nat.lt_of_le_of_ne date.day_le ends
        rw [if_pos inside, if_neg (fun taken => ends taken.1)]
        omega

/-- An `int` keeps a number that it has room for. -/
theorem int_of_range {x : Int} (low : -2 ^ 31 ≤ x) (high : x < 2 ^ 31) : sN 32 x = x := by
  unfold sN
  omega

theorem tmod_natCast (a b : Nat) : (a : Int).tmod b = (a % b : Nat) := (Int.ofNat_tmod a b).symm

theorem tdiv_natCast (a b : Nat) : (a : Int).tdiv b = (a / b : Nat) := (Int.ofNat_tdiv a b).symm

/-- The date is the last of a month, and the year of the date is the one that was approximated. -/
def MonthEnd (t : Nat) : Prop := (dateOf t).EndsMonth ∧ approxYear t = (dateOf t).year

instance (t : Nat) : Decidable (MonthEnd t) := inferInstanceAs (Decidable (_ ∧ _))

/-- The seconds that the code comes to. -/
def seconds (t : Nat) : Int := unixSeconds t - if MonthEnd t then 86400 * ((dateOf t).day : Int) else 0

theorem cdfTimestampToTimespec_eq {t : Nat} (year : approxYear t ≤ 9999) :
    cdfTimestampToTimespec t =
      (if seconds t = -1 then -1 else 0, ⟨seconds t, (t % 10000000 : Nat) * 100⟩) := by
  have days : t / 10000000 / 60 / 60 / 24 = t / 10000000 / 86400 := by omega
  obtain ⟨mon, month, lt, back⟩ := @day_back (t / 10000000 / 86400) (dateOf t) rfl
  unfold approxYear at year
  have nsec : (t : Int).tmod CDF_TIME_PREC = (t % 10000000 : Nat) := tmod_natCast t 10000000
  have sec : (t : Int).tdiv CDF_TIME_PREC = (t / 10000000 : Nat) := tdiv_natCast t 10000000
  change _ = _ - (if MonthEnd t then ((dateOf t).day : Int) else 0) at back
  have total := Calendar.yearsFrom_le 1601 (t / 10000000 / 86400 / 365)
  unfold cdfTimestampToTimespec
  simp only [nsec, sec]
  generalize hT : t / 10000000 = T at *
  have minute : (T : Int).tdiv 60 = (T / 60 : Nat) := tdiv_natCast T 60
  have hour : ((T / 60 : Nat) : Int).tdiv 60 = (T / 60 / 60 : Nat) := tdiv_natCast (T / 60) 60
  have day : ((T / 60 / 60 : Nat) : Int).tdiv 24 = (T / 86400 : Nat) := days ▸ tdiv_natCast (T / 60 / 60) 24
  have approx : ((T / 86400 : Nat) : Int).tdiv 365 = (T / 86400 / 365 : Nat) := tdiv_natCast (T / 86400) 365
  have s : (T : Int).tmod 60 = (T % 60 : Nat) := tmod_natCast T 60
  have m : ((T / 60 : Nat) : Int).tmod 60 = (T / 60 % 60 : Nat) := tmod_natCast (T / 60) 60
  have h : ((T / 60 / 60 : Nat) : Int).tmod 24 = (T / 60 / 60 % 24 : Nat) := tmod_natCast (T / 60 / 60) 24
  have base : CDF_BASE_YEAR + ((T / 86400 / 365 : Nat) : Int) = (1601 + T / 86400 / 365 : Nat) := by
    rw [CDF_BASE_YEAR]
    omega
  have getdays := cdfGetdays_eq (T / 86400 / 365)
  rw [base] at getdays
  simp only [minute, hour, day, approx, s, m, h, base]
  rw [int_of_range (x := (1601 + T / 86400 / 365 : Nat)) (by omega) (by omega), getdays,
    if_neg (by omega), int_of_range (x := (T / 86400 : Nat) - _) (by omega) (by omega), month,
    int_of_range (x := (T % 60 : Nat)) (by omega) (by omega),
    int_of_range (x := (T / 60 % 60 : Nat)) (by omega) (by omega),
    int_of_range (x := (T / 60 / 60 % 24 : Nat)) (by omega) (by omega), mktime_eq _ _ _ _ lt]
  generalize cdfGetday _ _ = mday at back ⊢
  have time : ((T % 60 : Nat) + 60 * (T / 60 % 60 : Nat) + 3600 * (T / 60 / 60 % 24 : Nat) +
      86400 * (yearsFrom 1601 (T / 86400 / 365) + monthsBefore (1601 + T / 86400 / 365) mon + mday - 1 -
        134774) : Int) = seconds t := by
    rw [seconds, unixSeconds, hT, back]
    split <;> omega
  rw [time]
  split <;> rfl

/-- The exact result: the seconds of Unix, and an error only where they are the error value. -/
structure Converted (t : Nat) (r : Int × Timespec) : Prop where
  sec : r.2.sec = unixSeconds t
  nsec : r.2.nsec = (t % 10000000 : Nat) * 100
  failed : r.1 = if unixSeconds t = -1 then -1 else 0

def Timespec.Le (a b : Timespec) : Prop := a.sec < b.sec ∨ a.sec = b.sec ∧ a.nsec ≤ b.nsec

/-- The approximation is at most six years late. -/
theorem approxYear_le {t : Nat} (year : (dateOf t).year ≤ 9990) : approxYear t ≤ 9999 := by
  have le := Date.le_year_after 1601 (t / 10000000 / 86400)
  have count := Date.days_after 1601 (t / 10000000 / 86400)
  have high := (Date.days_lt 1601 (dateOf t) le).2
  have years : yearsFrom 1601 ((dateOf t).year - 1601 + 1) ≤ yearsFrom 1601 8390 :=
    Calendar.yearsFrom_mono 1601 (by omega)
  have last : yearsFrom 1601 8390 = 3064384 := by
    have whole := Calendar.yearsFrom_eq 1601 8390
    unfold leapsUpTo at whole
    omega
  unfold approxYear
  unfold dateOf at *
  omega

theorem converted_iff {t : Nat} (year : (dateOf t).year ≤ 9990) :
    Converted t (cdfTimestampToTimespec t) ↔ ¬ MonthEnd t := by
  have day_pos := (dateOf t).day_pos
  rw [cdfTimestampToTimespec_eq (approxYear_le year)]
  constructor
  · intro converted ends
    have sec : seconds t = unixSeconds t := converted.sec
    rw [seconds, if_pos ends] at sec
    omega
  · intro inside
    have sec : seconds t = unixSeconds t := by rw [seconds, if_neg inside, Int.sub_zero]
    rw [sec]
    exact ⟨rfl, rfl, rfl⟩

/-- The conversion is exact for every timestamp that is not on the last day of a month of the year that
was approximated, and among those it keeps the order. -/
theorem timestamp_exact_iff (t : Nat) (year : (dateOf t).year ≤ 9990) :
    (Converted t (cdfTimestampToTimespec t) ↔ ¬ MonthEnd t) ∧
    ∀ t' : Nat, t ≤ t' → (dateOf t').year ≤ 9990 → ¬ MonthEnd t → ¬ MonthEnd t' →
      (cdfTimestampToTimespec t).2.Le (cdfTimestampToTimespec t').2 := by
  refine ⟨converted_iff year, ?_⟩
  intro t' le year' inside inside'
  have converted := (converted_iff year).mpr inside
  have converted' := (converted_iff year').mpr inside'
  unfold Timespec.Le
  rw [converted.sec, converted.nsec, converted'.sec, converted'.nsec]
  unfold unixSeconds
  omega

theorem timestamp_exact_thirtieth :
    ((dateOf 25056000000000).year ≤ 9990 ∧ ¬ MonthEnd 25056000000000) ∧
    Converted 25056000000000 (cdfTimestampToTimespec 25056000000000) := by
  have year : (dateOf 25056000000000).year ≤ 9990 := by decide +kernel
  have inside : ¬ MonthEnd 25056000000000 := by decide +kernel
  exact ⟨⟨year, inside⟩, (timestamp_exact_iff 25056000000000 year).1.mpr inside⟩

/-- 1601-01-31 comes out as 1600-12-31, and so before 1601-01-30. -/
theorem timestamp_not_exact :
    ((dateOf 25920000000000).year = 1601 ∧ (dateOf 25920000000000).month = 0 ∧
      (dateOf 25920000000000).day = 31) ∧
    ¬ Converted 25920000000000 (cdfTimestampToTimespec 25920000000000) ∧
    ¬ (cdfTimestampToTimespec 25056000000000).2.Le (cdfTimestampToTimespec 25920000000000).2 := by
  have before : (cdfTimestampToTimespec 25056000000000).2 = ⟨-11641968000, 0⟩ := by decide +kernel
  have after : (cdfTimestampToTimespec 25920000000000).2 = ⟨-11644560000, 0⟩ := by decide +kernel
  refine ⟨by decide +kernel, ?_, ?_⟩
  · intro converted
    have sec := converted.sec
    rw [after] at sec
    exact absurd sec (by decide +kernel)
  · rw [before, after]
    rintro (lt | ⟨same, _⟩)
    · exact absurd lt (by decide)
    · exact absurd same (by decide)

end Libmagic.Cdf
