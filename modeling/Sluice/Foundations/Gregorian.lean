import Mathlib.Algebra.Order.Ring.Int
import Mathlib.Order.Monotone.Basic
import Mathlib.Order.SuccPred.IntervalSucc
import Mathlib.Tactic.IntervalCases

/-
  The proleptic Gregorian calendar.

  Months are counted through: month `k` is month `k % 12` of
  year `k / 12`, both from zero, so that adding months is
  addition. Days are counted from 1 January 1970. A date is a
  month and a day in it; the number of a day determines its
  date, and out-of-range days carry over into the following
  months.

  Key definitions include:
    * `isLeap`, `daysIn` and `monthStart`
    * `Date` and `Date.number`
    * `dateOf`
    * `addDate`

  Key theorems include:
    * `monthStart_succ` and `monthStart_le`
    * `number_dateOf` and `Date.number_injective`
    * `month_addDate`
-/

------------------------------------------------------------
-- Months
------------------------------------------------------------

namespace Foundations

namespace Gregorian

def isLeap (year : Int) : Bool :=
  year % 4 = 0 && (year % 100 ≠ 0 || year % 400 = 0)

/- The days of February in a year. -/
def februaryDays (year : Int) : Int :=
  if isLeap year then 29 else 28

/- The number of days of month `k`. -/
def daysIn (k : Int) : Int :=
  match k % 12 with
  | 1 => februaryDays (k / 12)
  | 3 => 30
  | 5 => 30
  | 8 => 30
  | 10 => 30
  | _ => 31

/- The days of the years before this one, from year zero. -/
def daysBeforeYear (year : Int) : Int :=
  365 * year + (year + 3) / 4 - (year + 99) / 100 +
    (year + 399) / 400

/- The days of a year before one of its months. -/
def daysBeforeMonth (year month : Int) : Int :=
  match month with
  | 0 => 0
  | 1 => 31
  | 2 => 31 + februaryDays year
  | 3 => 62 + februaryDays year
  | 4 => 92 + februaryDays year
  | 5 => 123 + februaryDays year
  | 6 => 153 + februaryDays year
  | 7 => 184 + februaryDays year
  | 8 => 215 + februaryDays year
  | 9 => 245 + februaryDays year
  | 10 => 276 + februaryDays year
  | _ => 306 + februaryDays year

/- The number of the first day of month `k`. -/
def monthStart (k : Int) : Int :=
  daysBeforeYear (k / 12) + daysBeforeMonth (k / 12) (k % 12) -
    719528

theorem februaryDays_bounds (year : Int) :
    28 ≤ februaryDays year ∧ februaryDays year ≤ 29 := by
  unfold februaryDays
  split <;> omega

theorem daysIn_bounds (k : Int) :
    28 ≤ daysIn k ∧ daysIn k ≤ 31 := by
  have hFebruary := februaryDays_bounds (k / 12)
  unfold daysIn
  split <;> omega

theorem daysBeforeYear_succ (year : Int) :
    daysBeforeYear (year + 1) =
      daysBeforeYear year + 337 + februaryDays year := by
  unfold daysBeforeYear februaryDays isLeap
  simp only [Bool.and_eq_true, Bool.or_eq_true,
    decide_eq_true_eq]
  split <;> omega

/- Months follow one another without a gap. -/
theorem monthStart_succ (k : Int) :
    monthStart (k + 1) = monthStart k + daysIn k := by
  have hLow : 0 ≤ k % 12 := by omega
  have hHigh : k % 12 < 12 := by omega
  unfold monthStart daysIn
  by_cases hLast : k % 12 = 11
  · have hYear : (k + 1) / 12 = k / 12 + 1 := by omega
    have hMonth : (k + 1) % 12 = 0 := by omega
    rw [hYear, hMonth, hLast, daysBeforeYear_succ]
    simp only [daysBeforeMonth]
    omega
  · have hYear : (k + 1) / 12 = k / 12 := by omega
    have hMonth : (k + 1) % 12 = k % 12 + 1 := by omega
    rw [hYear, hMonth]
    generalize k % 12 = m at hLow hHigh hLast
    generalize daysBeforeYear (k / 12) = before
    interval_cases m <;>
      simp only [daysBeforeMonth, Int.reduceAdd] <;> omega

theorem monthStart_le
    {k k' : Int}
    (hLe : k ≤ k') :
    monthStart k ≤ monthStart k' := by
  refine monotone_int_of_le_succ ?_ hLe
  intro k
  rw [monthStart_succ]
  have hDays := (daysIn_bounds k).1
  omega

theorem monthStart_add_le (k : Int) (n : Nat) :
    monthStart (k + n) ≤ monthStart k + 31 * n := by
  induction n with
  | zero => simp
  | succ n ih =>
      have hNext := monthStart_succ (k + n)
      have hDays := (daysIn_bounds (k + n)).2
      rw [Nat.cast_succ, ← Int.add_assoc, hNext]
      omega

theorem monthStart_sub_le (k : Int) (n : Nat) :
    monthStart (k - n) ≤ monthStart k - 28 * n := by
  induction n with
  | zero => simp
  | succ n ih =>
      have hNext := monthStart_succ (k - (n + 1 : Nat))
      have hDays := (daysIn_bounds (k - (n + 1 : Nat))).1
      have hSame : k - (n + 1 : Nat) + 1 = k - n := by omega
      rw [hSame] at hNext
      omega

------------------------------------------------------------
-- Dates
------------------------------------------------------------

/- A day of a month, counted from one. -/
@[ext]
structure Date where
  month : Int
  day : Int
  one_le : 1 ≤ day
  le_daysIn : day ≤ daysIn month

namespace Date

def year (d : Date) : Int :=
  d.month / 12

/- The month of the year, with January as one. -/
def monthOfYear (d : Date) : Int :=
  d.month % 12 + 1

/- The days since 1 January 1970. -/
def number (d : Date) : Int :=
  monthStart d.month + d.day - 1

theorem number_lt_of_month_lt
    {d e : Date}
    (hMonth : d.month < e.month) :
    d.number < e.number := by
  have hNext : monthStart (d.month + 1) ≤ monthStart e.month :=
    monthStart_le hMonth
  rw [monthStart_succ] at hNext
  have hDay := d.le_daysIn
  have hFirst := e.one_le
  unfold number
  omega

/- Two dates are not the same day. -/
theorem number_injective : Function.Injective number := by
  intro d e hNumber
  rcases lt_trichotomy d.month e.month with
    hLess | hSame | hMore
  · exact absurd hNumber (number_lt_of_month_lt hLess).ne
  · refine Date.ext hSame ?_
    unfold number at hNumber
    rw [hSame] at hNumber
    omega
  · exact absurd hNumber (number_lt_of_month_lt hMore).ne'

end Date

/- Carry a day that is past its month over into the next. -/
def carry : Nat → Int → Int → Int × Int
| 0, k, day => (k, day)
| n + 1, k, day =>
    if day ≤ daysIn k then (k, day)
    else carry n (k + 1) (day - daysIn k)

theorem carry_spec
    (n : Nat)
    (k day : Int)
    (hFirst : 1 ≤ day)
    (hFuel : day ≤ n) :
    1 ≤ (carry n k day).2 ∧
      (carry n k day).2 ≤ daysIn (carry n k day).1 ∧
      monthStart (carry n k day).1 + (carry n k day).2 =
        monthStart k + day := by
  induction n generalizing k day with
  | zero => omega
  | succ n ih =>
      unfold carry
      split
      · rename_i hIn
        exact ⟨hFirst, hIn, rfl⟩
      · rename_i hOut
        have hDays := (daysIn_bounds k).1
        have hRest := ih (k + 1) (day - daysIn k) (by omega)
          (by omega)
        rw [monthStart_succ] at hRest
        exact ⟨hRest.1, hRest.2.1, by omega⟩

/- A month that starts on this day or before. -/
def monthBefore (number : Int) : Int :=
  if 0 ≤ number then 23640 + number / 31
  else 23640 + number / 28

theorem monthStart_monthBefore_le (number : Int) :
    monthStart (monthBefore number) ≤ number := by
  have hEpoch : monthStart 23640 = 0 := by decide
  unfold monthBefore
  split
  · have hNat : ((number / 31).toNat : Int) = number / 31 :=
      Int.toNat_of_nonneg (by omega)
    have hLe := monthStart_add_le 23640 (number / 31).toNat
    rw [hNat, hEpoch] at hLe
    omega
  · have hNat :
        ((-(number / 28)).toNat : Int) = -(number / 28) :=
      Int.toNat_of_nonneg (by omega)
    have hLe := monthStart_sub_le 23640 (-(number / 28)).toNat
    rw [hNat, hEpoch, Int.sub_neg] at hLe
    omega

/- The day counted from the start of that month. -/
def dayFrom (number : Int) : Int :=
  number - monthStart (monthBefore number) + 1

def carried (number : Int) : Int × Int :=
  carry (dayFrom number).toNat (monthBefore number)
    (dayFrom number)

theorem carried_spec (number : Int) :
    1 ≤ (carried number).2 ∧
      (carried number).2 ≤ daysIn (carried number).1 ∧
      monthStart (carried number).1 + (carried number).2 =
        number + 1 := by
  have hLe := monthStart_monthBefore_le number
  have hFirst : 1 ≤ dayFrom number := by
    unfold dayFrom
    omega
  have hSpec := carry_spec (dayFrom number).toNat
    (monthBefore number) (dayFrom number) hFirst
    (Int.self_le_toNat _)
  refine ⟨hSpec.1, hSpec.2.1, hSpec.2.2.trans ?_⟩
  unfold dayFrom
  omega

/- The date of a day. -/
def dateOf (number : Int) : Date where
  month := (carried number).1
  day := (carried number).2
  one_le := (carried_spec number).1
  le_daysIn := (carried_spec number).2.1

theorem number_dateOf (number : Int) :
    (dateOf number).number = number := by
  have hSpec := (carried_spec number).2.2
  simp only [Date.number, dateOf]
  omega

theorem dateOf_number (d : Date) : dateOf d.number = d :=
  Date.number_injective (number_dateOf d.number)

/- Add to each part of a date, and carry over. -/
def addDate (d : Date) (years months days : Int) : Date :=
  dateOf
    (monthStart (d.month + 12 * years + months) +
      (d.day + days) - 1)

/-
  Adding months leads to the month meant, unless it is too
  short for the day: then the day carries over into the next.
-/
theorem month_addDate (d : Date) (i : Int) :
    (addDate d 0 i 0).month =
      if d.day ≤ daysIn (d.month + i) then d.month + i
      else d.month + i + 1 := by
  have hFirst := d.one_le
  have hLast := (daysIn_bounds d.month).2
  have hDay := d.le_daysIn
  split
  · rename_i hIn
    have hDate := dateOf_number
      ⟨d.month + i, d.day, d.one_le, hIn⟩
    unfold Date.number at hDate
    unfold addDate
    simp only [Int.mul_zero, Int.add_zero]
    rw [hDate]
  · rename_i hOut
    have hShort := (daysIn_bounds (d.month + i)).1
    have hLong := (daysIn_bounds (d.month + i + 1)).1
    have hDate := dateOf_number
      ⟨d.month + i + 1, d.day - daysIn (d.month + i),
        by omega, by omega⟩
    have hNext := monthStart_succ (d.month + i)
    unfold Date.number at hDate
    simp only [hNext] at hDate
    unfold addDate
    simp only [Int.mul_zero, Int.add_zero]
    have hSame :
        monthStart (d.month + i) + daysIn (d.month + i) +
            (d.day - daysIn (d.month + i)) - 1 =
          monthStart (d.month + i) + d.day - 1 := by
      omega
    rw [hSame] at hDate
    rw [hDate]

/-
  No two months in a row are too short for one day of the
  month.
-/
theorem daysIn_succ_of_short
    {k : Int}
    (hShort : daysIn k < 31) :
    daysIn (k + 1) = 31 := by
  have hLow : 0 ≤ k % 12 := by omega
  have hHigh : k % 12 < 12 := by omega
  have hNext :
      (k + 1) % 12 = if k % 12 = 11 then 0 else k % 12 + 1 := by
    split <;> omega
  unfold daysIn at hShort ⊢
  rw [hNext]
  generalize k % 12 = m at hLow hHigh hShort
  interval_cases m <;> simp_all

end Gregorian

end Foundations
