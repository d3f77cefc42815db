import Mathlib.Algebra.Ring.Int.Defs
import Mathlib.Algebra.Ring.Nat
import Mathlib.Logic.Function.Iterate
import Mathlib.Order.Monotone.Basic

/-!
# Build.Calendar — the date of a day count

`civilFromDays` turns the days since 1970-01-01 into a date. The years it counts begin in March,
so that the leap day is a year's last: a count is an era of 400 years, a year of the era and a
day of the year (`Counted`), and the date is read off these (`civilFromDays_eq`).

The dates of the counts are the dates in their order from the first one on (`civil_dates`).
-/

namespace Tdvmm.Build

abbrev Date := Int × Int × Int

/-- `civil_from_days`; the source divides towards zero. -/
def civilFromDays (z : Int) : Date :=
  let z := z + 719468
  let era := (if z ≥ 0 then z else z - 146096).tdiv 146097
  let doe := z - era * 146097
  let yoe := (doe - doe.tdiv 1460 + doe.tdiv 36524 - doe.tdiv 146096).tdiv 365
  let y := yoe + era * 400
  let doy := doe - (365 * yoe + yoe.tdiv 4 - yoe.tdiv 100)
  let mp := (5 * doy + 2).tdiv 153
  let d := doy - (153 * mp + 2).tdiv 5 + 1
  let m := if mp < 10 then mp + 3 else mp - 9
  (if m ≤ 2 then y + 1 else y, m, d)

/-! ## The calendar -/

def IsLeap (y : Int) : Prop := y % 4 = 0 ∧ (y % 100 ≠ 0 ∨ y % 400 = 0)

instance (y : Int) : Decidable (IsLeap y) := inferInstanceAs (Decidable (_ ∧ _))

def daysIn (y m : Int) : Int :=
  if m = 2 then if IsLeap y then 29 else 28
  else if m = 4 ∨ m = 6 ∨ m = 9 ∨ m = 11 then 30
  else 31

def ValidDate (t : Date) : Prop := 1 ≤ t.2.1 ∧ t.2.1 ≤ 12 ∧ 1 ≤ t.2.2 ∧ t.2.2 ≤ daysIn t.1 t.2.1

def nextDate (t : Date) : Date :=
  if t.2.2 < daysIn t.1 t.2.1 then (t.1, t.2.1, t.2.2 + 1)
  else if t.2.1 < 12 then (t.1, t.2.1 + 1, 1)
  else (t.1 + 1, 1, 1)

/-! ## Years from March on -/

/-- The days of an era before one of its years. -/
def yearStart (yoe : Nat) : Nat := 365 * yoe + yoe / 4 - yoe / 100

/-- The last year of an era has the leap day of the era. -/
def yearLength (yoe : Nat) : Nat :=
  if yoe = 399 then 366 else yearStart (yoe + 1) - yearStart yoe

/-- Month and day of a day of such a year. -/
def monthDay (doy : Nat) : Nat × Nat :=
  let mp := (5 * doy + 2) / 153
  (if mp < 10 then mp + 3 else mp - 9, doy - (153 * mp + 2) / 5 + 1)

/-- The date of a day of the year that begins in March of `y`. -/
def dateOf (y : Int) (doy : Nat) : Date :=
  (if (monthDay doy).1 ≤ 2 then y + 1 else y, (monthDay doy).1, (monthDay doy).2)

/-- A day count by era, year of the era and day of the year. -/
structure Counted (n era yoe doy : Nat) : Prop where
  year : yoe < 400
  day : doy < yearLength yoe
  count : n + 719468 = era * 146097 + yearStart yoe + doy

variable {doy yoe : Nat}

theorem yearLength_eq (h : yoe < 400) (era : Nat) :
    yearLength yoe = if IsLeap (era * 400 + yoe + 1) then 366 else 365 := by
  have htable : ∀ yoe < 400,
      yearLength yoe = if IsLeap ((yoe : Int) + 1) then 366 else 365 := by decide +kernel
  have hperiod : IsLeap (era * 400 + yoe + 1) ↔ IsLeap ((yoe : Int) + 1) := by
    unfold IsLeap
    omega
  rw [htable yoe h]
  simp only [hperiod]

/-- The days of an era without its leap days, which the year is read off. -/
def plainDays (doe : Nat) : Nat := doe - doe / 1460 + doe / 36524 - doe / 146096

theorem plainDays_mono : Monotone plainDays := by
  refine monotone_nat_of_le_succ fun doe => ?_
  unfold plainDays
  omega

theorem plainDays_div (hyear : yoe < 400) (hday : doy < yearLength yoe) :
    plainDays (yearStart yoe + doy) / 365 = yoe := by
  have htable : ∀ yoe < 400, yoe ≤ plainDays (yearStart yoe) / 365 ∧
      plainDays (yearStart yoe + (yearLength yoe - 1)) / 365 ≤ yoe := by decide +kernel
  obtain ⟨hfirst, hlast⟩ := htable yoe hyear
  refine Nat.le_antisymm (Nat.le_trans (Nat.div_le_div_right ?_) hlast)
    (Nat.le_trans hfirst (Nat.div_le_div_right ?_))
  · exact plainDays_mono (by omega)
  · exact plainDays_mono (by omega)

theorem yearLength_le (h : yoe < 400) :
    365 ≤ yearLength yoe ∧ yearLength yoe ≤ 366 := by
  rw [yearLength_eq h 0]
  split_ifs <;> decide

theorem yearStart_add_lt (hyear : yoe < 400) (hday : doy < yearLength yoe) :
    yearStart yoe + doy < 146097 := by
  unfold yearLength yearStart at *
  split_ifs at hday <;> omega

theorem civilFromDays_eq {n era : Nat} (h : Counted n era yoe doy) :
    civilFromDays n = dateOf (era * 400 + yoe) doy := by
  obtain ⟨hyear, hday, hcount⟩ := h
  have hlt := yearStart_add_lt hyear hday
  have hyoe := plainDays_div hyear hday
  have hstart : (yearStart yoe : Int) = 365 * yoe + yoe / 4 - yoe / 100 := by
    unfold yearStart
    omega
  generalize hdoe : yearStart yoe + doy = doe at hlt hyoe
  unfold plainDays at hyoe
  have hz : (n : Int) + 719468 = era * 146097 + doe := by omega
  have hera : ((era : Int) * 146097 + doe).tdiv 146097 = era := by
    rw [Int.tdiv_eq_ediv_of_nonneg (by omega)]
    omega
  have hdays : ((doe : Int) - doe / 1460 + doe / 36524 - doe / 146096) / 365 = yoe := by omega
  have hdoy : (doe : Int) - (365 * yoe + yoe / 4 - yoe / 100) = doy := by omega
  unfold civilFromDays dateOf monthDay
  simp only [hz, if_pos (show (era : Int) * 146097 + doe ≥ 0 by omega)]
  -- Every quotient left is one of natural numbers.
  simp only [hera, add_sub_cancel_left]
  simp (disch := omega) only [Int.tdiv_eq_ediv_of_nonneg, hdays, hdoy]
  have hmp : (5 * (doy : Int) + 2) / 153 = ((5 * doy + 2) / 153 : Nat) := by omega
  have hfirst : (153 * ((5 * doy + 2) / 153) + 2) / 5 ≤ doy := by omega
  rw [hmp]
  generalize (5 * doy + 2) / 153 = mp at hfirst
  refine Prod.ext ?_ (Prod.ext ?_ ?_)
  · dsimp only
    split_ifs <;> omega
  · dsimp only
    split_ifs <;> omega
  · dsimp only
    omega

theorem monthDay_valid : ∀ doy < 365,
    1 ≤ (monthDay doy).1 ∧ (monthDay doy).1 ≤ 12 ∧ 1 ≤ (monthDay doy).2 ∧
      ((monthDay doy).2 : Int) ≤ daysIn 1 (monthDay doy).1 := by decide +kernel

theorem monthDay_succ : ∀ doy < 365,
    monthDay (doy + 1) =
      if (monthDay doy).1 = 2 ∨ ((monthDay doy).2 : Int) < daysIn 1 (monthDay doy).1 then
        ((monthDay doy).1, (monthDay doy).2 + 1)
      else if (monthDay doy).1 < 12 then ((monthDay doy).1 + 1, 1)
      else (1, 1) := by decide +kernel

/-! ## The next day -/

theorem Counted.next {n era : Nat} (h : Counted n era yoe doy) :
    (doy + 1 < yearLength yoe ∧ Counted (n + 1) era yoe (doy + 1)) ∨
      (doy + 1 = yearLength yoe ∧ ∃ era' yoe', era' * 400 + yoe' = era * 400 + yoe + 1 ∧
        Counted (n + 1) era' yoe' 0) := by
  obtain ⟨hyear, hday, hcount⟩ := h
  rcases Nat.lt_or_ge (doy + 1) (yearLength yoe) with hin | hend
  · exact Or.inl ⟨hin, hyear, hin, by omega⟩
  · refine Or.inr ⟨by omega, ?_⟩
    by_cases hlast : yoe = 399
    · refine ⟨era + 1, 0, by omega, by decide, by decide, ?_⟩
      subst hlast
      have hlength : yearLength 399 = 366 := by decide
      have hbefore : yearStart 399 = 145731 := by decide
      have hfirst : yearStart 0 = 0 := by decide
      omega
    · have hnext : yoe + 1 < 400 := by omega
      refine ⟨era, yoe + 1, by omega, hnext, ?_, ?_⟩
      · have hlong := yearLength_le hnext
        omega
      · have hlength : yearLength yoe = yearStart (yoe + 1) - yearStart yoe := if_neg hlast
        omega

/-- Every count is counted so, the first one on the first of January 1970. -/
theorem exists_counted (n : Nat) : ∃ era yoe doy, Counted n era yoe doy := by
  induction n with
  | zero => exact ⟨4, 369, 306, by decide, by decide, by decide⟩
  | succ n ih =>
    obtain ⟨era, yoe, doy, h⟩ := ih
    rcases h.next with ⟨-, hnext⟩ | ⟨-, era', yoe', -, hnext⟩
    · exact ⟨_, _, _, hnext⟩
    · exact ⟨_, _, _, hnext⟩

theorem daysIn_eq (y m : Int) :
    daysIn y m = if m = 2 then (if IsLeap y then 29 else 28) else daysIn 1 m := by
  unfold daysIn
  split_ifs <;> rfl

theorem monthDay_february : ∀ doy < 366, (monthDay doy).1 = 2 → doy = 336 + (monthDay doy).2 := by
  decide +kernel

theorem monthDay_last : monthDay 364 = (2, 28) ∧ monthDay 365 = (2, 29) := by decide

theorem dateOf_valid (hyear : yoe < 400) (hday : doy < yearLength yoe) (era : Nat) :
    ValidDate (dateOf (era * 400 + yoe) doy) := by
  rw [yearLength_eq hyear era] at hday
  rcases Nat.lt_or_ge doy 365 with hplain | hlong
  · have hvalid := monthDay_valid doy hplain
    unfold ValidDate dateOf
    dsimp only
    rw [daysIn_eq] at hvalid ⊢
    have hcommon : ¬ IsLeap 1 := by decide
    rw [if_neg hcommon] at hvalid
    split_ifs at hvalid ⊢ <;> omega
  · -- The leap day itself.
    have hleap : IsLeap (era * 400 + yoe + 1) := by
      by_contra hnot
      rw [if_neg hnot] at hday
      omega
    have hdoy : doy = 365 := by
      rw [if_pos hleap] at hday
      omega
    subst hdoy
    simp [ValidDate, dateOf, monthDay_last.2, daysIn, hleap]

theorem dateOf_succ (hyear : yoe < 400) (hday : doy + 1 < yearLength yoe)
    (era : Nat) :
    dateOf (era * 400 + yoe) (doy + 1) = nextDate (dateOf (era * 400 + yoe) doy) := by
  rw [yearLength_eq hyear era] at hday
  have hplain : doy < 365 := by
    split_ifs at hday <;> omega
  have hvalid := monthDay_valid doy hplain
  have hfebruary := monthDay_february doy (by omega)
  unfold dateOf nextDate
  rw [monthDay_succ doy hplain]
  generalize monthDay doy = t at hvalid hfebruary
  obtain ⟨m, d⟩ := t
  dsimp only at hvalid hfebruary ⊢
  by_cases hm : m = 2
  · subst hm
    have hd : (d : Int) < daysIn (era * 400 + yoe + 1) 2 := by
      have hd := hfebruary rfl
      rw [daysIn_eq, if_pos rfl]
      split_ifs at hday ⊢ <;> omega
    simp [hd]
  · have hother (y : Int) : daysIn y m = daysIn 1 m := by
      rw [daysIn_eq, if_neg (by omega)]
    rw [hother (if m ≤ 2 then _ else _)]
    by_cases hd : (d : Int) < daysIn 1 m
    · simp [hd]
    · by_cases hlast : m < 12
      · have hsame : m + 1 ≤ 2 ↔ m ≤ 2 := by omega
        have hlast' : (m : Int) < 12 := by omega
        simp [hm, hd, hlast, hlast', hsame]
      · have hafter : ¬ m ≤ 2 := by omega
        have hlast' : ¬ (m : Int) < 12 := by omega
        simp [hm, hd, hlast, hlast', hafter]

theorem dateOf_last (hyear : yoe < 400) (hday : doy + 1 = yearLength yoe)
    (era : Nat) :
    dateOf (era * 400 + yoe + 1) 0 = nextDate (dateOf (era * 400 + yoe) doy) := by
  rw [yearLength_eq hyear era] at hday
  have hfirst : monthDay 0 = (3, 1) := by decide
  by_cases hleap : IsLeap (era * 400 + yoe + 1)
  · obtain rfl : doy = 365 := by simpa [hleap] using hday
    simp [dateOf, nextDate, hfirst, monthDay_last, daysIn, hleap]
  · obtain rfl : doy = 364 := by simpa [hleap] using hday
    simp [dateOf, nextDate, hfirst, monthDay_last, daysIn, hleap]

theorem civilFromDays_succ (n : Nat) :
    civilFromDays (n + 1 : Nat) = nextDate (civilFromDays n) := by
  obtain ⟨era, yoe, doy, h⟩ := exists_counted n
  rw [civilFromDays_eq h]
  rcases h.next with ⟨hin, hnext⟩ | ⟨hend, era', yoe', hyear, hnext⟩
  · rw [civilFromDays_eq hnext, dateOf_succ h.year hin]
  · have hyear' : (era' : Int) * 400 + yoe' = era * 400 + yoe + 1 := by omega
    rw [civilFromDays_eq hnext, hyear', dateOf_last h.year hend]

/-- From day 0 on the counts are the valid dates from the first of January 1970 on, each followed
by the next date of the calendar. -/
theorem civil_dates (n : Nat) :
    ValidDate (civilFromDays n) ∧ civilFromDays n = nextDate^[n] (1970, 1, 1) ∧
      civilFromDays (n + 1 : Nat) = nextDate (civilFromDays n) := by
  refine ⟨?_, ?_, civilFromDays_succ n⟩
  · obtain ⟨era, yoe, doy, h⟩ := exists_counted n
    rw [civilFromDays_eq h]
    exact dateOf_valid h.year h.day era
  · induction n with
    | zero => decide
    | succ n ih => rw [civilFromDays_succ, ih, Function.iterate_succ_apply']

end Tdvmm.Build
