import Finverse.Insights.Dates

/-! The steps between dates as differences of days and of months. -/

namespace Finverse.Insights

open Imports (daysBeforeMonth daysInMonth utcYear dayNumber isLeapYear)

namespace Date

variable {a b date : Date}

theorem ext_parts (year : a.year = b.year) (month : a.month = b.month) (day : a.day = b.day) :
    a = b := by
  cases a
  cases b
  simp only at year month day
  subst year month day
  rfl

/-- A later text is a later day. -/
theorem number_lt (h : a.digits < b.digits) : a.number < b.number := by
  have month := a.month_valid
  have month' := b.month_valid
  have day := a.digits_day
  have day' := b.digits_day
  simp only [digits] at h
  rcases Nat.lt_or_ge a.year b.year with earlier | notEarlier
  · exact dayNumber_lt_of_year earlier a.month_valid a.day_valid.2 b.day_valid.1
  · obtain year : a.year = b.year := by omega
    rcases Nat.lt_or_ge a.month b.month with before | notBefore
    · exact dayNumber_lt_of_month year before a.month_valid.1 a.day_valid.2 b.day_valid.1
    · obtain same : a.month = b.month := by omega
      rw [number, number, dayNumber, dayNumber, year, same]
      omega

theorem year_le_of_digits (h : a.digits ≤ b.digits) : a.year ≤ b.year := by
  have month := a.month_valid
  have month' := b.month_valid
  have day := a.digits_day
  have day' := b.digits_day
  rw [digits, digits] at h
  omega

theorem le_iff_number : a ≤ b ↔ a.number ≤ b.number := by
  refine ⟨number_le, fun h => ?_⟩
  by_contra later
  exact absurd (number_lt (Nat.lt_of_not_le later)) (Nat.not_lt.mpr h)

theorem lt_iff_number : a.digits < b.digits ↔ a.number < b.number := by
  refine ⟨number_lt, fun h => ?_⟩
  by_contra later
  exact absurd (number_le (a := b) (b := a) (Nat.le_of_not_lt later)) (Nat.not_le.mpr h)

/-! ### Days -/

theorem number_eq (date : Date) :
    date.number = daysBeforeYear date.year + daysBeforeMonth date.year date.month + date.day := rfl

theorem number_nextDay (date : Date) : date.nextDay.number = date.number + 1 := by
  have month := date.month_valid
  have day := date.day_valid
  rw [nextDay]
  split
  · rfl
  rename_i last
  have end_ : date.day = daysInMonth date.year date.month := by omega
  split
  · rw [number_eq, number_eq, daysBeforeMonth_add month.1, end_]
    dsimp only
    omega
  · rename_i december
    have twelve : date.month = 12 := by omega
    have year : daysBeforeMonth date.year 13 =
        daysBeforeMonth date.year 12 + daysInMonth date.year 12 := daysBeforeMonth_add (by omega)
    have none_before : daysBeforeMonth (date.year + 1) 1 = 0 := rfl
    rw [number_eq, number_eq]
    dsimp only
    rw [daysBeforeYear_succ, none_before]
    rw [twelve] at end_ ⊢
    omega

theorem number_addDays (date : Date) (days : Nat) :
    (date.addDays days).number = date.number + days := by
  induction days with
  | zero => rfl
  | succ days ih =>
    rw [addDays, Function.iterate_succ_apply', number_nextDay]
    rw [addDays] at ih
    omega

theorem eq_of_number (h : a.number = b.number) : a = b :=
  le_antisymm (le_iff_number.mpr h.le) (le_iff_number.mpr h.ge)

/-- Within a month the days are counted on. -/
theorem addDays_day (date : Date) {days : Nat}
    (valid : date.day + days ≤ daysInMonth date.year date.month) :
    date.addDays days = { date with
      day := date.day + days
      day_valid := ⟨Nat.le_trans date.day_valid.1 (Nat.le_add_right _ _), valid⟩ } := by
  apply eq_of_number
  rw [number_addDays, number_eq, number_eq]
  dsimp only
  omega

theorem year_le_addDays (date : Date) (days : Nat) : date.year ≤ (date.addDays days).year := by
  by_contra earlier
  have before : (date.addDays days).number < date.number :=
    dayNumber_lt_of_year (Nat.lt_of_not_le earlier) (date.addDays days).month_valid
      (date.addDays days).day_valid.2 date.day_valid.1
  rw [number_addDays] at before
  omega

theorem number_le_year (date : Date) : date.number ≤ daysBeforeYear (date.year + 1) := by
  have within := daysBeforeMonth_le date.year date.month_valid.1
    (by have last := date.month_valid.2; omega : date.month < 13)
  have last := date.day_valid.2
  rw [number_eq, daysBeforeYear_succ]
  omega

theorem daysBeforeYear_add (year : Nat) : daysBeforeYear year + 365 ≤ daysBeforeYear (year + 1) := by
  rw [daysBeforeYear_succ, daysBeforeMonth_thirteen]
  split <;> omega

theorem year_addDays_le (date : Date) {days : Nat} (few : days ≤ 366) :
    (date.addDays days).year ≤ date.year + 2 := by
  have here := number_le_year date
  have there := number_addDays date days
  have next : daysBeforeYear (date.year + 1) + 365 ≤ daysBeforeYear (date.year + 2) :=
    daysBeforeYear_add _
  have after : daysBeforeYear (date.year + 2) + 365 ≤ daysBeforeYear (date.year + 3) :=
    daysBeforeYear_add _
  by_contra later
  have begins : daysBeforeYear (date.year + 3) ≤ daysBeforeYear (date.addDays days).year :=
    monotone_nat_of_le_succ (fun y => (Nat.le_add_right _ _).trans (daysBeforeYear_add y))
      (by omega)
  have first := (date.addDays days).day_valid.1
  rw [number_eq] at there
  omega

/-! ### Months -/

/-- The months since a fixed month. -/
def months (date : Date) : Nat := date.year * 12 + (date.month - 1)

theorem months_firstOfMonth (date : Date) (count : Nat) :
    (date.firstOfMonth count).months = date.months + count := by
  have month := date.month_valid
  rw [months, months, firstOfMonth]
  dsimp only
  omega

/-- The day of the month that many months later, or the last one there is. -/
def sameDay (date : Date) (count : Nat) : Date :=
  let first := date.firstOfMonth count
  { first with
    day := min date.day (daysInMonth first.year first.month)
    day_valid := by
      have last := daysInMonth_pos first.year first.month
      have valid := date.day_valid
      omega }

theorem months_sameDay (date : Date) (count : Nat) :
    (date.sameDay count).months = date.months + count := months_firstOfMonth date count

theorem sameDay_zero (date : Date) : date.sameDay 0 = date := by
  have month := date.month_valid
  have day := date.day_valid
  have year : (date.firstOfMonth 0).year = date.year := by
    rw [firstOfMonth]
    dsimp only
    omega
  have same : (date.firstOfMonth 0).month = date.month := by
    rw [firstOfMonth]
    dsimp only
    omega
  refine ext_parts year same ?_
  rw [sameDay]
  dsimp only
  rw [year, same]
  omega

theorem firstOfMonth_firstOfMonth (date : Date) (count more : Nat) :
    (date.firstOfMonth count).firstOfMonth more = date.firstOfMonth (count + more) := by
  have month := date.month_valid
  refine ext_parts ?_ ?_ rfl
  · simp only [firstOfMonth]
    omega
  · simp only [firstOfMonth]
    omega

theorem firstOfMonth_addMonths (date : Date) (count more : Nat) :
    (date.firstOfMonth count).addMonths more = date.firstOfMonth (count + more) := by
  rw [← firstOfMonth_firstOfMonth]
  refine ext_parts rfl rfl ?_
  have some_ := daysInMonth_pos (utcYear ((date.firstOfMonth count).firstOfMonth more).year)
    ((date.firstOfMonth count).firstOfMonth more).month
  change min 1 (daysInMonth (utcYear ((date.firstOfMonth count).firstOfMonth more).year)
    ((date.firstOfMonth count).firstOfMonth more).month) = 1
  omega

/-- Only February of the year 0 has a day more than `Date.UTC` gives it. -/
theorem daysInMonth_utcYear_eq (year month : Nat) :
    daysInMonth (utcYear year) month =
      if year = 0 ∧ month = 2 then 28 else daysInMonth year month := by
  unfold daysInMonth utcYear
  by_cases february : month = 2
  · by_cases zero : year = 0
    · simp [february, zero, isLeapYear]
    by_cases early : year < 100
    · have leap : isLeapYear (1900 + year) ↔ isLeapYear year := by
        unfold isLeapYear
        omega
      simp [february, zero, early, leap]
    · simp [early, zero]
  · simp [february]

/-- The clamped day is the day of the month but for February of the year 0. -/
theorem addMonths_eq_sameDay_iff (date : Date) (count : Nat) :
    date.addMonths count = date.sameDay count ↔
      ¬((date.firstOfMonth count).year = 0 ∧ (date.firstOfMonth count).month = 2 ∧
        29 ≤ date.day) := by
  have clamp := daysInMonth_utcYear_eq (date.firstOfMonth count).year
    (date.firstOfMonth count).month
  have within := daysInMonth_pos (date.firstOfMonth count).year (date.firstOfMonth count).month
  have left : (date.addMonths count).day = min date.day
    (daysInMonth (utcYear (date.firstOfMonth count).year) (date.firstOfMonth count).month) := rfl
  have right : (date.sameDay count).day = min date.day
    (daysInMonth (date.firstOfMonth count).year (date.firstOfMonth count).month) := rfl
  constructor
  · rintro same ⟨zero, february, long⟩
    have days := congrArg Date.day same
    have leap : daysInMonth 0 2 = 29 := by decide
    rw [left, right, clamp, if_pos ⟨zero, february⟩, zero, february, leap] at days
    omega
  · intro usual
    refine ext_parts rfl rfl ?_
    rw [left, right, clamp]
    split
    · rename_i zero
      have short : date.day ≤ 28 := by
        by_contra long
        exact usual ⟨zero.1, zero.2, by omega⟩
      omega
    · rfl

theorem digits_lt_of_months (h : a.months < b.months) : a.digits < b.digits := by
  have month := a.month_valid
  have month' := b.month_valid
  have day := a.digits_day
  have day' := b.digits_day
  rw [months, months] at h
  rw [digits, digits]
  omega

theorem sameDay_lt (date : Date) {count later : Nat} (h : count < later) :
    (date.sameDay count).digits < (date.sameDay later).digits := by
  apply digits_lt_of_months
  rw [months_sameDay, months_sameDay]
  omega

/-! ### A year of months -/

theorem daysInMonth_leap (year month : Nat) :
    daysInMonth year month = daysInMonth 1 month + if month = 2 ∧ isLeapYear year then 1 else 0 := by
  have common : ¬isLeapYear 1 := by decide
  by_cases february : month = 2
  · by_cases leap : isLeapYear year <;> simp [daysInMonth, february, leap, common]
  · simp [daysInMonth, february]

theorem daysBeforeMonth_leap (year : Nat) {month : Nat} (pos : 1 ≤ month) :
    daysBeforeMonth year month =
      daysBeforeMonth 1 month + if 2 < month ∧ isLeapYear year then 1 else 0 := by
  induction month, pos using Nat.le_induction with
  | base => rfl
  | succ month pos ih =>
    rw [daysBeforeMonth_add pos, daysBeforeMonth_add pos, ih, daysInMonth_leap year month]
    by_cases leap : isLeapYear year
    · rcases Nat.lt_trichotomy month 2 with before | rfl | after
      · simp [leap, show ¬2 < month by omega, show ¬2 < month + 1 by omega, Nat.ne_of_lt before]
      · simp [leap, Nat.add_assoc]
      · simp only [leap, after, and_true, if_true, Nat.ne_of_gt after, if_false,
          show 2 < month + 1 by omega]
        omega
    · simp [leap]

/-- Twelve months are a year, of 366 days at most. -/
theorem number_sameDay_year (date : Date) (count : Nat) :
    (date.sameDay (count + 12)).number ≤ (date.sameDay count).number + 366 := by
  have year : (date.sameDay (count + 12)).year = (date.sameDay count).year + 1 := by
    simp only [sameDay, firstOfMonth]
    omega
  have month : (date.sameDay (count + 12)).month = (date.sameDay count).month := by
    simp only [sameDay, firstOfMonth]
    omega
  have day : ∀ count, (date.sameDay count).day =
      min date.day (daysInMonth (date.sameDay count).year (date.sameDay count).month) :=
    fun _ => rfl
  have pos := (date.sameDay count).month_valid.1
  rw [number_eq, number_eq, day, day, year, month, daysBeforeYear_succ, daysBeforeMonth_thirteen,
    daysBeforeMonth_leap _ pos, daysBeforeMonth_leap (date.sameDay count).year pos,
    daysInMonth_leap, daysInMonth_leap (date.sameDay count).year]
  -- only a leap day of the one year or of the other makes the 366th
  by_cases leap : isLeapYear (date.sameDay count).year
  · by_cases next : isLeapYear ((date.sameDay count).year + 1)
    · unfold isLeapYear at leap next
      omega
    simp only [leap, next, and_true, and_false, if_true, if_false]
    split_ifs <;> omega
  · simp only [leap, and_false, if_false]
    split_ifs <;> omega

theorem sameDay_le (date : Date) {count later : Nat} (h : count ≤ later) :
    (date.sameDay count).digits ≤ (date.sameDay later).digits := by
  rcases Nat.lt_or_eq_of_le h with before | rfl
  · exact Nat.le_of_lt (sameDay_lt date before)
  · exact Nat.le_refl _

end Date

end Finverse.Insights
