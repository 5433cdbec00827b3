import Finverse.Imports.Review

/-! Calendar dates, and the steps from one to another. -/

namespace Finverse.Insights

open Imports (daysBeforeMonth daysInMonth utcYear dayNumber isLeapYear)

/-- What `YYYY-MM-DD` stands for. -/
structure Date where
  year : Nat
  month : Nat
  day : Nat
  month_valid : 1 ≤ month ∧ month ≤ 12
  day_valid : 1 ≤ day ∧ day ≤ daysInMonth year month
  deriving DecidableEq

theorem daysInMonth_pos (year month : Nat) : 28 ≤ daysInMonth year month := by
  unfold daysInMonth
  split
  · split <;> omega
  · split <;> omega

theorem daysInMonth_le (year month : Nat) : daysInMonth year month ≤ 31 := by
  unfold daysInMonth
  split
  · split <;> omega
  · split <;> omega

theorem daysBeforeMonth_add {year month : Nat} (pos : 1 ≤ month) :
    daysBeforeMonth year (month + 1) = daysBeforeMonth year month + daysInMonth year month := by
  obtain ⟨m, rfl⟩ : ∃ m, month = m + 1 := ⟨month - 1, by omega⟩
  simp [daysBeforeMonth, List.range_succ]

theorem daysBeforeMonth_le (year : Nat) {month later : Nat} (pos : 1 ≤ month) (before : month < later) :
    daysBeforeMonth year month + daysInMonth year month ≤ daysBeforeMonth year later := by
  induction later, before using Nat.le_induction with
  | base => exact (daysBeforeMonth_add pos).ge
  | succ later before ih =>
    rw [daysBeforeMonth_add (by omega)]
    omega

/-- The days of the whole year. -/
theorem daysBeforeMonth_thirteen (year : Nat) :
    daysBeforeMonth year 13 = if isLeapYear year then 366 else 365 := by
  by_cases leap : isLeapYear year <;> simp [daysBeforeMonth, daysInMonth, leap, List.range_succ]

def daysBeforeYear (year : Nat) : Nat :=
  365 * year + (year + 3) / 4 - (year + 99) / 100 + (year + 399) / 400

theorem daysBeforeYear_succ (year : Nat) :
    daysBeforeYear (year + 1) = daysBeforeYear year + daysBeforeMonth year 13 := by
  have fours : (year + 1 + 3) / 4 = (year + 3) / 4 + if year % 4 = 0 then 1 else 0 := by
    split <;> omega
  have hundreds : (year + 1 + 99) / 100 = (year + 99) / 100 + if year % 100 = 0 then 1 else 0 := by
    split <;> omega
  have cycles : (year + 1 + 399) / 400 = (year + 399) / 400 + if year % 400 = 0 then 1 else 0 := by
    split <;> omega
  have few : (year + 99) / 100 ≤ 365 * year := by omega
  rw [daysBeforeMonth_thirteen, daysBeforeYear, daysBeforeYear, fours, hundreds, cycles]
  clear fours hundreds cycles
  by_cases four : year % 4 = 0
  · by_cases hundred : year % 100 = 0
    · by_cases cycle : year % 400 = 0
      · have leap : isLeapYear year := ⟨four, .inr cycle⟩
        rw [if_pos four, if_pos hundred, if_pos cycle, if_pos leap]
        omega
      · have leap : ¬isLeapYear year := by simp [isLeapYear, hundred, cycle]
        rw [if_pos four, if_pos hundred, if_neg cycle, if_neg leap]
        omega
    · have cycle : year % 400 ≠ 0 := by omega
      have leap : isLeapYear year := ⟨four, .inl hundred⟩
      rw [if_pos four, if_neg hundred, if_neg cycle, if_pos leap]
      omega
  · have hundred : year % 100 ≠ 0 := by omega
    have cycle : year % 400 ≠ 0 := by omega
    have leap : ¬isLeapYear year := fun leap => four leap.1
    rw [if_neg four, if_neg hundred, if_neg cycle, if_neg leap]
    omega

/-- A year ends before the next one begins. -/
theorem dayNumber_lt_of_year {year year' month month' day day' : Nat} (earlier : year < year')
    (hmonth : 1 ≤ month ∧ month ≤ 12) (hday : day ≤ daysInMonth year month) (hday' : 1 ≤ day') :
    dayNumber year month day < dayNumber year' month' day' := by
  have within := daysBeforeMonth_le year hmonth.1 (by omega : month < 13)
  have begins : daysBeforeYear (year + 1) ≤ daysBeforeYear year' :=
    monotone_nat_of_le_succ (fun y => (daysBeforeYear_succ y).ge.trans' (Nat.le_add_right _ _)) earlier
  rw [daysBeforeYear_succ] at begins
  change daysBeforeYear year + _ + day < daysBeforeYear year' + _ + day'
  omega

theorem dayNumber_lt_of_month {year year' month month' day day' : Nat} (hyear : year = year')
    (before : month < month') (pos : 1 ≤ month) (hday : day ≤ daysInMonth year month) (hday' : 1 ≤ day') :
    dayNumber year month day < dayNumber year' month' day' := by
  subst hyear
  have within := daysBeforeMonth_le year pos before
  unfold dayNumber
  omega

theorem daysInMonth_utcYear (year month : Nat) :
    daysInMonth (utcYear year) month ≤ daysInMonth year month := by
  unfold daysInMonth utcYear
  by_cases february : month = 2
  · by_cases early : year < 100
    · simp only [if_pos february, if_pos early]
      by_cases leap : isLeapYear (1900 + year)
      · have leap' : isLeapYear year := by
          unfold isLeapYear at leap ⊢
          omega
        rw [if_pos leap, if_pos leap']
      · rw [if_neg leap]
        split <;> omega
    · rw [if_neg early]
  · simp only [if_neg february, Nat.le_refl]

namespace Date

/-- The order of the texts is that of the digits in them. -/
def digits (date : Date) : Nat := date.year * 10000 + date.month * 100 + date.day

instance : LE Date := ⟨fun a b => a.digits ≤ b.digits⟩

instance (a b : Date) : Decidable (a ≤ b) := inferInstanceAs (Decidable (a.digits ≤ b.digits))

theorem le_trans {a b c : Date} (first : a ≤ b) (second : b ≤ c) : a ≤ c := Nat.le_trans first second

theorem le_total (a b : Date) : a ≤ b ∨ b ≤ a := Nat.le_total a.digits b.digits

theorem digits_day (date : Date) : date.day ≤ 31 := by
  have long := daysInMonth_le date.year date.month
  have valid := date.day_valid
  omega

theorem le_antisymm {a b : Date} (first : a ≤ b) (second : b ≤ a) : a = b := by
  have same : a.digits = b.digits := Nat.le_antisymm first second
  have hmonth := a.month_valid
  have hmonth' := b.month_valid
  have hday := a.digits_day
  have hday' := b.digits_day
  simp only [digits] at same
  have parts : a.year = b.year ∧ a.month = b.month ∧ a.day = b.day := by omega
  cases a
  cases b
  simpa using parts

/-- The days since a fixed day. -/
def number (date : Date) : Nat := dayNumber date.year date.month date.day

/-- A later date is a later day. -/
theorem number_le {a b : Date} (h : a ≤ b) : a.number ≤ b.number := by
  have order : a.digits ≤ b.digits := h
  have hmonth := a.month_valid
  have hmonth' := b.month_valid
  have hday := a.digits_day
  have hday' := b.digits_day
  simp only [digits] at order
  rcases Nat.lt_or_ge a.year b.year with earlier | notEarlier
  · exact Nat.le_of_lt (dayNumber_lt_of_year earlier a.month_valid a.day_valid.2 b.day_valid.1)
  · obtain hyear : a.year = b.year := by omega
    rcases Nat.lt_or_ge a.month b.month with before | notBefore
    · exact Nat.le_of_lt (dayNumber_lt_of_month hyear before a.month_valid.1 a.day_valid.2 b.day_valid.1)
    · obtain same : a.month = b.month := by omega
      rw [number, number, dayNumber, dayNumber, hyear, same]
      omega

def nextDay (date : Date) : Date :=
  if more : date.day + 1 ≤ daysInMonth date.year date.month then
    { date with day := date.day + 1, day_valid := ⟨Nat.le_add_left 1 _, more⟩ }
  else if more : date.month + 1 ≤ 12 then
    ⟨date.year, date.month + 1, 1, ⟨Nat.le_add_left 1 _, more⟩, Nat.le_refl 1,
      Nat.le_trans (by omega) (daysInMonth_pos _ _)⟩
  else
    ⟨date.year + 1, 1, 1, by omega, Nat.le_refl 1, Nat.le_trans (by omega) (daysInMonth_pos _ _)⟩

def addDays (date : Date) (days : Nat) : Date := nextDay^[days] date

/-- The first of a month that many months later. -/
def firstOfMonth (date : Date) (months : Nat) : Date :=
  let month := date.month - 1 + months
  ⟨date.year + month / 12, month % 12 + 1, 1, by omega, Nat.le_refl 1,
    Nat.le_trans (by omega) (daysInMonth_pos _ _)⟩

/-- The same day of the month that many months later, or the last one there is. -/
def addMonths (date : Date) (months : Nat) : Date :=
  let first := date.firstOfMonth months
  { first with
    day := min date.day (daysInMonth (utcYear first.year) first.month)
    day_valid := by
      have last := daysInMonth_utcYear first.year first.month
      have some_ := daysInMonth_pos (utcYear first.year) first.month
      have valid := date.day_valid
      omega }

/-- The 15th of the month. -/
def fifteenth (date : Date) : Date :=
  { date with day := 15, day_valid := ⟨by omega, Nat.le_trans (by omega) (daysInMonth_pos _ _)⟩ }

/-- `daysBetweenInclusive`. -/
def daysBetweenInclusive (start end_ : Date) : Int := (end_.number : Int) - start.number + 1

/-- A day past the end of a short month. -/
example : (⟨2026, 1, 31, by decide, by decide⟩ : Date).addMonths 1 = ⟨2026, 2, 28, by decide, by decide⟩ := by
  decide

end Date

end Finverse.Insights
