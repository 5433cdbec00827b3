import Finverse.Scheduled.Schedule

/-! The occurrences of a schedule that starts on a real date. -/

namespace Finverse.Scheduled

open Imports (padStart daysInMonth utcYear)
open Ledger (IsoDate)

variable {schedule : ScheduledTransaction} {start : Insights.Date} {index : Nat}

/-- The schedule starts on the date. -/
structure Starts (schedule : ScheduledTransaction) (start : Insights.Date) : Prop where
  year : start.year ≤ 9999
  startDate : schedule.startDate = text start

/-- What the schedule stands for: so many weeks, or so many months with the day of the start as
far as the month has it. -/
def occurrence (cadence : ScheduleCadence) (start : Insights.Date) (index : Nat) : Insights.Date :=
  if 0 < DAYS_PER_CADENCE cadence then start.addDays (DAYS_PER_CADENCE cadence * index)
  else start.sameDay (MONTHS_PER_CADENCE cadence * index)

/-- What `occurrenceAt` makes of it. -/
def reckoned (cadence : ScheduleCadence) (start : Insights.Date) (index : Nat) : Insights.Date :=
  if index = 0 then start
  else if 0 < DAYS_PER_CADENCE cadence then start.addDays (DAYS_PER_CADENCE cadence * index)
  else start.addMonths (MONTHS_PER_CADENCE cadence * index)

/-- A schedule whose second occurrence would be the 29th of February of the year 0. -/
def LeapZero (cadence : ScheduleCadence) (start : Insights.Date) : Prop :=
  cadence = .monthly ∧ start.year = 0 ∧ start.month = 1 ∧ 29 ≤ start.day

theorem monthStep_pos {cadence : ScheduleCadence} (months : ¬0 < DAYS_PER_CADENCE cadence) :
    0 < MONTHS_PER_CADENCE cadence := by
  cases cadence with
  | weekly => exact absurd (by decide) months
  | fortnightly => exact absurd (by decide) months
  | monthly => decide
  | quarterly => decide
  | yearly => decide

/-! ### Months of a text -/

theorem firstOfStart_text (small : start.year ≤ 9999) :
    String.ofList (slice 0 7 (text start).toList ++ ['-', '0', '1']) =
      text (start.firstOfMonth 0) := by
  have month := start.month_valid
  have year : (start.firstOfMonth 0).year = start.year := by
    rw [Insights.Date.firstOfMonth]
    dsimp only
    omega
  have same : (start.firstOfMonth 0).month = start.month := by
    rw [Insights.Date.firstOfMonth]
    dsimp only
    omega
  have one : padStart 2 1 = ['0', '1'] := by decide
  obtain ⟨-, -, -, front⟩ := slices_text small
  apply String.toList_inj.mp
  rw [String.toList_ofList, front, text_toList (year.trans_le small), year, same,
    ← one]
  simp [Insights.Date.firstOfMonth]

theorem number_padStart (width n : Nat) : number (padStart width n) = n := by
  have digits : (padStart width n).dropWhile (· = '+') = padStart width n := by
    apply List.dropWhile_eq_self_iff.mpr
    intro some_ plus
    have digit := Imports.padStart_digits width n _ (List.getElem_mem some_)
    rw [of_decide_eq_true plus] at digit
    exact absurd digit (by decide)
  rw [number, digits, Imports.decimal_padStart]

theorem utcDaysInMonth_eq {year month : Nat} (valid : 1 ≤ month ∧ month ≤ 12) :
    utcDaysInMonth year month = daysInMonth (utcYear year) month := by
  have none_over : (month - 1) / 12 = 0 := by omega
  have same : (month - 1) % 12 + 1 = month := by omega
  rw [utcDaysInMonth, if_neg (by omega), none_over, same, Nat.add_zero]

/-- The text that the months of a schedule come to. -/
theorem advanced_text (small : start.year ≤ 9999) (count : Nat) :
    addMonths (String.ofList (slice 0 7 (text start).toList ++ ['-', '0', '1'])) count =
      .ok (text (start.firstOfMonth count)) := by
  have year : (start.firstOfMonth 0).year ≤ 9999 := by
    have month := start.month_valid
    rw [Insights.Date.firstOfMonth]
    dsimp only
    omega
  rw [firstOfStart_text small, addMonths_text year, Insights.Date.firstOfMonth_addMonths,
    Nat.zero_add]

theorem clamped_text (count : Nat) (small : (start.firstOfMonth count).year ≤ 9999) :
    let advanced := (text (start.firstOfMonth count)).toList
    String.ofList (slice 0 7 advanced ++ '-' :: padStart 2 (min start.day
        (utcDaysInMonth (number (slice 0 4 advanced)) (number (slice 5 7 advanced))))) =
      text (start.addMonths count) := by
  obtain ⟨year, month, -, front⟩ := slices_text small
  dsimp only
  apply String.toList_inj.mp
  rw [year, month, front, number_padStart, number_padStart,
    utcDaysInMonth_eq (start.firstOfMonth count).month_valid, String.toList_ofList]
  exact (@text_toList (start.addMonths count) small).symm

/-! ### The occurrences of the code -/

theorem occurrenceAt_small (starts : Starts schedule start)
    (small : (reckoned schedule.cadence start index).year ≤ 9999) :
    occurrenceAt schedule index = .ok (text (reckoned schedule.cadence start index)) := by
  rw [occurrenceAt, reckoned] at *
  by_cases first : index = 0
  · rw [if_pos first, if_pos first, starts.startDate]
  rw [if_neg first] at small ⊢
  rw [if_neg first]
  by_cases days : 0 < DAYS_PER_CADENCE schedule.cadence
  · rw [if_pos days, if_pos days, starts.startDate]
    exact addDays_text starts.year _
  · rw [if_neg days] at small ⊢
    rw [if_neg days, starts.startDate]
    obtain ⟨-, -, day, -⟩ := slices_text starts.year
    dsimp only
    rw [advanced_text starts.year, day, number_padStart]
    exact congrArg Except.ok (clamped_text _ small)

/-- Past the year 9999 the text begins with a sign. -/
theorem occurrenceAt_big (starts : Starts schedule start)
    (big : 9999 < (reckoned schedule.cadence start index).year) :
    ∃ value, occurrenceAt schedule index = .ok value ∧ value.toList.head? = some '+' := by
  rw [occurrenceAt]
  rw [reckoned] at big
  by_cases first : index = 0
  · rw [if_pos first] at big
    exact absurd starts.year (Nat.not_le.mpr big)
  rw [if_neg first] at big ⊢
  by_cases days : 0 < DAYS_PER_CADENCE schedule.cadence
  · rw [if_pos days] at big ⊢
    obtain ⟨cs, signed⟩ := text_toList_big big
    rw [starts.startDate]
    exact ⟨_, addDays_text starts.year _, by rw [signed]; rfl⟩
  · rw [if_neg days] at big ⊢
    obtain ⟨cs, signed⟩ := @text_toList_big (start.firstOfMonth _) big
    rw [starts.startDate]
    dsimp only
    rw [advanced_text starts.year]
    refine ⟨_, rfl, ?_⟩
    rw [String.toList_ofList, signed]
    rfl

/-! ### The order of the occurrences -/

theorem months_reckoned (months : ¬0 < DAYS_PER_CADENCE schedule.cadence) (index : Nat) :
    (reckoned schedule.cadence start index).months =
      start.months + MONTHS_PER_CADENCE schedule.cadence * index := by
  rw [reckoned]
  split
  · rename_i first
    rw [first, Nat.mul_zero, Nat.add_zero]
  · exact Insights.Date.months_firstOfMonth start _

theorem number_reckoned (days : 0 < DAYS_PER_CADENCE schedule.cadence) (index : Nat) :
    (reckoned schedule.cadence start index).number =
      start.number + DAYS_PER_CADENCE schedule.cadence * index := by
  rw [reckoned]
  split
  · rename_i first
    rw [first, Nat.mul_zero, Nat.add_zero]
  · rw [Insights.Date.number_addDays]

theorem reckoned_lt {later : Nat} (h : index < later) :
    (reckoned schedule.cadence start index).digits <
      (reckoned schedule.cadence start later).digits := by
  by_cases days : 0 < DAYS_PER_CADENCE schedule.cadence
  · have step := Nat.mul_lt_mul_of_pos_left h days
    rw [Insights.Date.lt_iff_number, number_reckoned days, number_reckoned days]
    omega
  · have step := Nat.mul_lt_mul_of_pos_left h (monthStep_pos days)
    apply Insights.Date.digits_lt_of_months
    rw [months_reckoned days, months_reckoned days]
    omega

/-- Only one occurrence is reckoned wrong. -/
theorem reckoned_eq_iff : reckoned schedule.cadence start index =
    occurrence schedule.cadence start index ↔
      ¬(LeapZero schedule.cadence start ∧ index = 1) := by
  rw [reckoned, occurrence]
  by_cases first : index = 0
  · rw [if_pos first, first, Nat.mul_zero, Nat.mul_zero, Insights.Date.sameDay_zero]
    refine iff_of_true ?_ (fun h => absurd h.2 Nat.zero_ne_one)
    split
    · rfl
    · rfl
  rw [if_neg first]
  by_cases days : 0 < DAYS_PER_CADENCE schedule.cadence
  · rw [if_pos days, if_pos days]
    refine iff_of_true rfl fun h => ?_
    rw [h.1.1] at days
    exact absurd days (by decide)
  rw [if_neg days, if_neg days, Insights.Date.addMonths_eq_sameDay_iff, not_iff_not]
  have month := start.month_valid
  have step := monthStep_pos days
  constructor
  · rintro ⟨zero, february, long⟩
    simp only [Insights.Date.firstOfMonth] at zero february
    have some_ := Nat.mul_pos step (Nat.pos_of_ne_zero first)
    have one : MONTHS_PER_CADENCE schedule.cadence * index = 1 := by omega
    have monthly := Nat.eq_one_of_mul_eq_one_right one
    have second := Nat.eq_one_of_mul_eq_one_left one
    have cadence : schedule.cadence = .monthly := by
      cases found : schedule.cadence with
      | monthly => rfl
      | weekly | fortnightly | quarterly | yearly =>
        rw [found] at monthly
        exact absurd monthly (by decide)
    exact ⟨⟨cadence, by omega, by omega, long⟩, second⟩
  · rintro ⟨⟨monthly, zero, january, long⟩, rfl⟩
    have one : MONTHS_PER_CADENCE schedule.cadence = 1 := by rw [monthly]; rfl
    rw [one, Insights.Date.firstOfMonth]
    dsimp only
    rw [zero, january]
    exact ⟨rfl, rfl, long⟩

theorem reckoned_year_le {later : Nat} (h : index ≤ later) :
    (reckoned schedule.cadence start index).year ≤ (reckoned schedule.cadence start later).year := by
  rcases Nat.lt_or_eq_of_le h with before | rfl
  · exact Insights.Date.year_le_of_digits (Nat.le_of_lt (reckoned_lt before))
  · exact Nat.le_refl _

/-! ### Anchored occurrences -/

/-- As far as the year 9999 the occurrences are in order, so many weeks after the start or on its day
of a month so many months later. -/
structure Anchored (schedule : ScheduledTransaction) (start : Insights.Date) : Prop where
  ordered : ∀ index later, index < later →
    (occurrence schedule.cadence start later).year ≤ 9999 →
    ∃ a b, occurrenceAt schedule index = .ok a ∧ occurrenceAt schedule later = .ok b ∧ a < b
  weeks : 0 < DAYS_PER_CADENCE schedule.cadence → ∀ index,
    (occurrence schedule.cadence start index).year ≤ 9999 →
    ∃ date : Insights.Date, occurrenceAt schedule index = .ok (text date) ∧ date.year ≤ 9999 ∧
      date.number = start.number + DAYS_PER_CADENCE schedule.cadence * index
  months : ¬0 < DAYS_PER_CADENCE schedule.cadence → ∀ index,
    (occurrence schedule.cadence start index).year ≤ 9999 →
    ∃ date : Insights.Date, occurrenceAt schedule index = .ok (text date) ∧ date.year ≤ 9999 ∧
      date.months = start.months + MONTHS_PER_CADENCE schedule.cadence * index ∧
      date.day = min start.day (daysInMonth date.year date.month)

theorem reckoned_eq (usual : ¬LeapZero schedule.cadence start) (index : Nat) :
    reckoned schedule.cadence start index = occurrence schedule.cadence start index :=
  reckoned_eq_iff.mpr fun h => usual h.1

theorem occurrenceAt_eq (starts : Starts schedule start)
    (usual : ¬LeapZero schedule.cadence start)
    (within : (occurrence schedule.cadence start index).year ≤ 9999) :
    occurrenceAt schedule index = .ok (text (occurrence schedule.cadence start index)) := by
  rw [← reckoned_eq usual] at within ⊢
  exact occurrenceAt_small starts within

theorem occurrence_lt (usual : ¬LeapZero schedule.cadence start) {later : Nat}
    (h : index < later) : (occurrence schedule.cadence start index).digits <
      (occurrence schedule.cadence start later).digits := by
  rw [← reckoned_eq usual, ← reckoned_eq usual]
  exact reckoned_lt h

/-- Every schedule is anchored, but the monthly ones from the end of January of the year 0. -/
theorem anchored_iff (starts : Starts schedule start) :
    Anchored schedule start ↔ ¬LeapZero schedule.cadence start := by
  constructor
  · intro anchored leap
    have monthly : schedule.cadence = .monthly := leap.1
    have months : ¬0 < DAYS_PER_CADENCE schedule.cadence := by
      rw [monthly]
      decide
    have second : reckoned schedule.cadence start 1 = start.addMonths 1 ∧
        occurrence schedule.cadence start 1 = start.sameDay 1 := by
      rw [monthly]
      exact ⟨rfl, rfl⟩
    have year : (start.addMonths 1).year ≤ 9999 := by
      have zero := leap.2.1
      have january := leap.2.2.1
      simp only [Insights.Date.addMonths, Insights.Date.firstOfMonth]
      omega
    have stored : occurrenceAt schedule 1 = .ok (text (start.addMonths 1)) := by
      rw [occurrenceAt_small starts (second.1 ▸ year), second.1]
    obtain ⟨date, same, small, -, day⟩ := anchored.months months 1 (second.2 ▸ year)
    obtain rfl := (text_inj year small).mp (Except.ok.inj (stored.symm.trans same))
    have right : reckoned schedule.cadence start 1 = occurrence schedule.cadence start 1 := by
      rw [second.1, second.2]
      exact Insights.Date.ext_parts rfl rfl day
    exact reckoned_eq_iff.mp right ⟨leap, rfl⟩
  · intro usual
    constructor
    · intro index later before within
      have order := occurrence_lt usual before
      have within' := Nat.le_trans (Insights.Date.year_le_of_digits (Nat.le_of_lt order)) within
      exact ⟨_, _, occurrenceAt_eq starts usual within', occurrenceAt_eq starts usual within,
        (text_lt_iff within' within).mpr order⟩
    · intro days index within
      refine ⟨_, occurrenceAt_eq starts usual within, within, ?_⟩
      rw [occurrence, if_pos days, Insights.Date.number_addDays]
    · intro days index within
      refine ⟨_, occurrenceAt_eq starts usual within, within, ?_⟩
      rw [occurrence, if_neg days]
      exact ⟨Insights.Date.months_sameDay start _, rfl⟩

def monthlyFrom (startDate : IsoDate) : ScheduledTransaction where
  id := "s1"
  accountId := "a1"
  name := "Rent"
  amount := -120000
  currency := "USD"
  categorySlug := "rent"
  cadence := .monthly
  startDate
  endDate := none
  reminderDays := 3
  archivedAt := none

theorem january_valid : 1 ≤ 1 ∧ 1 ≤ 12 := by
  decide

theorem lastOfJanuary_valid (year : Nat) : 1 ≤ 31 ∧ 31 ≤ daysInMonth year 1 :=
  ⟨by decide, Nat.le_refl 31⟩

def lastOfJanuary (year : Nat) : Insights.Date :=
  ⟨year, 1, 31, january_valid, lastOfJanuary_valid year⟩

theorem starts_lastOfJanuary : Starts (monthlyFrom "2026-01-31") (lastOfJanuary 2026) :=
  ⟨by decide, by decide⟩

theorem anchored_lastOfJanuary : Anchored (monthlyFrom "2026-01-31") (lastOfJanuary 2026) :=
  (anchored_iff starts_lastOfJanuary).mpr fun h => absurd h.2.1 (by decide)

/-- The year 0 is a leap year, but its February is reckoned with the 28 days of 1900. -/
theorem not_every_schedule_anchored :
    ¬∀ (schedule : ScheduledTransaction) (start : Insights.Date), Starts schedule start →
      Anchored schedule start := by
  intro all
  have starts : Starts (monthlyFrom "0000-01-31") (lastOfJanuary 0) := ⟨by decide, by decide⟩
  obtain ⟨date, same, small, -, day⟩ := (all _ _ starts).months (by decide) 1 (by decide)
  have stored : occurrenceAt (monthlyFrom "0000-01-31") 1 =
      .ok (text ((lastOfJanuary 0).addMonths 1)) := by decide +kernel
  obtain rfl := (text_inj (by decide) small).mp (Except.ok.inj (stored.symm.trans same))
  exact absurd day (by decide)

end Finverse.Scheduled
