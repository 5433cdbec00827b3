import Finverse.Insights.DateSteps
import Finverse.Insights.Forecast
import Mathlib.Data.List.Iterate

/-! The dates on which the forecast places a bill. -/

namespace Finverse.Insights

open Imports (daysInMonth utcYear)

section Prefix

variable {α : Type} {p : α → Bool} {l : List α}

theorem takeWhile_eq_filter (prefix_ : l.Pairwise fun a b => p b = true → p a = true) :
    l.takeWhile p = l.filter p := by
  induction l with
  | nil => rfl
  | cons a l ih =>
    obtain ⟨first, rest⟩ := List.pairwise_cons.mp prefix_
    by_cases holds : p a = true
    · rw [List.takeWhile_cons_of_pos holds, List.filter_cons_of_pos holds, ih rest]
    · rw [List.takeWhile_cons_of_neg holds, List.filter_cons_of_neg holds]
      exact (List.filter_eq_nil_iff.mpr fun b mem later => holds (first b mem later)).symm

theorem dropWhile_eq_filter (prefix_ : l.Pairwise fun a b => p b = true → p a = true) :
    l.dropWhile p = l.filter fun a => !p a := by
  induction l with
  | nil => rfl
  | cons a l ih =>
    obtain ⟨first, rest⟩ := List.pairwise_cons.mp prefix_
    by_cases holds : p a = true
    · rw [List.dropWhile_cons_of_pos holds, List.filter_cons_of_neg (by simp [holds]), ih rest]
    · rw [List.dropWhile_cons_of_neg holds]
      refine (List.filter_eq_self.mpr fun b mem => ?_).symm
      rcases List.mem_cons.mp mem with rfl | later
      · simpa using holds
      · simpa using fun more => holds (first b later more)

end Prefix

/-! ### One clamp after another -/

namespace Date

variable {a b : Date}

theorem eq_of_months (months_ : a.months = b.months) (day : a.day = b.day) : a = b := by
  have month := a.month_valid
  have month' := b.month_valid
  rw [months, months] at months_
  exact ext_parts (by omega) (by omega) day

theorem firstOfMonth_congr {count more : Nat} (h : a.months + count = b.months + more) :
    a.firstOfMonth count = b.firstOfMonth more := by
  apply eq_of_months
  · rw [months_firstOfMonth, months_firstOfMonth, h]
  · rfl

/-- The days that a month that many months later is given. -/
def lengthAfter (date : Date) (count : Nat) : Nat :=
  daysInMonth (utcYear (date.firstOfMonth count).year) (date.firstOfMonth count).month

/-- The day, or the last one of the shortest month on the way. -/
def shortest (date : Date) (step : Nat) : Nat → Nat
  | 0 => date.day
  | k + 1 => min (shortest date step k) (date.lengthAfter (step * (k + 1)))

theorem le_shortest_iff (date : Date) (step : Nat) {day k : Nat} :
    day ≤ date.shortest step k ↔
      day ≤ date.day ∧ ∀ j, 1 ≤ j → j ≤ k → day ≤ date.lengthAfter (step * j) := by
  induction k with
  | zero =>
    refine (and_iff_left fun j low high => ?_).symm
    omega
  | succ k ih =>
    rw [shortest, Nat.le_min, ih]
    constructor
    · rintro ⟨⟨start, before⟩, last⟩
      refine ⟨start, fun j low high => ?_⟩
      rcases Nat.lt_or_eq_of_le high with earlier | rfl
      · exact before j low (Nat.le_of_lt_succ earlier)
      · exact last
    · rintro ⟨start, all⟩
      exact ⟨⟨start, fun j low high => all j low (Nat.le_succ_of_le high)⟩,
        all (k + 1) (Nat.le_add_left 1 k) (Nat.le_refl _)⟩

theorem lengthAfter_congr {count more : Nat} (h : a.months + count = b.months + more) :
    a.lengthAfter count = b.lengthAfter more := by
  rw [lengthAfter, lengthAfter, firstOfMonth_congr h]

theorem months_addMonths (date : Date) (count : Nat) :
    (date.addMonths count).months = date.months + count := months_firstOfMonth date count

theorem day_addMonths (date : Date) (count : Nat) :
    (date.addMonths count).day = min date.day (date.lengthAfter count) := rfl

/-- The k-th step, each from the date before. -/
def repeated (date : Date) (step k : Nat) : Date := (·.addMonths step)^[k] date

theorem repeated_succ (date : Date) (step k : Nat) :
    date.repeated step (k + 1) = (date.repeated step k).addMonths step := by
  rw [repeated, Function.iterate_succ_apply', repeated]

theorem months_repeated (date : Date) (step k : Nat) :
    (date.repeated step k).months = date.months + step * k := by
  induction k with
  | zero => rfl
  | succ k ih => rw [repeated_succ, months_addMonths, ih, Nat.mul_succ, Nat.add_assoc]

theorem day_repeated (date : Date) (step k : Nat) :
    (date.repeated step k).day = date.shortest step k := by
  induction k with
  | zero => rfl
  | succ k ih =>
    have same : (date.repeated step k).months + step = date.months + step * (k + 1) := by
      rw [months_repeated, Nat.mul_succ, Nat.add_assoc]
    rw [repeated_succ, day_addMonths, ih, lengthAfter_congr same, shortest]

theorem day_sameDay (date : Date) (count : Nat) : (date.sameDay count).day =
    min date.day (daysInMonth (date.firstOfMonth count).year (date.firstOfMonth count).month) := rfl

theorem shortest_le (date : Date) (step k : Nat) :
    date.shortest step k ≤ (date.sameDay (step * k)).day := by
  cases k with
  | zero =>
    rw [Nat.mul_zero, sameDay_zero]
    exact Nat.le_refl _
  | succ k =>
    obtain ⟨start, all⟩ := (le_shortest_iff date step).mp (Nat.le_refl (date.shortest step (k + 1)))
    rw [day_sameDay, Nat.le_min]
    exact ⟨start, (all (k + 1) (Nat.le_add_left 1 k) (Nat.le_refl _)).trans
      (daysInMonth_utcYear _ _)⟩

/-- The k-th step is the same day that many months later just where no month on the way is shorter. -/
theorem repeated_eq_iff (date : Date) (step : Nat) {k : Nat} :
    date.repeated step k = date.sameDay (step * k) ↔
      ∀ j, 1 ≤ j → j ≤ k → (date.sameDay (step * k)).day ≤ date.lengthAfter (step * j) := by
  have start : (date.sameDay (step * k)).day ≤ date.day := Nat.min_le_left _ _
  have long := @le_shortest_iff date step (date.sameDay (step * k)).day k
  rw [and_iff_right start] at long
  rw [← long]
  constructor
  · intro same
    rw [← day_repeated, same]
  · intro long
    apply eq_of_months
    · rw [months_repeated, months_sameDay]
    · rw [day_repeated]
      exact Nat.le_antisymm (shortest_le date step k) long

theorem repeated_lt (date : Date) {step k later : Nat} (pos : 0 < step) (h : k < later) :
    (date.repeated step k).digits < (date.repeated step later).digits := by
  apply digits_lt_of_months
  rw [months_repeated, months_repeated]
  exact Nat.add_lt_add_left (Nat.mul_lt_mul_of_pos_left h pos) _

end Date

/-! ### The dates of a bill -/

variable {asOf end_ lastSeen : Date} {step : Nat}

/-- The days of the forecast. -/
def InHorizon (asOf end_ date : Date) : Prop := asOf.digits < date.digits ∧ date ≤ end_

theorem nodup_of_digits {dates : List Date} (sorted : dates.Pairwise fun a b => a.digits < b.digits) :
    dates.Nodup := by
  refine sorted.imp fun earlier same => ?_
  rw [same] at earlier
  exact Nat.lt_irrefl _ earlier

/-- The steps of a date that goes on at every one, as far as the horizon has them, in order. -/
theorem occurrences_steps {x : Nat → Date} {next : Date → Date} (steps : ∀ k, next (x k) = x (k + 1))
    (later : ∀ k, (x k).digits < (x (k + 1)).digits) :
    (occurrences (x 0) next asOf end_).Pairwise (fun a b => a.digits < b.digits) ∧
    ∀ date, date ∈ occurrences (x 0) next asOf end_ ↔ ∃ k, date = x k ∧ InHorizon asOf end_ date := by
  have iterates : ∀ k, next^[k] (x 0) = x k := by
    intro k
    induction k with
    | zero => rfl
    | succ k ih => rw [Function.iterate_succ_apply', ih, steps]
  have increasing : StrictMono fun k => (x k).digits := strictMono_nat_of_lt_succ later
  have reached : ∀ k, (x 0).number + k ≤ (x k).number := by
    intro k
    induction k with
    | zero => exact Nat.le_refl _
    | succ k ih =>
      have one := Date.number_lt (later k)
      omega
  rw [occurrences, ← List.range_map_iterate]
  have sorted : ((List.range (end_.number - (x 0).number + 1)).map fun k => next^[k] (x 0)).Pairwise
      (fun a b => a.digits < b.digits) := by
    rw [List.pairwise_map]
    refine List.pairwise_lt_range.imp fun {a b} h => ?_
    rw [iterates, iterates]
    exact increasing h
  rw [dropWhile_eq_filter, takeWhile_eq_filter]
  · refine ⟨(sorted.filter _).filter _, fun date => ?_⟩
    simp only [List.mem_filter, List.mem_map, List.mem_range, Bool.not_eq_true', decide_eq_false_iff_not,
      decide_eq_true_eq, iterates]
    constructor
    · rintro ⟨⟨⟨k, -, rfl⟩, after⟩, before⟩
      exact ⟨k, rfl, Nat.lt_of_not_le after, before⟩
    · rintro ⟨k, rfl, after, before⟩
      refine ⟨⟨⟨k, ?_, rfl⟩, Nat.not_le.mpr after⟩, before⟩
      have number := reached k
      have last := Date.number_le before
      omega
  · refine (sorted.filter _).imp fun {a b} order before => ?_
    exact decide_eq_true (Nat.le_trans (Nat.le_of_lt order) (of_decide_eq_true before))
  · refine sorted.imp fun {a b} order before => ?_
    exact decide_eq_true (Nat.le_trans (Nat.le_of_lt order) (of_decide_eq_true before))

/-- Every step within the horizon is met, in order. -/
theorem occurrences_repeated (pos : 0 < step) :
    (occurrences (lastSeen.addMonths step) (·.addMonths step) asOf end_).Pairwise
      (fun a b => a.digits < b.digits) ∧
    ∀ date, date ∈ occurrences (lastSeen.addMonths step) (·.addMonths step) asOf end_ ↔
      ∃ k, 1 ≤ k ∧ date = lastSeen.repeated step k ∧ InHorizon asOf end_ date := by
  have steps : ∀ k, (lastSeen.repeated step (k + 1)).addMonths step = lastSeen.repeated step (k + 1 + 1) :=
    fun k => (Function.iterate_succ_apply' (fun date : Date => date.addMonths step) (k + 1) lastSeen).symm
  have later : ∀ k, (lastSeen.repeated step (k + 1)).digits < (lastSeen.repeated step (k + 1 + 1)).digits :=
    fun k => Date.repeated_lt lastSeen pos (Nat.lt_add_one (k + 1))
  obtain ⟨sorted, mem⟩ := @occurrences_steps asOf end_ (fun k => lastSeen.repeated step (k + 1))
    (·.addMonths step) steps later
  refine ⟨sorted, fun date => (mem date).trans ?_⟩
  constructor
  · rintro ⟨k, same, within⟩
    exact ⟨k + 1, Nat.le_add_left 1 k, same, within⟩
  · rintro ⟨k, low, same, within⟩
    obtain ⟨k, rfl⟩ := Nat.exists_eq_add_of_le' low
    exact ⟨k, same, within⟩

/-- The cadences that are reckoned in months. -/
def Cadence.Calendar (cadence : Cadence) : Prop :=
  cadence = .monthly ∨ cadence = .quarterly ∨ cadence = .yearly

theorem nextOccurrence_calendar {cadence : Cadence} (calendar : cadence.Calendar) (date : Date)
    (intervalDays : Int) :
    nextOccurrence date cadence intervalDays = date.addMonths (monthsPer cadence) := by
  rcases calendar with rfl | rfl | rfl
  · rfl
  · rfl
  · rfl

theorem monthsPer_pos (cadence : Cadence) : 0 < monthsPer cadence := by
  cases cadence <;> decide

theorem subscriptionOf_nextExpected {group : List Transaction} {bill : DetectedSubscription}
    (found : subscriptionOf group = some bill) (calendar : bill.cadence.Calendar) :
    bill.nextExpected = bill.lastSeen.addMonths (monthsPer bill.cadence) := by
  unfold subscriptionOf at found
  split at found
  · cases found
  dsimp only at found
  split at found
  · split at found
    · cases found
    split at found
    · cases found
    split at found
    · cases found
    obtain rfl := Option.some.inj found
    refine if_neg ?_
    rintro weekly
    rcases calendar with monthly | quarterly | yearly
    · exact absurd (monthly.symm.trans weekly) (by decide)
    · exact absurd (quarterly.symm.trans weekly) (by decide)
    · exact absurd (yearly.symm.trans weekly) (by decide)
  · cases found

theorem detected_nextExpected {transactions : List Transaction} {bill : DetectedSubscription}
    (detected : bill ∈ detectSubscriptions transactions) (calendar : bill.cadence.Calendar) :
    bill.nextExpected = bill.lastSeen.addMonths (monthsPer bill.cadence) := by
  obtain ⟨group, -, found⟩ := List.mem_filterMap.mp
    ((List.perm_insertionSort _ _).mem_iff.mp detected)
  exact subscriptionOf_nextExpected found calendar

/-- The dates on which the loop places the bill. -/
def billDates (asOf end_ : Date) (bill : DetectedSubscription) : List Date :=
  (billEvents asOf end_ bill).map (·.date)

theorem billDates_eq {bill : DetectedSubscription} (calendar : bill.cadence.Calendar)
    (expected : bill.nextExpected = bill.lastSeen.addMonths (monthsPer bill.cadence)) :
    billDates asOf end_ bill = occurrences (bill.lastSeen.addMonths (monthsPer bill.cadence))
      (·.addMonths (monthsPer bill.cadence)) asOf end_ := by
  rw [billDates, billEvents, List.map_map, expected]
  refine (List.map_id _).trans ?_
  congr 1
  funext date
  exact nextOccurrence_calendar calendar date bill.observedIntervalDays

/-- The bill is placed in order on its day of every month it is due in, as far as the month has it. -/
def KeepsDay (asOf end_ : Date) (bill : DetectedSubscription) : Prop :=
  (billDates asOf end_ bill).Pairwise (fun a b => a.digits < b.digits) ∧
  ∀ date, date ∈ billDates asOf end_ bill ↔ ∃ k, 1 ≤ k ∧
    date = bill.lastSeen.sameDay (monthsPer bill.cadence * k) ∧ InHorizon asOf end_ date

/-- In no month within the horizon is the bill due on a later day than a month on the way there has.
The month counts if it is due there within the horizon, or would be on the day that is left. -/
def NoneShorter (asOf end_ lastSeen : Date) (step : Nat) : Prop :=
  ∀ k, 1 ≤ k → ∀ date : Date, date.months = lastSeen.months + step * k →
    (date.day = (lastSeen.sameDay (step * k)).day ∨ date.day = lastSeen.shortest step k) →
    InHorizon asOf end_ date →
    ∀ j, 1 ≤ j → j ≤ k → (lastSeen.sameDay (step * k)).day ≤ lastSeen.lengthAfter (step * j)

theorem same_step {k k' : Nat} (pos : 0 < step)
    (h : lastSeen.months + step * k = lastSeen.months + step * k') : k = k' :=
  Nat.eq_of_mul_eq_mul_left pos (Nat.add_left_cancel h)

/-- The steps that the horizon has are the due dates that it has just where no month is shorter. -/
theorem steps_iff (pos : 0 < step) :
    (∀ date, (∃ k, 1 ≤ k ∧ date = lastSeen.repeated step k ∧ InHorizon asOf end_ date) ↔
      ∃ k, 1 ≤ k ∧ date = lastSeen.sameDay (step * k) ∧ InHorizon asOf end_ date) ↔
    NoneShorter asOf end_ lastSeen step := by
  constructor
  · intro same k low date months day within
    rw [← Date.repeated_eq_iff]
    rcases day with due | left
    · have equal : date = lastSeen.sameDay (step * k) :=
        Date.eq_of_months (months.trans (Date.months_sameDay _ _).symm) due
      obtain ⟨k', -, placed, -⟩ := (same date).mpr ⟨k, low, equal, within⟩
      have months' := months.symm.trans ((congrArg Date.months placed).trans
        (Date.months_repeated lastSeen step k'))
      rw [same_step pos months', ← placed, equal]
      rw [← same_step pos months']
    · have equal : date = lastSeen.repeated step k :=
        Date.eq_of_months (months.trans (Date.months_repeated _ _ _).symm)
          (left.trans (Date.day_repeated _ _ _).symm)
      obtain ⟨k', -, due, -⟩ := (same date).mp ⟨k, low, equal, within⟩
      have months' := months.symm.trans ((congrArg Date.months due).trans
        (Date.months_sameDay lastSeen (step * k')))
      rw [← equal, due, same_step pos months']
  · intro none_shorter date
    constructor
    · rintro ⟨k, low, rfl, within⟩
      have equal := (Date.repeated_eq_iff lastSeen step).mpr (none_shorter k low _
        (Date.months_repeated _ _ _) (Or.inr (Date.day_repeated _ _ _)) within)
      exact ⟨k, low, equal, within⟩
    · rintro ⟨k, low, rfl, within⟩
      have equal := (Date.repeated_eq_iff lastSeen step).mpr (none_shorter k low _
        (Date.months_sameDay _ _) (Or.inl rfl) within)
      exact ⟨k, low, equal.symm, within⟩

theorem keepsDay_iff {bill : DetectedSubscription} (calendar : bill.cadence.Calendar)
    (expected : bill.nextExpected = bill.lastSeen.addMonths (monthsPer bill.cadence)) :
    KeepsDay asOf end_ bill ↔ NoneShorter asOf end_ bill.lastSeen (monthsPer bill.cadence) := by
  have pos := monthsPer_pos bill.cadence
  obtain ⟨sorted, mem⟩ := @occurrences_repeated asOf end_ bill.lastSeen _ pos
  rw [KeepsDay, billDates_eq calendar expected, and_iff_right sorted, ← steps_iff pos]
  exact forall_congr' fun date => iff_congr (mem date) Iff.rfl

/-- A day that every month has is kept. -/
theorem noneShorter_of_early (early : lastSeen.day ≤ 28) : NoneShorter asOf end_ lastSeen step := by
  intro k _ date _ _ _ j _ _
  have length : 28 ≤ lastSeen.lengthAfter (step * j) := daysInMonth_pos _ _
  have day : (lastSeen.sameDay (step * k)).day ≤ lastSeen.day := Nat.min_le_left _ _
  omega

theorem forecastEvents_bill {transactions : List Transaction} {bill : DetectedSubscription}
    (detected : bill ∈ detectSubscriptions transactions) : ∃ others,
      (forecastEvents transactions asOf end_).Perm (billEvents asOf end_ bill ++ others) := by
  obtain ⟨before, after, parts⟩ := List.append_of_mem detected
  rw [forecastEvents, parts, List.flatMap_append, List.flatMap_cons]
  exact ⟨_, (List.perm_insertionSort _ _).trans
    (((List.perm_append_comm_assoc _ _ _).append_left _).trans (List.perm_append_comm_assoc _ _ _))⟩

/-- The events of a forecast are those of the bill and others. On its day the bill is placed just where
no month on the way is shorter. -/
theorem forecast_keepsDay_iff {accounts : List Account} {transactions : List Transaction}
    {asOf : Date} {days : Int} {currency : String} {forecast : CashFlowForecast}
    {bill : DetectedSubscription}
    (answered : forecastCashFlow accounts transactions asOf days currency = .ok forecast)
    (detected : bill ∈ detectSubscriptions transactions) (calendar : bill.cadence.Calendar) :
    (∃ others, forecast.events.Perm (billEvents asOf (asOf.addDays days.toNat) bill ++ others)) ∧
    (KeepsDay asOf (asOf.addDays days.toNat) bill ↔
      NoneShorter asOf (asOf.addDays days.toNat) bill.lastSeen (monthsPer bill.cadence)) := by
  refine ⟨?_, keepsDay_iff calendar (detected_nextExpected detected calendar)⟩
  rw [forecastCashFlow] at answered
  split at answered
  · cases answered
  obtain rfl := Except.ok.inj answered
  exact forecastEvents_bill detected

/-! ### A rent -/

def rentCharge (id : String) (postedAt : Date) : Transaction :=
  ⟨id, postedAt, -120000, "USD", "rent", none, "rent", false, false⟩

theorem newYear_month : 1 ≤ 1 ∧ 1 ≤ 12 := by
  decide

theorem newYear_day : 1 ≤ 1 ∧ 1 ≤ daysInMonth 2026 1 := by
  decide

def newYear : Date := ⟨2026, 1, 1, newYear_month, newYear_day⟩

/-- Paid on the tenth of June, July and August. -/
def tenthLedger : List Transaction :=
  [rentCharge "a" (newYear.addDays 160), rentCharge "b" (newYear.addDays 190),
    rentCharge "c" (newYear.addDays 221)]

/-- Paid on the last day of June, July and August. -/
def lastDayLedger : List Transaction :=
  [rentCharge "a" (newYear.addDays 180), rentCharge "b" (newYear.addDays 211),
    rentCharge "c" (newYear.addDays 242)]

theorem tenthLedger_detected : (detectSubscriptions tenthLedger).map (fun bill =>
    (bill.cadence, bill.lastSeen)) = [(.monthly, newYear.addDays 221)] := by
  decide +kernel

theorem lastDayLedger_detected : (detectSubscriptions lastDayLedger).map (fun bill =>
    (bill.cadence, bill.lastSeen)) = [(.monthly, newYear.addDays 242)] := by
  decide +kernel

theorem rent_keeps_tenth : ∃ forecast bill,
    forecastCashFlow [] tenthLedger (newYear.addDays 243) 90 "USD" = .ok forecast ∧
    bill ∈ detectSubscriptions tenthLedger ∧
    KeepsDay (newYear.addDays 243) ((newYear.addDays 243).addDays 90) bill := by
  obtain ⟨bill, found, same⟩ := List.map_eq_singleton_iff.mp tenthLedger_detected
  have detected : bill ∈ detectSubscriptions tenthLedger := by
    rw [found]
    exact List.mem_singleton.mpr rfl
  obtain ⟨monthly, lastSeen⟩ := Prod.mk.inj same
  refine ⟨_, bill, if_neg (by decide), detected, ?_⟩
  refine (@forecast_keepsDay_iff [] tenthLedger (newYear.addDays 243) 90 "USD" _ bill
    (if_neg (by decide)) detected (Or.inl monthly)).2.mpr (noneShorter_of_early ?_)
  rw [lastSeen]
  decide +kernel

/-- What was paid on the 31st of August is due on the 30th of October, after September. -/
theorem not_every_bill_keeps_day :
    ¬∀ (accounts : List Account) (transactions : List Transaction) (asOf : Date) (days : Int)
      (currency : String) (forecast : CashFlowForecast) (bill : DetectedSubscription),
      forecastCashFlow accounts transactions asOf days currency = .ok forecast →
      bill ∈ detectSubscriptions transactions → bill.cadence.Calendar →
      KeepsDay asOf (asOf.addDays days.toNat) bill := by
  intro all
  obtain ⟨bill, found, same⟩ := List.map_eq_singleton_iff.mp lastDayLedger_detected
  have detected : bill ∈ detectSubscriptions lastDayLedger := by
    rw [found]
    exact List.mem_singleton.mpr rfl
  obtain ⟨monthly, lastSeen⟩ := Prod.mk.inj same
  have keeps := all [] lastDayLedger (newYear.addDays 243) 90 "USD" _ bill (if_neg (by decide)) detected
    (Or.inl monthly)
  have none_shorter := (keepsDay_iff (Or.inl monthly)
    (detected_nextExpected detected (Or.inl monthly))).mp keeps
  rw [lastSeen, monthly] at none_shorter
  -- the second month on the way is October, the first one is September
  have october := none_shorter 2 (by decide) (newYear.addDays 303) (by decide +kernel)
    (Or.inl (by decide +kernel)) ⟨by decide +kernel, by decide +kernel⟩ 1 (by decide) (by decide)
  exact absurd october (by decide +kernel)

end Finverse.Insights
