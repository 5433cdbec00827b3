import Finverse.Insights.ForecastTexts

/-! What a forecast adds up to. -/

namespace Finverse.Insights

open Fuel (Settles)
open Imports (daysInMonth)
open Scheduled (isIsoDate text)

variable {transactions : List Transaction} {asOf end_ : Date} {events : List ForecastEvent}

/-! ### The balances of dates -/

/-- What happens up to a date. -/
def happened (events : List ForecastEvent) (date : Date) : Int :=
  ((events.filter (·.date ≤ date)).map (·.amount)).sum

theorem le_nextDay_iff {a date : Date} : a ≤ date.nextDay ↔ a ≤ date ∨ a = date.nextDay := by
  have next := Date.number_nextDay date
  constructor
  · intro le
    rw [Date.le_iff_number] at le
    rcases Nat.lt_or_ge a.number date.nextDay.number with earlier | same
    · exact .inl (Date.le_iff_number.mpr (by omega))
    · exact .inr (Date.eq_of_number (by omega))
  · rintro (le | rfl)
    · rw [Date.le_iff_number] at le ⊢
      omega
    · exact Nat.le_refl _

theorem happened_nextDay (events : List ForecastEvent) (date : Date) : happened events date.nextDay =
    happened events date + ((events.filter (·.date = date.nextDay)).map (·.amount)).sum := by
  induction events with
  | nil => rfl
  | cons event events ih =>
    simp only [happened, List.filter_cons, decide_eq_true_eq, le_nextDay_iff] at ih ⊢
    have apart : event.date ≤ date → event.date ≠ date.nextDay := by
      intro le same
      rw [same, Date.le_iff_number, Date.number_nextDay] at le
      omega
    by_cases le : event.date ≤ date
    · rw [if_pos (Or.inl le), if_pos le, if_neg (apart le), List.map_cons, List.map_cons, List.sum_cons,
        List.sum_cons, ih, Int.add_assoc]
    · by_cases same : event.date = date.nextDay
      · rw [if_pos (Or.inr same), if_neg le, if_pos same, List.map_cons, List.map_cons, List.sum_cons,
          List.sum_cons, ih]
        omega
      · rw [if_neg (not_or.mpr ⟨le, same⟩), if_neg le, if_neg same, ih]

theorem addDays_succ (date : Date) (k : Nat) : date.addDays (k + 1) = (date.addDays k).nextDay :=
  Function.iterate_succ_apply' _ k date

theorem forecastPoints_dates (events : List ForecastEvent) (date : Date) (days : Nat) (balance : Int) :
    (forecastPoints date events days balance).map (·.date) =
      (List.range days).map fun k => date.addDays (k + 1) := by
  induction days generalizing date balance with
  | zero => rfl
  | succ days ih =>
    rw [forecastPoints, List.map_cons, ih, List.range_succ_eq_map, List.map_cons, List.map_map]
    rfl

/-- Each balance is the one before with what has happened since. -/
theorem forecastPoints_balances (events : List ForecastEvent) {start : Int} {date : Date} {days : Nat} :
    ∀ point ∈ forecastPoints date events days (start + happened events date),
      point.balance = start + happened events point.date := by
  induction days generalizing date with
  | zero =>
    intro point none_
    cases none_
  | succ days ih =>
    intro point there
    rw [forecastPoints, Int.add_assoc, ← happened_nextDay] at there
    rcases List.mem_cons.mp there with rfl | later
    · rfl
    · exact ih point later

theorem occurrences_within {cadence : Cadence} {intervalDays : Int} {first date : Date}
    (steps : Texts.Steps cadence intervalDays)
    (there : date ∈ occurrences first (fun date => nextOccurrence date cadence intervalDays) asOf end_) :
    InHorizon asOf end_ date := by
  obtain ⟨-, mem⟩ := @occurrences_steps asOf end_ (Texts.after first cadence intervalDays)
    (fun date => nextOccurrence date cadence intervalDays)
    (fun k => (Texts.after_succ first k).symm) (Texts.after_lt steps first)
  obtain ⟨k, -, within⟩ := (mem date).mp there
  exact within

/-- All that is forecast is within the horizon. -/
theorem forecastEvents_within {event : ForecastEvent} (there : event ∈ forecastEvents transactions asOf end_) :
    InHorizon asOf end_ event.date := by
  rcases List.mem_append.mp ((List.perm_insertionSort _ _).mem_iff.mp there) with income | bill
  · obtain ⟨income, detected, there⟩ := List.mem_flatMap.mp income
    obtain ⟨date, occurs, rfl⟩ := List.mem_map.mp there
    exact occurrences_within (Texts.detected_income detected).1 occurs
  · obtain ⟨bill, detected, there⟩ := List.mem_flatMap.mp bill
    obtain ⟨date, occurs, rfl⟩ := List.mem_map.mp there
    exact occurrences_within (Texts.detected_bill detected) occurs

theorem happened_asOf : happened (forecastEvents transactions asOf end_) asOf = 0 := by
  have none_ : (forecastEvents transactions asOf end_).filter (·.date ≤ asOf) = [] := by
    rw [List.filter_eq_nil_iff]
    intro event there early
    exact Nat.not_lt.mpr (of_decide_eq_true early) (forecastEvents_within there).1
  rw [happened, none_]
  rfl

namespace Texts

/-! ### The forecast as texts -/

def eventText (event : Insights.ForecastEvent) : ForecastEvent where
  date := text event.date
  amount := event.amount
  merchant := event.merchant
  kind := event.kind
  confidence := event.confidence
  transactionIds := event.transactionIds
  cadence := event.cadence
  intervalDays := event.intervalDays
  lastSeen := event.lastSeen.map text

def pointText (point : Insights.ForecastPoint) : ForecastPoint := ⟨text point.date, point.balance⟩

def forecastText (forecast : Insights.CashFlowForecast) : CashFlowForecast where
  asOf := text forecast.asOf
  currency := forecast.currency
  startingBalance := forecast.startingBalance
  points := forecast.points.map pointText
  events := forecast.events.map eventText
  lowBalanceDates := forecast.lowBalanceDates.map text

/-- Whatever comes up to the end of the horizon, the date after it is still in a year of four digits. -/
structure WithinReach (transactions : List Transaction) (end_ : Date) : Prop where
  ends : end_.year ≤ 9999
  incomes : ∀ income ∈ detectRecurringIncome transactions, Reaches income.cadence income.intervalDays
    (Insights.nextOccurrence income.lastSeen income.cadence income.intervalDays) end_
  bills : ∀ bill ∈ detectSubscriptions transactions, Reaches bill.cadence bill.observedIntervalDays
    bill.nextExpected end_

section Events

variable {income : RecurringIncome} {bill : DetectedSubscription} {stop : Ledger.IsoDate}
  {dates : Except ForecastError (List Ledger.IsoDate)}

theorem incomeEvents_settles (seen : income.lastSeen.year ≤ 9999)
    (occurs : Settles (occurrences
      (text (Insights.nextOccurrence income.lastSeen income.cadence income.intervalDays))
      (fun date => nextOccurrence date income.cadence income.intervalDays) (text asOf) stop) dates) :
    Settles (incomeEvents (text asOf) stop income) (dates.map (List.map (incomeEvent income))) := by
  have first : Settles (fun _ => Fuel.lift
      ((nextOccurrence (text income.lastSeen) income.cadence income.intervalDays).mapError .date))
      (Except.ok (text (Insights.nextOccurrence income.lastSeen income.cadence income.intervalDays)) :
        Except ForecastError Ledger.IsoDate) := by
    rw [nextOccurrence_text seen]
    exact Settles.lift _
  cases dates with
  | error e => exact first.bind occurs.bind_error
  | ok dates => exact first.bind (occurs.map _)

theorem billEvents_settles (occurs : Settles (occurrences (text bill.nextExpected)
      (fun date => nextOccurrence date bill.cadence bill.observedIntervalDays) (text asOf) stop) dates) :
    Settles (billEvents (text asOf) stop bill) (dates.map (List.map (billEvent bill))) := by
  cases dates with
  | error e => exact occurs.bind_error
  | ok dates => exact occurs.map _

end Events

section Forecast

variable {accounts : List Account} {days : Nat} {currency : String}

theorem eventsByDate_text (events : List Insights.ForecastEvent) {date : Date} (small : date.year ≤ 9999)
    (years : ∀ event ∈ events, event.date.year ≤ 9999) : eventsByDate (events.map eventText) (text date) =
      ((events.filter (·.date = date)).map (·.amount)).sum := by
  rw [eventsByDate, List.filter_map, List.map_map]
  have same : events.filter ((fun event : ForecastEvent => decide (event.date = text date)) ∘ eventText) =
      events.filter (·.date = date) := by
    apply List.filter_congr
    intro event there
    exact decide_eq_decide.mpr (Scheduled.text_inj (years event there) small)
  rw [same]
  rfl

theorem year_within {k : Nat} (low : k ≤ days) (ends : (asOf.addDays days).year ≤ 9999) :
    (asOf.addDays k).year ≤ 9999 := by
  have later := Date.year_le_addDays (asOf.addDays k) (days - k)
  have whole : (asOf.addDays k).addDays (days - k) = asOf.addDays days := by
    apply Date.eq_of_number
    simp only [Date.number_addDays]
    omega
  rw [whole] at later
  exact later.trans ends

theorem forecastPoints_text (events : List Insights.ForecastEvent) (small : asOf.year ≤ 9999)
    (years : ∀ event ∈ events, event.date.year ≤ 9999) (days : Nat) : ∀ k balance,
    (asOf.addDays (k + days)).year ≤ 9999 →
    forecastPoints (text asOf) (events.map eventText) (List.range' (k + 1) days) balance =
      .ok ((Insights.forecastPoints (asOf.addDays k) events days balance).map pointText) := by
  induction days with
  | zero => exact fun k balance _ => rfl
  | succ days ih =>
    intro k balance reach
    have year : (asOf.addDays (k + 1)).year ≤ 9999 := year_within (by omega) reach
    have rest := ih (k + 1) (balance + ((events.filter (·.date = asOf.addDays (k + 1))).map (·.amount)).sum)
      (by rwa [Nat.add_right_comm k 1 days])
    rw [List.range'_succ, forecastPoints, Scheduled.addDays_text small]
    simp only [bind, Except.bind, eventsByDate_text events year years, rest]
    rw [Insights.forecastPoints, ← addDays_succ]
    rfl

/-- The points of a forecast that ends by the year 9999. -/
theorem forecastOf_text (events : List Insights.ForecastEvent)
    (years : ∀ event ∈ events, event.date.year ≤ 9999) (start : Int)
    (reach : (asOf.addDays days).year ≤ 9999) :
    forecastOf (text asOf) currency start days (events.map eventText) = .ok (forecastText
      ⟨asOf, currency, start, Insights.forecastPoints asOf events days start, events,
        ((Insights.forecastPoints asOf events days start).filter (·.balance < 0)).map (·.date)⟩) := by
  have small : asOf.year ≤ 9999 := (Date.year_le_addDays asOf days).trans reach
  have offsets : (List.range days).map (· + 1) = List.range' (0 + 1) days := by
    rw [List.range'_eq_map_range]
    exact List.map_congr_left fun k _ => Nat.add_comm k 1
  have points := forecastPoints_text events small years days 0 start (by rwa [Nat.zero_add])
  rw [forecastOf, offsets, points]
  simp only [bind, Except.bind, pure, Except.pure, forecastText, List.filter_map, List.map_map]
  rfl

/-! ### Within reach -/

theorem eventOrder_text {a b : Insights.ForecastEvent} (left : a.date.year ≤ 9999) (right : b.date.year ≤ 9999) :
    Insights.eventOrder a b ↔ eventOrder (eventText a) (eventText b) := by
  have before : text a.date < text b.date ↔ a.date.digits < b.date.digits := Scheduled.text_lt_iff left right
  have same : text a.date = text b.date ↔ a.date.digits = b.date.digits := by
    rw [Scheduled.text_inj left right]
    refine ⟨congrArg _, fun digits => Date.eq_of_number (Nat.le_antisymm ?_ ?_)⟩
    · exact Date.le_iff_number.mp (Nat.le_of_eq digits)
    · exact Date.le_iff_number.mp (Nat.le_of_eq digits.symm)
  rw [Insights.eventOrder, eventOrder]
  exact or_congr before.symm (and_congr_left' same.symm)

theorem incomeEvent_text (income : RecurringIncome) :
    ((Insights.occurrences (Insights.nextOccurrence income.lastSeen income.cadence income.intervalDays)
      (fun date => Insights.nextOccurrence date income.cadence income.intervalDays) asOf end_).map text).map
        (incomeEvent income) = (Insights.incomeEvents asOf end_ income).map eventText := by
  rw [Insights.incomeEvents, List.map_map, List.map_map]
  rfl

theorem billEvent_text (bill : DetectedSubscription) :
    ((Insights.occurrences bill.nextExpected
      (fun date => Insights.nextOccurrence date bill.cadence bill.observedIntervalDays) asOf end_).map text).map
        (billEvent bill) = (Insights.billEvents asOf end_ bill).map eventText := by
  rw [Insights.billEvents, List.map_map, List.map_map]
  rfl

theorem forecastEvents_text
    (years : ∀ event ∈ forecastEvents transactions asOf end_, event.date.year ≤ 9999) :
    ((detectRecurringIncome transactions).flatMap (fun income =>
        (Insights.incomeEvents asOf end_ income).map eventText) ++
      (detectSubscriptions transactions).flatMap (fun bill =>
        (Insights.billEvents asOf end_ bill).map eventText)).insertionSort eventOrder =
      (forecastEvents transactions asOf end_).map eventText := by
  have sort := List.perm_insertionSort Insights.eventOrder
    ((detectRecurringIncome transactions).flatMap (Insights.incomeEvents asOf end_) ++
      (detectSubscriptions transactions).flatMap (Insights.billEvents asOf end_))
  have order := List.map_insertionSort Insights.eventOrder eventOrder eventText _ fun a left b right =>
    eventOrder_text (years a (sort.mem_iff.mpr left)) (years b (sort.mem_iff.mpr right))
  rw [forecastEvents, order, List.map_append, List.map_flatMap, List.map_flatMap]

/-- The forecast once the events are there, or have failed. -/
def forecastFrom (accounts : List Account) (currency : String) (asOf : Ledger.IsoDate) (days : Nat)
    (incomes bills : Except ForecastError (List ForecastEvent)) : Except ForecastError CashFlowForecast := do
  let incomes ← incomes
  let bills ← bills
  (forecastOf asOf currency (startingBalance accounts currency) days
    ((incomes ++ bills).insertionSort eventOrder)).mapError .date

theorem forecastCashFlow_settles
    {incomes bills : Except ForecastError (List ForecastEvent)} (small : asOf.year ≤ 9999) (least : 1 ≤ days)
    (most : days ≤ 90)
    (incomes_ : Settles (fun fuel => Fuel.gather (fun income => incomeEvents (text asOf)
      (text (asOf.addDays days)) income fuel) (detectRecurringIncome transactions)) incomes)
    (bills_ : Settles (fun fuel => Fuel.gather (fun bill => billEvents (text asOf)
      (text (asOf.addDays days)) bill fuel) (detectSubscriptions transactions)) bills) :
    Settles (forecastCashFlow accounts transactions (text asOf) days currency)
      (forecastFrom accounts currency (text asOf) days incomes bills) := by
  have range : ¬((days : Int) < 1 ∨ 90 < (days : Int)) := by omega
  have ends : Settles (fun _ => Fuel.lift ((Scheduled.addDays (text asOf) days).mapError .date))
      (Except.ok (text (asOf.addDays days)) : Except ForecastError Ledger.IsoDate) := by
    rw [Scheduled.addDays_text small]
    exact Settles.lift _
  have rest := incomes_.then fun incomes _ => bills_.then fun bills _ => Settles.lift
    ((forecastOf (text asOf) currency (startingBalance accounts currency) days
      ((incomes ++ bills).insertionSort eventOrder)).mapError ForecastError.date)
  show Settles (fun fuel => forecastCashFlow accounts transactions (text asOf) days currency fuel) _
  simp only [forecastCashFlow, if_neg range]
  exact ends.bind rest

variable (accounts currency) in
/-- Within reach the loops on texts come to what the dates come to. -/
theorem forecastCashFlow_within (real : ∀ row ∈ transactions, row.postedAt.year ≤ 9999) (least : 1 ≤ days)
    (most : days ≤ 90) (within : WithinReach transactions (asOf.addDays days)) :
    ∃ forecast, Insights.forecastCashFlow accounts transactions asOf days currency = .ok forecast ∧
      Settles (forecastCashFlow accounts transactions (text asOf) days currency)
        (.ok (forecastText forecast)) := by
  have small : asOf.year ≤ 9999 := (Date.year_le_addDays asOf days).trans within.ends
  have later : asOf ≤ asOf.addDays days := by
    rw [Date.le_iff_number, Date.number_addDays]
    exact Nat.le_add_right _ _
  have range : ¬((days : Int) < 1 ∨ 90 < (days : Int)) := by omega
  have years : ∀ event ∈ forecastEvents transactions asOf (asOf.addDays days), event.date.year ≤ 9999 :=
    fun event there => (Date.year_le_of_digits (forecastEvents_within there).2).trans within.ends
  have incomes : Settles (fun fuel => Fuel.gather (fun income => incomeEvents (text asOf)
      (text (asOf.addDays days)) income fuel) (detectRecurringIncome transactions))
      (.ok ((detectRecurringIncome transactions).flatMap fun income =>
        (Insights.incomeEvents asOf (asOf.addDays days) income).map eventText)) := by
    rw [← Fuel.gather_ok fun income _ => rfl]
    refine Settles.gather fun income detected => ?_
    obtain ⟨steps, row, there, seen⟩ := detected_income detected
    rw [← incomeEvent_text]
    exact incomeEvents_settles (seen ▸ real row there)
      (occurrences_settles steps later within.ends (within.incomes income detected))
  have bills : Settles (fun fuel => Fuel.gather (fun bill => billEvents (text asOf)
      (text (asOf.addDays days)) bill fuel) (detectSubscriptions transactions))
      (.ok ((detectSubscriptions transactions).flatMap fun bill =>
        (Insights.billEvents asOf (asOf.addDays days) bill).map eventText)) := by
    rw [← Fuel.gather_ok fun bill _ => rfl]
    refine Settles.gather fun bill detected => ?_
    rw [← billEvent_text]
    exact billEvents_settles
      (occurrences_settles (detected_bill detected) later within.ends (within.bills bill detected))
  have points := @forecastOf_text asOf days currency _ years (startingBalance accounts currency) within.ends
  refine ⟨_, by rw [Insights.forecastCashFlow, if_neg range], ?_⟩
  have whole := @forecastCashFlow_settles _ asOf accounts _ currency _ _ small least most incomes bills
  simp only [forecastFrom, bind, Except.bind, forecastEvents_text years, points] at whole
  exact whole

/-! ### Conservation -/

/-- One point a day, of dates, that together with the events add up. -/
structure Conserves (accounts : List Account) (currency : String) (asOf : Date) (days : Nat)
    (forecast : CashFlowForecast) : Prop where
  starts : forecast.startingBalance = startingBalance accounts currency
  consecutive : forecast.points.map (·.date) = (List.range days).map fun k => text (asOf.addDays (k + 1))
  dates : ∀ point ∈ forecast.points, isIsoDate point.date = true
  events : ∀ event ∈ forecast.events, ∃ point ∈ forecast.points, event.date = point.date
  balances : ∀ point ∈ forecast.points, point.balance = forecast.startingBalance +
    ((forecast.events.filter (·.date ≤ point.date)).map (·.amount)).sum
  low : forecast.lowBalanceDates = (forecast.points.filter (·.balance < 0)).map (·.date)

theorem happened_text {events : List Insights.ForecastEvent} {date : Date} (small : date.year ≤ 9999)
    (years : ∀ event ∈ events, event.date.year ≤ 9999) :
    (((events.map eventText).filter (·.date ≤ text date)).map (·.amount)).sum = happened events date := by
  have same : events.filter ((fun event : ForecastEvent => decide (event.date ≤ text date)) ∘ eventText) =
      events.filter (·.date ≤ date) := by
    apply List.filter_congr
    intro event there
    exact decide_eq_decide.mpr (text_le_iff (years event there) small)
  rw [List.filter_map, List.map_map, same]
  rfl

theorem mem_consecutive {date : Date} (within : InHorizon asOf (asOf.addDays days) date) :
    ∃ k < days, date = asOf.addDays (k + 1) := by
  obtain ⟨low, high⟩ := within
  rw [Date.lt_iff_number] at low
  rw [Date.le_iff_number, Date.number_addDays] at high
  refine ⟨date.number - asOf.number - 1, by omega, Date.eq_of_number ?_⟩
  rw [Date.number_addDays]
  omega

theorem conserves_of_within {forecast : Insights.CashFlowForecast} (least : 1 ≤ days) (most : days ≤ 90)
    (done : Insights.forecastCashFlow accounts transactions asOf days currency = .ok forecast)
    (ends : (asOf.addDays days).year ≤ 9999) :
    Conserves accounts currency asOf days (forecastText forecast) := by
  have range : ¬((days : Int) < 1 ∨ 90 < (days : Int)) := by omega
  rw [Insights.forecastCashFlow, if_neg range, Except.ok.injEq, Int.toNat_natCast] at done
  obtain rfl := done
  have years : ∀ event ∈ forecastEvents transactions asOf (asOf.addDays days), event.date.year ≤ 9999 :=
    fun event there => (Date.year_le_of_digits (forecastEvents_within there).2).trans ends
  have points := forecastPoints_dates (forecastEvents transactions asOf (asOf.addDays days)) asOf days
    (startingBalance accounts currency)
  have day : ∀ point ∈ Insights.forecastPoints asOf (forecastEvents transactions asOf (asOf.addDays days)) days
      (startingBalance accounts currency), point.date.year ≤ 9999 := by
    intro point there
    have listed := List.mem_map_of_mem (f := Insights.ForecastPoint.date) there
    rw [points] at listed
    obtain ⟨k, low, same⟩ := List.mem_map.mp listed
    exact same ▸ year_within (List.mem_range.mp low) ends
  refine ⟨rfl, ?_, ?_, ?_, ?_, ?_⟩
  · rw [forecastText, List.map_map]
    show List.map (text ∘ Insights.ForecastPoint.date) _ = _
    rw [← List.map_map, points, List.map_map]
    rfl
  · intro point there
    obtain ⟨point, listed, rfl⟩ := List.mem_map.mp there
    exact Scheduled.isIsoDate_text (day point listed)
  · intro event there
    obtain ⟨event, listed, rfl⟩ := List.mem_map.mp there
    obtain ⟨k, low, same⟩ := mem_consecutive (forecastEvents_within listed)
    have dated : event.date ∈ (Insights.forecastPoints asOf
        (forecastEvents transactions asOf (asOf.addDays days)) days
        (startingBalance accounts currency)).map (·.date) := by
      rw [points, same]
      exact List.mem_map.mpr ⟨k, List.mem_range.mpr low, rfl⟩
    obtain ⟨point, there, same⟩ := List.mem_map.mp dated
    exact ⟨pointText point, List.mem_map_of_mem there, congrArg text same.symm⟩
  · intro point there
    obtain ⟨point, listed, rfl⟩ := List.mem_map.mp there
    have balance := @forecastPoints_balances (forecastEvents transactions asOf (asOf.addDays days))
      (startingBalance accounts currency) asOf days
    rw [happened_asOf, Int.add_zero] at balance
    exact (balance point listed).trans
      (congrArg (_ + ·) (happened_text (day point listed) years).symm)
  · rw [forecastText, List.filter_map, List.map_map, List.map_map]
    rfl

/-! ### Out of reach -/

variable (accounts currency) in
/-- It comes to an end in any case. -/
theorem forecastCashFlow_terminates (real : ∀ row ∈ transactions, row.postedAt.year ≤ 9999)
    (small : asOf.year ≤ 9999) (least : 1 ≤ days) (most : days ≤ 90) :
    ∃ incomes bills,
      (∀ income ∈ detectRecurringIncome transactions,
        Settles (incomeEvents (text asOf) (text (asOf.addDays days)) income) (incomes income)) ∧
      (∀ bill ∈ detectSubscriptions transactions,
        Settles (billEvents (text asOf) (text (asOf.addDays days)) bill) (bills bill)) ∧
      Settles (forecastCashFlow accounts transactions (text asOf) days currency)
        (forecastFrom accounts currency (text asOf) days
          (Fuel.gather incomes (detectRecurringIncome transactions))
          (Fuel.gather bills (detectSubscriptions transactions))) := by
  have later : asOf ≤ asOf.addDays days := by
    rw [Date.le_iff_number, Date.number_addDays]
    exact Nat.le_add_right _ _
  have dates {cadence : Cadence} {intervalDays : Int} (steps : Steps cadence intervalDays) (first : Date) :
      ∃ result, Settles (occurrences (text first) (fun date => nextOccurrence date cadence intervalDays)
        (text asOf) (text (asOf.addDays days))) result := by
    by_cases ends : (asOf.addDays days).year ≤ 9999
    · by_cases reaches : Reaches cadence intervalDays first (asOf.addDays days)
      · exact ⟨_, occurrences_settles steps later ends reaches⟩
      · obtain ⟨e, fails⟩ := occurrences_fails steps later ends reaches
        exact ⟨_, fails⟩
    · exact occurrences_far steps small (signed_text (Nat.lt_of_not_le ends)).1
  obtain ⟨incomes, each, whole⟩ := @Settles.gather_exists _ _ _
    (incomeEvents (text asOf) (text (asOf.addDays days))) (detectRecurringIncome transactions) (by
      intro income detected
      obtain ⟨steps, row, there, seen⟩ := detected_income detected
      obtain ⟨result, occurs⟩ := dates steps
        (Insights.nextOccurrence income.lastSeen income.cadence income.intervalDays)
      exact ⟨_, incomeEvents_settles (seen ▸ real row there) occurs⟩)
  obtain ⟨bills, each', whole'⟩ := @Settles.gather_exists _ _ _
    (billEvents (text asOf) (text (asOf.addDays days))) (detectSubscriptions transactions) (by
      intro bill detected
      obtain ⟨result, occurs⟩ := dates (detected_bill detected) bill.nextExpected
      exact ⟨_, billEvents_settles occurs⟩)
  exact ⟨incomes, bills, each, each', forecastCashFlow_settles small least most whole whole'⟩

/-- The last point of a forecast past the year 9999 is of no date. -/
theorem Conserves.ends {forecast : CashFlowForecast} (conserves : Conserves accounts currency asOf days forecast)
    (least : 1 ≤ days) : (asOf.addDays days).year ≤ 9999 := by
  by_contra big
  have last : text (asOf.addDays days) ∈ forecast.points.map (·.date) := by
    rw [conserves.consecutive]
    exact List.mem_map.mpr ⟨days - 1, List.mem_range.mpr (by omega), by rw [Nat.sub_add_cancel least]⟩
  obtain ⟨point, there, same⟩ := List.mem_map.mp last
  have iso := conserves.dates point there
  rw [same, (signed_text (Nat.lt_of_not_le big)).1.not_iso] at iso
  cases iso

theorem reaches_of_ok {cadence : Cadence} {intervalDays : Int} {first : Date} {events : List ForecastEvent}
    {all : Except ForecastError (List Ledger.IsoDate) → Except ForecastError (List ForecastEvent)}
    {run : Nat → Fuel.Bounded ForecastError (List ForecastEvent)} (steps : Steps cadence intervalDays)
    (later : asOf ≤ end_) (ends : end_.year ≤ 9999) (errors : ∀ e, all (.error e) = .error e)
    (settles : ∀ dates, Settles (occurrences (text first)
      (fun date => nextOccurrence date cadence intervalDays) (text asOf) (text end_)) dates →
      Settles run (all dates)) (done : Settles run (.ok events)) :
    Reaches cadence intervalDays first end_ := by
  by_contra short
  obtain ⟨e, fails⟩ := occurrences_fails steps later ends short
  have both := (settles _ fails).unique done
  rw [errors] at both
  cases both

theorem forecastFrom_ok {incomes bills : Except ForecastError (List ForecastEvent)} {forecast : CashFlowForecast}
    {start : Ledger.IsoDate} (done : forecastFrom accounts currency start days incomes bills = .ok forecast) :
    (∃ earned, incomes = .ok earned) ∧ ∃ due, bills = .ok due := by
  cases incomes with
  | error e => cases done
  | ok earned =>
    cases bills with
    | error e => cases done
    | ok due => exact ⟨⟨earned, rfl⟩, due, rfl⟩

/-- The forecast adds up just when all that comes has dates. -/
theorem forecastCashFlow_conserves_iff (accounts : List Account) (transactions : List Transaction) (asOf : Date)
    (days : Nat) (currency : String) (real : ∀ row ∈ transactions, row.postedAt.year ≤ 9999)
    (small : asOf.year ≤ 9999) (least : 1 ≤ days) (most : days ≤ 90) :
    ∃ result, Settles (forecastCashFlow accounts transactions (text asOf) days currency) result ∧
      ((∃ forecast, result = .ok forecast ∧ Conserves accounts currency asOf days forecast) ↔
        WithinReach transactions (asOf.addDays days)) := by
  have later : asOf ≤ asOf.addDays days := by
    rw [Date.le_iff_number, Date.number_addDays]
    exact Nat.le_add_right _ _
  obtain ⟨incomes, bills, income_, bill_, settles⟩ :=
    forecastCashFlow_terminates accounts currency real small least most
  refine ⟨_, settles, ?_, ?_⟩
  · rintro ⟨forecast, same, conserves⟩
    have ends := conserves.ends least
    obtain ⟨⟨earned, gathered⟩, due, gathered'⟩ := forecastFrom_ok same
    refine ⟨ends, fun income detected => ?_, fun bill detected => ?_⟩
    · obtain ⟨steps, row, there, seen⟩ := detected_income detected
      obtain ⟨events, ok⟩ := Fuel.ok_of_gather gathered income detected
      have done := income_ income detected
      rw [ok] at done
      exact reaches_of_ok steps later ends (fun _ => rfl)
        (fun dates => incomeEvents_settles (seen ▸ real row there)) done
    · obtain ⟨events, ok⟩ := Fuel.ok_of_gather gathered' bill detected
      have done := bill_ bill detected
      rw [ok] at done
      exact reaches_of_ok (detected_bill detected) later ends (fun _ => rfl)
        (fun dates => billEvents_settles) done
  · intro within
    obtain ⟨forecast, done, settles'⟩ := forecastCashFlow_within accounts currency real least most within
    exact ⟨_, settles.unique settles', conserves_of_within least most done within.ends⟩

end Forecast

theorem new_year_conserves : ∃ result,
    Settles (forecastCashFlow [⟨"checking", .checking, "USD", 100000⟩]
      [⟨"rent", newYear, -120000, "USD", "landlord", none, "rent", false, false⟩] (text newYear) (90 : Nat) "USD")
      result ∧
      ((∃ forecast, result = .ok forecast ∧
        Conserves [⟨"checking", .checking, "USD", 100000⟩] "USD" newYear 90 forecast) ↔
        WithinReach [⟨"rent", newYear, -120000, "USD", "landlord", none, "rent", false, false⟩]
          (newYear.addDays 90)) :=
  forecastCashFlow_conserves_iff _ _ newYear 90 "USD" (by decide) (by decide) (by decide) (by decide)

theorem lastDay_month : 1 ≤ 12 ∧ 12 ≤ 12 := by decide

theorem lastDay_day : 1 ≤ 31 ∧ 31 ≤ daysInMonth 9999 12 := by decide

/-- The last day that has a text of ten characters. -/
def lastDay : Date := ⟨9999, 12, 31, lastDay_month, lastDay_day⟩

/-- The day after it is "+010000-01". -/
theorem no_point_after_lastDay :
    ¬∀ (accounts : List Account) (transactions : List Transaction) (asOf : Date) (days : Nat) (currency : String),
      (∀ row ∈ transactions, row.postedAt.year ≤ 9999) → asOf.year ≤ 9999 → 1 ≤ days → days ≤ 90 →
      ∃ forecast, Settles (forecastCashFlow accounts transactions (text asOf) days currency) (.ok forecast) ∧
        Conserves accounts currency asOf days forecast := by
  intro all
  obtain ⟨forecast, -, conserves⟩ := all [] [] lastDay 1 "USD" (by decide) (by decide) (by decide) (by decide)
  exact absurd (conserves.ends (by decide)) (by decide +kernel)

end Texts

end Finverse.Insights
