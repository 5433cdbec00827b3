import Finverse.Framework.Fuel
import Finverse.Insights.CurrencyIsolation
import Finverse.Insights.Projection
import Finverse.Scheduled.IsoDates

/-! The forecast on dates as texts, with its loops. -/

namespace Finverse.Insights.Texts

open Fuel (Bounded Settles gather whileRun)
open Imports (decimal)
open Ledger (IsoDate)
open Scheduled (DateError slice text)

inductive ForecastError
  | error (message : String)
  | date (error : DateError)
  deriving DecidableEq, Repr

/-- Two payrolls a month come on calendar days, and not every so many days. -/
def nextOccurrence (lastSeen : IsoDate) (cadence : Cadence) (intervalDays : Int) :
    Except DateError IsoDate :=
  match cadence with
  | .weekly | .biweekly => Scheduled.addDays lastSeen intervalDays.toNat
  | .semimonthly =>
    if decimal (slice 8 10 lastSeen.toList) ≤ 7 then
      .ok (String.ofList (slice 0 8 lastSeen.toList ++ ['1', '5']))
    else do
      let next ← Scheduled.addMonths (String.ofList (slice 0 8 lastSeen.toList ++ ['0', '1'])) 1
      return String.ofList (slice 0 8 next.toList ++ ['0', '1'])
  | cadence => Scheduled.addMonths lastSeen (monthsPer cadence)

structure ForecastEvent where
  date : IsoDate
  amount : Int
  merchant : String
  kind : EventKind
  confidence : Rat
  transactionIds : List String
  cadence : Option Cadence := none
  intervalDays : Option Int := none
  lastSeen : Option IsoDate := none
  deriving DecidableEq

structure ForecastPoint where
  date : IsoDate
  balance : Int
  deriving DecidableEq

structure CashFlowForecast where
  asOf : IsoDate
  currency : String
  startingBalance : Int
  points : List ForecastPoint
  events : List ForecastEvent
  lowBalanceDates : List IsoDate
  deriving DecidableEq

/-- The dates after one text and up to another. -/
def occurrences (first : IsoDate) (next : IsoDate → Except DateError IsoDate) (asOf end_ : IsoDate)
    (fuel : Nat) : Bounded ForecastError (List IsoDate) := do
  let step date := (next date).mapError .date
  let (_, date) ← whileRun (fun date => decide (date ≤ asOf)) step fuel first
  let (dates, _) ← whileRun (fun date => decide (date ≤ end_)) step fuel date
  return dates

def incomeEvent (income : RecurringIncome) (date : IsoDate) : ForecastEvent where
  date
  amount := income.amount
  merchant := income.merchant
  kind := .income
  confidence := income.confidence
  transactionIds := income.transactionIds
  cadence := some income.cadence
  intervalDays := some income.intervalDays
  lastSeen := some (text income.lastSeen)

def incomeEvents (asOf end_ : IsoDate) (income : RecurringIncome) (fuel : Nat) :
    Bounded ForecastError (List ForecastEvent) := do
  let first ← Fuel.lift
    ((nextOccurrence (text income.lastSeen) income.cadence income.intervalDays).mapError .date)
  let dates ← occurrences first (fun date => nextOccurrence date income.cadence income.intervalDays) asOf
    end_ fuel
  return dates.map (incomeEvent income)

def billEvent (bill : DetectedSubscription) (date : IsoDate) : ForecastEvent where
  date
  amount := -bill.typicalAmount
  merchant := bill.merchant
  kind := .expense
  confidence := bill.confidence
  transactionIds := bill.transactionIds

def billEvents (asOf end_ : IsoDate) (bill : DetectedSubscription) (fuel : Nat) :
    Bounded ForecastError (List ForecastEvent) := do
  let dates ← occurrences (text bill.nextExpected)
    (fun date => nextOccurrence date bill.cadence bill.observedIntervalDays) asOf end_ fuel
  return dates.map (billEvent bill)

/-- By date, and the largest amount of a day first. -/
def eventOrder (a b : ForecastEvent) : Prop := a.date < b.date ∨ a.date = b.date ∧ b.amount ≤ a.amount

instance : DecidableRel eventOrder := fun _ _ => inferInstanceAs (Decidable (_ ∨ _))

/-- What happens on a date. -/
def eventsByDate (events : List ForecastEvent) (date : IsoDate) : Int :=
  ((events.filter (·.date = date)).map (·.amount)).sum

def forecastPoints (asOf : IsoDate) (events : List ForecastEvent) :
    List Nat → Int → Except DateError (List ForecastPoint)
  | [], _ => .ok []
  | offset :: rest, balance => do
    let date ← Scheduled.addDays asOf offset
    let balance := balance + eventsByDate events date
    let more ← forecastPoints asOf events rest balance
    return ⟨date, balance⟩ :: more

def forecastOf (asOf : IsoDate) (currency : String) (startingBalance : Int) (days : Nat)
    (events : List ForecastEvent) : Except DateError CashFlowForecast := do
  let points ← forecastPoints asOf events ((List.range days).map (· + 1)) startingBalance
  return ⟨asOf, currency, startingBalance, points, events,
    (points.filter (·.balance < 0)).map (·.date)⟩

/-- The transactions are of real dates, which the detectors read. -/
def forecastCashFlow (accounts : List Account) (transactions : List Transaction) (asOf : IsoDate)
    (days : Int) (currency : String) (fuel : Nat) : Bounded ForecastError CashFlowForecast :=
  if days < 1 ∨ 90 < days then
    throw (.error "Forecast days must be an integer from 1 through 90")
  else do
    let end_ ← Fuel.lift ((Scheduled.addDays asOf days.toNat).mapError .date)
    let incomes ← gather (fun income => incomeEvents asOf end_ income fuel)
      (detectRecurringIncome transactions)
    let bills ← gather (fun bill => billEvents asOf end_ bill fuel) (detectSubscriptions transactions)
    let events := (incomes ++ bills).insertionSort eventOrder
    Fuel.lift ((forecastOf asOf currency (startingBalance accounts currency) days.toNat events).mapError
      .date)

/-! ### The next date -/

section Next

variable {date : Date} {cadence : Cadence} {intervalDays : Int}

theorem slices_ten (small : date.year ≤ 9999) :
    slice 0 8 (text date).toList = Imports.padStart 4 date.year ++ '-' ::
      Imports.padStart 2 date.month ++ ['-'] := by
  have hy := Imports.length_padStart (by decide : 0 < 4) (by omega : date.year < 10 ^ 4)
  have hm := Imports.length_padStart (by decide : 0 < 2) (Scheduled.month_lt date)
  have length : (Imports.padStart 4 date.year ++ '-' :: Imports.padStart 2 date.month ++ ['-']).length = 8 := by
    simp [hy, hm]
  have parts : (text date).toList = (Imports.padStart 4 date.year ++ '-' ::
      Imports.padStart 2 date.month ++ ['-']) ++ Imports.padStart 2 date.day := by
    rw [Scheduled.text_toList small]
    simp
  rw [parts, slice, List.drop_zero, ← length, List.take_left]

/-- Another day of the month. -/
theorem slice_onDay (small : date.year ≤ 9999) {other : Date} (year : other.year = date.year)
    (month : other.month = date.month) {digits : List Char}
    (day : Imports.padStart 2 other.day = digits) :
    String.ofList (slice 0 8 (text date).toList ++ digits) = text other := by
  rw [← String.ofList_toList (s := text other), Scheduled.text_toList (year.trans_le small), slices_ten small,
    year, month, day]
  simp

theorem text_big {other : Date} (year : other.year = 10000) (month : other.month = 1) :
    text other = "+010000-01" := by
  have first : Scheduled.isoString other =
      "+010000-01".toList ++ ('-' :: Imports.padStart 2 other.day) := by
    rw [Scheduled.isoString, year, month, if_neg (by decide)]
    have six : Imports.padStart 6 10000 = "010000".toList := by decide +kernel
    have two : Imports.padStart 2 1 = "01".toList := by decide +kernel
    rw [six, two]
    rfl
  rw [text, first]
  have length : "+010000-01".toList.length = 10 := by decide
  rw [slice, List.drop_zero, ← length, List.take_left, String.ofList_toList]

theorem nextOccurrence_text (small : date.year ≤ 9999) :
    nextOccurrence (text date) cadence intervalDays =
      .ok (text (Insights.nextOccurrence date cadence intervalDays)) := by
  cases cadence with
  | weekly | biweekly => exact Scheduled.addDays_text small _
  | monthly | quarterly | yearly => exact Scheduled.addMonths_text small _
  | semimonthly =>
    have day : decimal (slice 8 10 (text date).toList) = date.day := by
      rw [(Scheduled.slices_text small).2.2.1, Imports.decimal_padStart]
    rw [nextOccurrence, Insights.nextOccurrence, day]
    by_cases early : date.day ≤ 7
    · have fifteen : Imports.padStart 2 15 = ['1', '5'] := by decide +kernel
      have there : String.ofList (slice 0 8 (text date).toList ++ ['1', '5']) = text date.fifteenth :=
        @slice_onDay date small date.fifteenth rfl rfl _ fifteen
      rw [if_pos early, if_pos early, there]
    · have one : Imports.padStart 2 1 = ['0', '1'] := by decide +kernel
      have month := date.month_valid
      have first : String.ofList (slice 0 8 (text date).toList ++ ['0', '1']) = text (date.firstOfMonth 0) := by
        refine slice_onDay small ?_ ?_ one
        · simp only [Date.firstOfMonth]
          omega
        · simp only [Date.firstOfMonth]
          omega
      have start : (date.firstOfMonth 0).year ≤ 9999 := by
        simp only [Date.firstOfMonth]
        omega
      have there : String.ofList (slice 0 8 (text (date.firstOfMonth 1)).toList ++ ['0', '1']) =
          text (date.firstOfMonth 1) := by
        by_cases next : (date.firstOfMonth 1).year ≤ 9999
        · exact @slice_onDay _ next (date.firstOfMonth 1) rfl rfl _ one
        · -- the month after December of the year 9999
          have year : (date.firstOfMonth 1).year = 10000 := by
            simp only [Date.firstOfMonth] at next ⊢
            omega
          have january : (date.firstOfMonth 1).month = 1 := by
            simp only [Date.firstOfMonth] at next ⊢
            omega
          rw [text_big year january]
          decide +kernel
      rw [if_neg early, if_neg early, first, Scheduled.addMonths_text start, Date.firstOfMonth_addMonths,
        Nat.zero_add]
      simp only [bind, Except.bind, pure, Except.pure, there]

/-! ### Texts past the year 9999 -/

/-- The text has a sign, as those of years past 9999 have. -/
def Signed (value : IsoDate) : Prop := value.toList.head? = some '+'

theorem Signed.not_iso {value : IsoDate} (signed : Signed value) : Scheduled.isIsoDate value = false := by
  by_contra iso
  obtain ⟨c, cs, parts, digit⟩ := Scheduled.digit_head (Bool.eq_true_of_not_eq_false iso)
  rw [Signed, parts, List.head?_cons, Option.some.injEq] at signed
  rw [signed] at digit
  exact absurd digit (by decide)

theorem Signed.toUtcDate {value : IsoDate} (signed : Signed value) :
    ∃ e, Scheduled.toUtcDate value = .error e := by
  rw [Scheduled.toUtcDate, Scheduled.assertIsoDate, throwIf, if_pos signed.not_iso]
  exact ⟨_, rfl⟩

theorem Signed.addDays {value : IsoDate} (signed : Signed value) (days : Nat) :
    ∃ e, Scheduled.addDays value days = .error e := by
  obtain ⟨e, fails⟩ := signed.toUtcDate
  rw [Scheduled.addDays, fails]
  exact ⟨e, rfl⟩

theorem Signed.addMonths {value : IsoDate} (signed : Signed value) (months : Nat) :
    ∃ e, Scheduled.addMonths value months = .error e := by
  obtain ⟨e, fails⟩ := signed.toUtcDate
  rw [Scheduled.addMonths, fails]
  exact ⟨e, rfl⟩

theorem Signed.slice {value : IsoDate} (signed : Signed value) (rest : List Char) :
    Signed (String.ofList (slice 0 8 value.toList ++ rest)) := by
  obtain ⟨cs, parts⟩ := List.head?_eq_some_iff.mp signed
  rw [Signed, String.toList_ofList, parts]
  rfl

/-- From a text with a sign it is one more step at most. -/
theorem Signed.nextOccurrence {value : IsoDate} (signed : Signed value) (length : 8 ≤ value.toList.length) :
    (∃ e, nextOccurrence value cadence intervalDays = .error e) ∨
    ∃ other, nextOccurrence value cadence intervalDays = .ok other ∧ Signed other ∧
      ∃ e, nextOccurrence other cadence intervalDays = .error e := by
  cases cadence with
  | weekly | biweekly => exact .inl (signed.addDays _)
  | monthly | quarterly | yearly => exact .inl (signed.addMonths _)
  | semimonthly =>
    have late {other : IsoDate} (signed : Signed other) (past : 7 < decimal (Scheduled.slice 8 10 other.toList)) :
        ∃ e, Texts.nextOccurrence other .semimonthly intervalDays = .error e := by
      obtain ⟨e, fails⟩ := (signed.slice ['0', '1']).addMonths 1
      rw [Texts.nextOccurrence, if_neg (Nat.not_le.mpr past), fails]
      exact ⟨e, rfl⟩
    by_cases early : decimal (Scheduled.slice 8 10 value.toList) ≤ 7
    · refine .inr ⟨_, by rw [Texts.nextOccurrence, if_pos early], signed.slice _, late (signed.slice _) ?_⟩
      have eight : (Scheduled.slice 0 8 value.toList).length = 8 := by simpa [Scheduled.slice] using length
      have whole : (Scheduled.slice 0 8 value.toList ++ ['1', '5']).length ≤ 10 := by simp [eight]
      have digits : Scheduled.slice 8 10 (Scheduled.slice 0 8 value.toList ++ ['1', '5']) = ['1', '5'] := by
        rw [Scheduled.slice, List.take_of_length_le whole, List.drop_left' eight]
      rw [String.toList_ofList, digits]
      decide +kernel
    · exact .inl (late signed (Nat.lt_of_not_le early))

theorem le_length_padStart (width n : Nat) : width ≤ (Imports.padStart width n).length := by
  rw [Imports.padStart, List.length_append, List.length_replicate]
  omega

theorem signed_text (big : 9999 < date.year) : Signed (text date) ∧ 8 ≤ (text date).toList.length := by
  constructor
  · obtain ⟨cs, parts⟩ := Scheduled.text_toList_big big
    rw [Signed, parts]
    rfl
  · have six := le_length_padStart 6 date.year
    rw [text, String.toList_ofList, Scheduled.isoString, if_neg (Nat.not_le.mpr big), slice]
    simp only [List.drop_zero, List.length_take, List.length_append, List.length_cons]
    omega

/-! ### The loops -/

/-- Weeks have days. -/
def Steps (cadence : Cadence) (intervalDays : Int) : Prop :=
  cadence = .weekly ∨ cadence = .biweekly → 0 < intervalDays

/-- Each date is after the one before. -/
theorem lt_nextOccurrence (steps : Steps cadence intervalDays) (date : Date) :
    date.digits < (Insights.nextOccurrence date cadence intervalDays).digits := by
  have days (positive : 0 < intervalDays) : date.digits < (date.addDays intervalDays.toNat).digits := by
    rw [Date.lt_iff_number, Date.number_addDays]
    omega
  have months (count : Nat) (positive : 0 < count) : date.digits < (date.addMonths count).digits := by
    apply Date.digits_lt_of_months
    rw [Date.months_addMonths]
    omega
  cases cadence with
  | weekly => exact days (steps (.inl rfl))
  | biweekly => exact days (steps (.inr rfl))
  | monthly | quarterly | yearly => exact months _ (monthsPer_pos _)
  | semimonthly =>
    rw [Insights.nextOccurrence]
    split
    · rw [Date.digits, Date.digits]
      simp only [Date.fifteenth]
      omega
    · apply Date.digits_lt_of_months
      rw [Date.months_firstOfMonth]
      exact Nat.lt_add_one _

/-- The date after so many steps. -/
def after (first : Date) (cadence : Cadence) (intervalDays : Int) (k : Nat) : Date :=
  (fun date => Insights.nextOccurrence date cadence intervalDays)^[k] first

theorem after_succ (first : Date) (k : Nat) : after first cadence intervalDays (k + 1) =
    Insights.nextOccurrence (after first cadence intervalDays k) cadence intervalDays :=
  Function.iterate_succ_apply' _ k first

theorem after_lt (steps : Steps cadence intervalDays) (first : Date) (k : Nat) :
    (after first cadence intervalDays k).digits < (after first cadence intervalDays (k + 1)).digits := by
  rw [after_succ]
  exact lt_nextOccurrence steps _

theorem text_le_iff {a b : Date} (left : a.year ≤ 9999) (right : b.year ≤ 9999) : text a ≤ text b ↔ a ≤ b := by
  rw [← not_lt, Scheduled.text_lt_iff right left]
  exact not_lt

theorem Signed.le {value : IsoDate} (signed : Signed value) {stop : Date} (small : stop.year ≤ 9999) :
    value ≤ text stop :=
  le_of_lt (Scheduled.signed_lt signed (Scheduled.isIsoDate_text small))

/-- One turn of a loop. -/
def turn {ε : Type} (wrap : DateError → ε) (cadence : Cadence) (intervalDays : Int) (date : IsoDate) :
    Except ε IsoDate :=
  (nextOccurrence date cadence intervalDays).mapError wrap

variable {ε : Type} {wrap : DateError → ε}

theorem turn_text (small : date.year ≤ 9999) : turn wrap cadence intervalDays (text date) =
    .ok (text (Insights.nextOccurrence date cadence intervalDays)) := by
  rw [turn, nextOccurrence_text small]
  rfl

variable {first stop : Date} {n : Nat}

variable (wrap) in
/-- A loop stops at the first date that comes after. -/
theorem loop_settles (small : stop.year ≤ 9999)
    (before : ∀ j < n, after first cadence intervalDays j ≤ stop)
    (past : stop.digits < (after first cadence intervalDays n).digits)
    (reach : (after first cadence intervalDays n).year ≤ 9999) :
    Settles (fun fuel => whileRun (fun date => decide (date ≤ text stop)) (turn wrap cadence intervalDays) fuel
      (text first)) (.ok ((List.range n).map fun j => text (after first cadence intervalDays j),
        text (after first cadence intervalDays n))) := by
  refine @Fuel.whileRun_settles _ _ _ _ (fun j => text (after first cadence intervalDays j)) n ?_ ?_ ?_
  · intro j low
    have year : (after first cadence intervalDays j).year ≤ 9999 :=
      (Date.year_le_of_digits (before j low)).trans small
    exact decide_eq_true ((text_le_iff year small).mpr (before j low))
  · intro j low
    have year : (after first cadence intervalDays j).year ≤ 9999 :=
      (Date.year_le_of_digits (before j low)).trans small
    rw [turn_text year, after_succ]
  · rw [decide_eq_false_iff_not, text_le_iff reach small]
    exact Nat.not_le.mpr past

variable (wrap) in
/-- A loop that gets to a year past 9999 throws. -/
theorem loop_fails (small : stop.year ≤ 9999)
    (before : ∀ j < n, after first cadence intervalDays j ≤ stop)
    (big : 9999 < (after first cadence intervalDays n).year) :
    ∃ e, Settles (fun fuel => whileRun (fun date => decide (date ≤ text stop)) (turn wrap cadence intervalDays) fuel
      (text first)) (.error e) := by
  have year : ∀ j < n, (after first cadence intervalDays j).year ≤ 9999 := fun j low =>
    (Date.year_le_of_digits (before j low)).trans small
  obtain ⟨signed, length⟩ := signed_text big
  rcases @Signed.nextOccurrence cadence intervalDays _ signed length with
    ⟨e, fails⟩ | ⟨other, next, signed', e, fails⟩
  · refine ⟨wrap e, @Fuel.whileRun_fails _ _ _ _ (fun j => text (after first cadence intervalDays j)) n _
      ?_ ?_ ?_⟩
    · intro j low
      rcases Nat.lt_or_eq_of_le low with earlier | rfl
      · exact decide_eq_true ((text_le_iff (year j earlier) small).mpr (before j earlier))
      · exact decide_eq_true (signed.le small)
    · intro j low
      rw [turn_text (year j low), after_succ]
    · rw [turn, fails]
      rfl
  · refine ⟨wrap e, @Fuel.whileRun_fails _ _ _ _
      (fun j => if j ≤ n then text (after first cadence intervalDays j) else other) (n + 1) _ ?_ ?_ ?_⟩
    · intro j low
      rcases Nat.lt_trichotomy j n with earlier | rfl | last
      · rw [if_pos (Nat.le_of_lt earlier)]
        exact decide_eq_true ((text_le_iff (year j earlier) small).mpr (before j earlier))
      · rw [if_pos (Nat.le_refl j)]
        exact decide_eq_true (signed.le small)
      · rw [if_neg (Nat.not_le.mpr last)]
        exact decide_eq_true (signed'.le small)
    · intro j low
      rcases Nat.lt_or_eq_of_le (Nat.le_of_lt_succ low) with earlier | rfl
      · rw [if_pos (Nat.le_of_lt earlier), if_pos (by omega), turn_text (year j earlier), after_succ]
      · rw [if_pos (Nat.le_refl j), if_neg (by omega), turn, next]
        rfl
    · rw [if_neg (by omega), turn, fails]
      rfl

/-! ### The dates of one income or bill -/

theorem after_add (first : Date) (k j : Nat) : after first cadence intervalDays (k + j) =
    after (after first cadence intervalDays k) cadence intervalDays j := by
  rw [Nat.add_comm, after, Function.iterate_add_apply]
  rfl

theorem after_mono (steps : Steps cadence intervalDays) (first : Date) {k j : Nat} (le : k ≤ j) :
    (after first cadence intervalDays k).digits ≤ (after first cadence intervalDays j).digits :=
  (strictMono_nat_of_lt_succ (after_lt steps first)).monotone le

/-- There is a first date after any other. -/
theorem exists_past (steps : Steps cadence intervalDays) (first stop : Date) :
    ∃ k, stop.digits < (after first cadence intervalDays k).digits ∧
      ∀ j < k, after first cadence intervalDays j ≤ stop := by
  have reached : ∀ k, first.number + k ≤ (after first cadence intervalDays k).number := by
    intro k
    induction k with
    | zero => exact Nat.le_refl _
    | succ k ih =>
      have one := Date.number_lt (after_lt steps first k)
      omega
  have some_ : ∃ k, stop.digits < (after first cadence intervalDays k).digits := by
    refine ⟨stop.number + 1, Date.lt_iff_number.mpr ?_⟩
    have far := reached (stop.number + 1)
    omega
  exact ⟨Nat.find some_, Nat.find_spec some_, fun j low => Nat.le_of_not_lt (Nat.find_min some_ low)⟩

/-- The date that comes after another one is still in a year of four digits. -/
def Reaches (cadence : Cadence) (intervalDays : Int) (first stop : Date) : Prop :=
  ∃ k, stop.digits < (after first cadence intervalDays k).digits ∧
    (after first cadence intervalDays k).year ≤ 9999

theorem Reaches.year (steps : Steps cadence intervalDays) (reaches : Reaches cadence intervalDays first stop)
    {k : Nat} (least : ∀ j < k, after first cadence intervalDays j ≤ stop) :
    (after first cadence intervalDays k).year ≤ 9999 := by
  obtain ⟨j, past, small⟩ := reaches
  have le : k ≤ j := by
    by_contra early
    exact absurd past (Nat.not_lt.mpr (least j (Nat.lt_of_not_le early)))
  exact (Date.year_le_of_digits (after_mono steps first le)).trans small

theorem Reaches.mono (reaches : Reaches cadence intervalDays first stop) {earlier : Date}
    (le : earlier ≤ stop) : Reaches cadence intervalDays first earlier := by
  obtain ⟨k, past, small⟩ := reaches
  exact ⟨k, Nat.lt_of_le_of_lt le past, small⟩

variable {asOf end_ : Date}

theorem skip_settles (steps : Steps cadence intervalDays) (small : asOf.year ≤ 9999)
    (reaches : Reaches cadence intervalDays first asOf) :
    ∃ k passed, asOf.digits < (after first cadence intervalDays k).digits ∧
      (∀ j < k, after first cadence intervalDays j ≤ asOf) ∧
      Settles (fun fuel => whileRun (fun date => decide (date ≤ text asOf)) (turn ForecastError.date cadence intervalDays) fuel
        (text first)) (.ok (passed, text (after first cadence intervalDays k))) := by
  obtain ⟨k, past, least⟩ := exists_past steps first asOf
  exact ⟨k, _, past, least, loop_settles ForecastError.date small least past (reaches.year steps least)⟩

theorem skip_fails (steps : Steps cadence intervalDays) (small : asOf.year ≤ 9999)
    (short : ¬Reaches cadence intervalDays first asOf) :
    ∃ e, Settles (fun fuel => whileRun (fun date => decide (date ≤ text asOf)) (turn ForecastError.date cadence intervalDays) fuel
      (text first)) (.error e) := by
  obtain ⟨k, past, least⟩ := exists_past steps first asOf
  exact loop_fails ForecastError.date small least (Nat.lt_of_not_le fun year => short ⟨k, past, year⟩)

/-- The dates from one index to another are those within the horizon. -/
theorem occurrences_eq (steps : Steps cadence intervalDays) {k n : Nat}
    (past : asOf.digits < (after first cadence intervalDays k).digits)
    (least : ∀ j < k, after first cadence intervalDays j ≤ asOf)
    (past' : end_.digits < (after first cadence intervalDays (k + n)).digits)
    (least' : ∀ j < n, after first cadence intervalDays (k + j) ≤ end_) :
    (List.range n).map (fun j => after first cadence intervalDays (k + j)) =
      Insights.occurrences first (fun date => Insights.nextOccurrence date cadence intervalDays) asOf end_ := by
  obtain ⟨sorted, mem⟩ := @occurrences_steps asOf end_ (after first cadence intervalDays)
    (fun date => Insights.nextOccurrence date cadence intervalDays)
    (fun k => (after_succ first k).symm) (after_lt steps first)
  have zero : after first cadence intervalDays 0 = first := rfl
  rw [zero] at sorted mem
  have sorted' : ((List.range n).map fun j => after first cadence intervalDays (k + j)).Pairwise
      (fun a b => a.digits < b.digits) := by
    rw [List.pairwise_map]
    refine List.pairwise_lt_range.imp fun {a b} h => ?_
    exact strictMono_nat_of_lt_succ (after_lt steps first) (Nat.add_lt_add_left h k)
  refine List.Perm.eq_of_pairwise (fun a b _ _ one other => absurd one (Nat.lt_asymm other)) sorted' sorted ?_
  rw [List.perm_ext_iff_of_nodup (nodup_of_digits sorted') (nodup_of_digits sorted)]
  intro date
  rw [mem, List.mem_map]
  constructor
  · rintro ⟨j, there, rfl⟩
    exact ⟨k + j, rfl, Nat.lt_of_lt_of_le past (after_mono steps first (Nat.le_add_right k j)),
      least' j (List.mem_range.mp there)⟩
  · rintro ⟨i, rfl, low, high⟩
    have start : k ≤ i := by
      by_contra early
      exact absurd low (Nat.not_lt.mpr (least i (Nat.lt_of_not_le early)))
    have stop : i < k + n := by
      by_contra late
      have later := after_mono steps first (Nat.le_of_not_lt late)
      exact absurd high (Nat.not_le.mpr (Nat.lt_of_lt_of_le past' later))
    refine ⟨i - k, List.mem_range.mpr (by omega), ?_⟩
    rw [Nat.add_sub_cancel' start]

theorem occurrences_settles (steps : Steps cadence intervalDays) (within : asOf ≤ end_)
    (small : end_.year ≤ 9999) (reaches : Reaches cadence intervalDays first end_) :
    Settles (occurrences (text first) (fun date => nextOccurrence date cadence intervalDays) (text asOf)
      (text end_)) (.ok ((Insights.occurrences first
        (fun date => Insights.nextOccurrence date cadence intervalDays) asOf end_).map text)) := by
  have small' : asOf.year ≤ 9999 := (Date.year_le_of_digits within).trans small
  obtain ⟨k, passed, past, least, skipped⟩ := skip_settles steps small' (reaches.mono within)
  obtain ⟨n, past', least'⟩ := exists_past steps (after first cadence intervalDays k) end_
  have year : (after (after first cadence intervalDays k) cadence intervalDays n).year ≤ 9999 := by
    rw [← after_add]
    refine reaches.year steps fun j low => ?_
    rcases Nat.lt_or_ge j k with early | late
    · exact Date.le_trans (least j early) within
    · have there := least' (j - k) (by omega)
      rwa [← after_add, Nat.add_sub_cancel' late] at there
  have collected := loop_settles ForecastError.date small least' past' year
  simp only [← after_add] at collected past' least'
  rw [← occurrences_eq steps past least past' least', List.map_map]
  exact skipped.bind (collected.bind (Settles.lift (.ok _)))

/-- A date past the year 9999 is met before the end. -/
theorem occurrences_fails (steps : Steps cadence intervalDays) (within : asOf ≤ end_)
    (small : end_.year ≤ 9999) (short : ¬Reaches cadence intervalDays first end_) :
    ∃ e, Settles (occurrences (text first) (fun date => nextOccurrence date cadence intervalDays) (text asOf)
      (text end_)) (.error e) := by
  have small' : asOf.year ≤ 9999 := (Date.year_le_of_digits within).trans small
  by_cases reaches : Reaches cadence intervalDays first asOf
  · obtain ⟨k, passed, past, least, skipped⟩ := skip_settles steps small' reaches
    obtain ⟨n, past', least'⟩ := exists_past steps (after first cadence intervalDays k) end_
    obtain ⟨e, failed⟩ := loop_fails ForecastError.date small least' (Nat.lt_of_not_le fun year =>
      short ⟨k + n, by rw [after_add]; exact past', by rw [after_add]; exact year⟩)
    exact ⟨e, skipped.bind failed.bind_error⟩
  · obtain ⟨e, failed⟩ := skip_fails steps small' reaches
    exact ⟨e, failed.bind_error⟩

/-- No date comes up to an end past the year 9999, as texts go. -/
theorem occurrences_far (steps : Steps cadence intervalDays) (small : asOf.year ≤ 9999) {end_ : IsoDate}
    (signed : Signed end_) : ∃ result,
    Settles (occurrences (text first) (fun date => nextOccurrence date cadence intervalDays) (text asOf)
      end_) result := by
  by_cases reaches : Reaches cadence intervalDays first asOf
  · obtain ⟨k, past, least⟩ := exists_past steps first asOf
    have year := reaches.year steps least
    have skipped := loop_settles ForecastError.date small least past year
    have stops : decide (text (after first cadence intervalDays k) ≤ end_) = false := by
      rw [decide_eq_false_iff_not, not_le]
      exact Scheduled.signed_lt signed (Scheduled.isIsoDate_text year)
    have none_ := @Fuel.whileRun_settles _ _ (fun date => decide (date ≤ end_)) (turn ForecastError.date cadence intervalDays)
      (fun _ => text (after first cadence intervalDays k)) 0 (by simp) (by simp) stops
    exact ⟨_, skipped.bind (none_.bind (Settles.lift (.ok _)))⟩
  · obtain ⟨e, failed⟩ := skip_fails steps small reaches
    exact ⟨_, failed.bind_error⟩

end Next

/-! ### What is detected -/

section Detected

variable {transactions rows : List Transaction} {asOf end_ : Date}

theorem classify_some {windows : List CadenceWindow} {interval : Int} {cadence : Cadence} {fit : Rat}
    (found : classify windows interval = some (cadence, fit)) :
    ∃ window ∈ windows, window.cadence = cadence ∧ |interval - window.days| ≤ window.tolerance := by
  obtain ⟨window, there, taken⟩ := List.exists_of_findSome?_eq_some found
  split at taken
  · rename_i near
    exact ⟨window, there, (Prod.mk.inj (Option.some.inj taken)).1, near⟩
  · cases taken

theorem steps_of_classify {windows : List CadenceWindow} {interval : Int} {cadence : Cadence} {fit : Rat}
    (positive : ∀ window ∈ windows, window.tolerance < window.days)
    (found : classify windows interval = some (cadence, fit)) : Steps cadence interval := by
  obtain ⟨window, there, -, near⟩ := classify_some found
  intro _
  have above := positive window there
  rw [abs_le] at near
  omega

theorem incomeOf_some {descriptor : String} {income : RecurringIncome}
    (found : incomeOf descriptor rows = some income) :
    Steps income.cadence income.intervalDays ∧ ∃ row ∈ rows, income.lastSeen = row.postedAt := by
  unfold incomeOf at found
  split at found
  · cases found
  dsimp only at found
  split at found
  · cases found
  rename_i last latest
  split at found
  · cases found
  split at found
  · cases found
  rename_i cadence fit classified
  split at found
  · cases found
  obtain rfl := Option.some.inj found
  refine ⟨?_, last, mem_byDate.mp (List.mem_of_getLast? latest), rfl⟩
  split at classified
  · obtain ⟨rfl, -⟩ := Prod.mk.inj (Option.some.inj classified)
    rintro (weekly | biweekly)
    · cases weekly
    · cases biweekly
  · exact steps_of_classify (by decide) classified

theorem detected_income {income : RecurringIncome} (detected : income ∈ detectRecurringIncome transactions) :
    Steps income.cadence income.intervalDays ∧ ∃ row ∈ transactions, income.lastSeen = row.postedAt := by
  obtain ⟨⟨descriptor, rows⟩, there, found⟩ := List.mem_filterMap.mp detected
  obtain ⟨rfl, -⟩ := mem_entries there
  obtain ⟨steps, row, listed, seen⟩ := incomeOf_some found
  exact ⟨steps, row, (mem_depositsOf.mp listed).1.1, seen⟩

theorem detected_bill {bill : DetectedSubscription} (detected : bill ∈ detectSubscriptions transactions) :
    Steps bill.cadence bill.observedIntervalDays := by
  obtain ⟨rows, -, found⟩ := List.mem_filterMap.mp ((List.perm_insertionSort _ _).mem_iff.mp detected)
  unfold subscriptionOf at found
  split at found
  · cases found
  dsimp only at found
  split at found
  · split at found
    · cases found
    split at found
    · cases found
    rename_i classified
    split at found
    · cases found
    obtain rfl := Option.some.inj found
    exact steps_of_classify (by decide) classified
  · cases found

end Detected

end Finverse.Insights.Texts
