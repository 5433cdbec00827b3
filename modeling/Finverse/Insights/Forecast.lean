import Finverse.Http
import Finverse.Insights.Subscriptions

/-! The cash-flow forecast of a currency. -/

namespace Finverse.Insights

open Grouping

inductive AccountType
  | checking
  | savings
  | creditCard
  | investment
  | property
  | cash
  | loan
  deriving DecidableEq, Repr

structure Account where
  id : String
  type : AccountType
  currency : String
  balanceCurrent : Int
  deriving DecidableEq, Repr

/-! ### Recurring income -/

def INCOME_WINDOWS : List CadenceWindow :=
  [⟨.weekly, 7, 2⟩, ⟨.biweekly, 14, 2⟩, ⟨.monthly, 30, 5⟩, ⟨.quarterly, 91, 10⟩, ⟨.yearly, 365, 20⟩]

def incomeCadenceFor : Int → Option (Cadence × Rat) := classify INCOME_WINDOWS

/-- Two payrolls a month come on calendar days, and not every so many days. -/
def nextOccurrence (lastSeen : Date) (cadence : Cadence) (intervalDays : Int) : Date :=
  match cadence with
  | .weekly | .biweekly => lastSeen.addDays intervalDays.toNat
  | .semimonthly => if lastSeen.day ≤ 7 then lastSeen.fifteenth else lastSeen.firstOfMonth 1
  | cadence => lastSeen.addMonths (monthsPer cadence)

structure RecurringIncome where
  merchant : String
  amount : Int
  cadence : Cadence
  intervalDays : Int
  lastSeen : Date
  confidence : Rat
  transactionIds : List String

/-- What is looked at: posted income. -/
def isDeposit (txn : Transaction) : Bool :=
  !txn.excludedFromAnalytics && !txn.pending && decide (0 < txn.amount) &&
    isIncomeCategory txn.categorySlug

/-- The income that the deposits of a descriptor are of. -/
def incomeOf (descriptor : String) (rows : List Transaction) : Option RecurringIncome :=
  if rows.length < 3 then none
  else
    let sorted := byDate rows
    match sorted.getLast? with
    | none => none
    | some last =>
      let amounts := sorted.map (·.amount)
      let typicalAmount := median amounts
      let amountConsistency := consistencyOf amounts typicalAmount
      if typicalAmount ≤ 0 ∨ amountConsistency < MIN_AMOUNT_CONSISTENCY then none
      else
        let intervals := intervalsOf sorted
        let intervalDays := median intervals
        let looksSemimonthly := sorted.all fun row =>
          |(row.postedAt.day : Int) - 1| ≤ 1 || |(row.postedAt.day : Int) - 15| ≤ 1
        match if looksSemimonthly then some (.semimonthly, 1) else incomeCadenceFor intervalDays with
        | none => none
        | some (cadence, fit) =>
          let confidence := 4 / 10 * fit + 3 / 10 * amountConsistency +
            3 / 10 * regularity intervals intervalDays
          if confidence < MIN_CONFIDENCE then none
          else some
            { merchant := last.merchant.getD descriptor
              amount := typicalAmount
              cadence
              intervalDays
              lastSeen := last.postedAt
              confidence
              transactionIds := sorted.map (·.id) }

def detectRecurringIncome (transactions : List Transaction) : List RecurringIncome :=
  (group Transaction.normalizedDescriptor (transactions.filter isDeposit)).entries.filterMap
    fun (descriptor, rows) => incomeOf descriptor rows

/-! ### The forecast -/

inductive EventKind
  | income
  | expense
  deriving DecidableEq, Repr

/-- An event of income also says of what cadence it is, and when the last one was. -/
structure ForecastEvent where
  date : Date
  amount : Int
  merchant : String
  kind : EventKind
  confidence : Rat
  transactionIds : List String
  cadence : Option Cadence := none
  intervalDays : Option Int := none
  lastSeen : Option Date := none
  deriving DecidableEq

structure ForecastPoint where
  date : Date
  balance : Int
  deriving DecidableEq

structure CashFlowForecast where
  asOf : Date
  currency : String
  startingBalance : Int
  points : List ForecastPoint
  events : List ForecastEvent
  lowBalanceDates : List Date
  deriving DecidableEq

/-- The dates after one day and up to another. Each is at least a day after the one before. -/
def occurrences (first : Date) (next : Date → Date) (asOf end_ : Date) : List Date :=
  ((List.iterate next first (end_.number - first.number + 1)).dropWhile (· ≤ asOf)).takeWhile (· ≤ end_)

def incomeEvents (asOf end_ : Date) (income : RecurringIncome) : List ForecastEvent :=
  let next (date : Date) := nextOccurrence date income.cadence income.intervalDays
  (occurrences (next income.lastSeen) next asOf end_).map fun date =>
    { date
      amount := income.amount
      merchant := income.merchant
      kind := .income
      confidence := income.confidence
      transactionIds := income.transactionIds
      cadence := some income.cadence
      intervalDays := some income.intervalDays
      lastSeen := some income.lastSeen }

def billEvents (asOf end_ : Date) (bill : DetectedSubscription) : List ForecastEvent :=
  (occurrences bill.nextExpected
    (fun date => nextOccurrence date bill.cadence bill.observedIntervalDays) asOf end_).map fun date =>
      { date
        amount := -bill.typicalAmount
        merchant := bill.merchant
        kind := .expense
        confidence := bill.confidence
        transactionIds := bill.transactionIds }

/-- By date, and the largest amount of a day first. -/
def eventOrder (a b : ForecastEvent) : Prop :=
  a.date.digits < b.date.digits ∨ a.date.digits = b.date.digits ∧ b.amount ≤ a.amount

instance : DecidableRel eventOrder := fun _ _ => inferInstanceAs (Decidable (_ ∨ _))

def forecastEvents (transactions : List Transaction) (asOf end_ : Date) : List ForecastEvent :=
  ((detectRecurringIncome transactions).flatMap (incomeEvents asOf end_) ++
    (detectSubscriptions transactions).flatMap (billEvents asOf end_)).insertionSort eventOrder

def isSpendable (account : Account) : Bool :=
  account.type ∈ [AccountType.checking, .savings, .cash]

def startingBalance (accounts : List Account) (currency : String) : Int :=
  (((accounts.filter (·.currency = currency)).filter isSpendable).map (·.balanceCurrent)).sum

/-- One point a day, from the day after. -/
def forecastPoints (asOf : Date) (events : List ForecastEvent) : Nat → Int → List ForecastPoint
  | 0, _ => []
  | days + 1, balance =>
    let date := asOf.nextDay
    let balance := balance + ((events.filter (·.date = date)).map (·.amount)).sum
    ⟨date, balance⟩ :: forecastPoints date events days balance

def forecastCashFlow (accounts : List Account) (transactions : List Transaction) (asOf : Date)
    (days : Int) (currency : String) : Except HttpError CashFlowForecast :=
  if days < 1 ∨ 90 < days then
    .error (.internal "Forecast days must be an integer from 1 through 90")
  else
    let startingBalance := startingBalance accounts currency
    let events := forecastEvents transactions asOf (asOf.addDays days.toNat)
    let points := forecastPoints asOf events days.toNat startingBalance
    .ok ⟨asOf, currency, startingBalance, points, events,
      (points.filter (·.balance < 0)).map (·.date)⟩

/-- What `InsightsService` answers of the ledger that it has read. -/
def cashFlowForecast (accounts : List Account) (transactions : List Transaction) (today : Date)
    (days : Int) (asOf : Option Date) (currency : String) : Except HttpError CashFlowForecast :=
  forecastCashFlow accounts transactions (asOf.getD today) days currency

end Finverse.Insights
