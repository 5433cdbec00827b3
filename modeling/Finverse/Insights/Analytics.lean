import Finverse.Analytics.Service
import Finverse.Framework.Fuel
import Finverse.Insights.Periods
import Finverse.Transactions.Refunds

/-! The analytics of a period, with the trend over its days, weeks or months. Ratios are exact. -/

namespace Finverse.Insights

open Analytics (startOfMonth)
open Categorization (Collation)
open Fuel (Bounded whileRun)
open Imports (padStart)
open Ledger (DateRange IsoDate isWithin unitsBefore)
open Scheduled (DateError slice toIsoDate toUtcDate)
open Tally (tally)
open Transactions (RefundMatch matchRefunds)

/-! ### Days before a date -/

theorem yearZero_month : 1 ≤ 1 ∧ 1 ≤ 12 := by
  decide

theorem yearZero_day : 1 ≤ 1 ∧ 1 ≤ Imports.daysInMonth 0 1 := by
  decide

/-- The first date that has a text without a sign. -/
def yearZero : Date := ⟨0, 1, 1, yearZero_month, yearZero_day⟩

def ofNumber (number : Nat) : Date := yearZero.addDays (number - 1)

/-- A date before the year 0, of the one 400 years later: the calendar is the same. -/
def beforeZero (later : Date) : List Char :=
  '-' :: padStart 6 (400 - later.year) ++ '-' :: padStart 2 later.month ++ '-' :: padStart 2 later.day

/-- `addDays` with that many days taken off, no more than 400 years. -/
def subDays (date : IsoDate) (days : Nat) : Except DateError IsoDate := do
  let d ← toUtcDate date
  match d with
  | none => toIsoDate none
  | some d =>
    if days < d.number then toIsoDate (some (ofNumber (d.number - days)))
    else return String.ofList (slice 0 10 (beforeZero (ofNumber (d.number + 146097 - days))))

/-- Sunday is 0. The first day of the year 0 is a Saturday. -/
def getUTCDay (date : Date) : Nat := (date.number + 5) % 7

/-- From Monday. -/
def weekRange (date : IsoDate) : Except DateError DateRange := do
  let d ← toUtcDate date
  match d with
  | none => throw (.rangeError "Invalid time value")
  | some d =>
    let dow := (getUTCDay d + 6) % 7
    let start ← subDays date dow
    let end_ ← Scheduled.addDays start 6
    return ⟨start, end_⟩

/-! ### Totals -/

structure AnalyticsTotal where
  key : String
  total : Int
  count : Nat
  deriving DecidableEq

def addTotal {α : Type} (key : α → String) (amount : α → Int) : OrdMap String Totals → α → OrdMap String Totals :=
  Tally.add key fun row => .plus (amount row)

def totalOrder (C : Collation) (a b : AnalyticsTotal) : Prop :=
  b.total < a.total ∨ a.total = b.total ∧ C.le a.key b.key = true

instance (C : Collation) : DecidableRel (totalOrder C) := fun _ _ => inferInstanceAs (Decidable (_ ∨ _))

/-- The largest first. -/
def sortedTotals (C : Collation) (totals : OrdMap String Totals) : List AnalyticsTotal :=
  (totals.entries.map fun entry => ⟨entry.1, entry.2.total, entry.2.count⟩).insertionSort (totalOrder C)

/-! ### Events -/

inductive TimelineKind
  | income
  | refund
  | expense
  | bill
  | subscription
  | transfer
  | unusual
  deriving DecidableEq, Repr

structure TimelineEvent where
  id : String
  date : IsoDate
  label : String
  kind : TimelineKind
  amount : Int
  accountId : String
  deriving DecidableEq

def isRefund (t : Ledger.Transaction) : Bool := decide (t.categorySlug = "refunds") && decide (0 < t.amount)

def eventKind (t : Ledger.Transaction) : TimelineKind :=
  if isRefund t then .refund
  else if isEarned t then .income
  else if t.categorySlug ∈ ["transfer", "savings", "investments"] then .transfer
  else if t.isRecurring then if t.categorySlug ∈ ["subscriptions", "software"] then .subscription else .bill
  else if t.categorySource = .unknown then .unusual
  else .expense

def toEvent (t : Ledger.Transaction) : TimelineEvent :=
  ⟨t.id, t.postedAt, label t, eventKind t, t.amount, t.accountId⟩

/-- The latest first. -/
def timelineOrder (C : Collation) (a b : TimelineEvent) : Prop :=
  b.date < a.date ∨ a.date = b.date ∧ C.le b.id a.id = true

instance (C : Collation) : DecidableRel (timelineOrder C) := fun _ _ =>
  inferInstanceAs (Decidable (_ ∨ _))

/-! ### The trend -/

structure AnalyticsTrendPoint where
  date : IsoDate
  income : Int
  expenses : Int
  refunds : Int
  net : Int
  deriving DecidableEq

inductive TrendBucket
  | day
  | week
  | month
  deriving DecidableEq, Repr

def bucketFor (days : Option Int) : TrendBucket :=
  match days with
  | none => .month
  | some days => if days ≤ 62 then .day else if days ≤ 370 then .week else .month

def trendBucket (period : DateRange) : Except DateError TrendBucket := do
  let days ← daysBetweenInclusive period.start period.end
  return bucketFor days

def trendBucketStart (date : IsoDate) (bucket : TrendBucket) : Except DateError IsoDate :=
  match bucket with
  | .day => .ok date
  | .week => (weekRange date).map (·.start)
  | .month => .ok (startOfMonth date)

def nextTrendBucket (date : IsoDate) (bucket : TrendBucket) : Except DateError IsoDate :=
  match bucket with
  | .day => Scheduled.addDays date 1
  | .week => Scheduled.addDays date 7
  | .month => Scheduled.addMonths date 1

def emptyTrendPoint (date : IsoDate) : AnalyticsTrendPoint := ⟨date, 0, 0, 0, 0⟩

def isIncome (t : Ledger.Transaction) : Bool := isEarned t && decide (t.categorySlug ≠ "refunds")

def isSpending (t : Ledger.Transaction) : Bool := isSpendingCategory t.categorySlug && decide (t.amount < 0)

def expenseAmount (t : Ledger.Transaction) : Int := max 0 (-t.amount)

def AnalyticsTrendPoint.row (point : AnalyticsTrendPoint) (t : Ledger.Transaction) : AnalyticsTrendPoint :=
  let point :=
    if isIncome t then { point with income := point.income + t.amount }
    else if isRefund t then { point with refunds := point.refunds + t.amount }
    else if isSpending t then { point with expenses := point.expenses + expenseAmount t }
    else point
  { point with net := point.income + point.refunds - point.expenses }

/-- A row goes into the point of its bucket. -/
def addToTrend (bucket : TrendBucket) (points : OrdMap IsoDate AnalyticsTrendPoint)
    (t : Ledger.Transaction) : Except DateError (OrdMap IsoDate AnalyticsTrendPoint) := do
  let key ← trendBucketStart t.postedAt bucket
  let point := (points.get? key).getD (emptyTrendPoint key)
  return points.set key (point.row t)

/-- One point for each bucket, also for those without rows. -/
def buildTrend (rows : List Ledger.Transaction) (period : DateRange) (fuel : Nat) :
    Bounded DateError (List AnalyticsTrendPoint) := do
  let bucket ← Fuel.lift (trendBucket period)
  let first ← Fuel.lift (trendBucketStart period.start bucket)
  let end_ ← Fuel.lift (trendBucketStart period.end bucket)
  let (dates, _) ← whileRun (fun date => decide (date ≤ end_)) (fun date => nextTrendBucket date bucket) fuel
    first
  let points := tally id (fun date _ => emptyTrendPoint date) ∅ dates
  let points ← Fuel.lift (rows.foldlM (addToTrend bucket) points)
  return points.values.insertionSort fun a b => a.date ≤ b.date

/-! ### The report -/

structure SpendingVelocity where
  currentPeriodSpend : Int
  projectedPeriodSpend : Int
  historicalAverageSpend : Option Int
  percentDelta : Option Rat
  enoughHistory : Bool
  deriving DecidableEq

structure AnalyticsReport where
  period : DateRange
  currency : String
  grossExpenses : Int
  refunds : Int
  refundMatches : List RefundMatch
  netExpenses : Int
  expenseCount : Nat
  averageExpense : Int
  medianExpense : Int
  largestExpense : Option TimelineEvent
  spendingByCategory : List AnalyticsTotal
  spendingByMerchant : List AnalyticsTotal
  spendingByAccount : List AnalyticsTotal
  recurringSpending : Int
  discretionarySpending : Int
  essentialSpending : Int
  totalIncome : Int
  recurringIncome : Int
  irregularIncome : Int
  incomeBySource : List AnalyticsTotal
  savings : Int
  savingsRate : Rat
  averageMonthlySavings : Int
  velocity : SpendingVelocity
  trend : List AnalyticsTrendPoint
  timeline : List TimelineEvent

/-- The row with its date, where that is one. -/
def dated (t : Ledger.Transaction) : Option Transactions.Transaction :=
  match toUtcDate t.postedAt with
  | .ok (some date) => some {
      id := t.id
      postedAt := date
      amount := t.amount
      currency := t.currency
      normalizedDescriptor := t.normalizedDescriptor
      merchant := t.merchant
      categorySlug := t.categorySlug
      pending := t.pending
      excludedFromAnalytics := isExcluded t
      accountId := t.accountId }
  | _ => none

def counts (currency : String) (period : DateRange) (t : Ledger.Transaction) : Bool :=
  decide (t.currency = currency) && !t.pending && !isExcluded t && isWithin t.postedAt period

def sumOf (amount : Ledger.Transaction → Int) (rows : List Ledger.Transaction) : Int := (rows.map amount).sum

/-- What the loop over the spending adds up. -/
structure SpendingTotals where
  expenseAmounts : List Int := []
  byCategory : OrdMap String Totals := ∅
  byMerchant : OrdMap String Totals := ∅
  byAccount : OrdMap String Totals := ∅
  recurringSpending : Int := 0
  essentialSpending : Int := 0
  discretionarySpending : Int := 0

def SpendingTotals.row (totals : SpendingTotals) (t : Ledger.Transaction) : SpendingTotals :=
  let amount := expenseAmount t
  let isEssential := isEssentialCategory t.categorySlug
  { expenseAmounts := totals.expenseAmounts ++ [amount]
    byCategory := addTotal (·.categorySlug) expenseAmount totals.byCategory t
    byMerchant := addTotal label expenseAmount totals.byMerchant t
    byAccount := addTotal (·.accountId) expenseAmount totals.byAccount t
    recurringSpending := totals.recurringSpending + if t.isRecurring then amount else 0
    essentialSpending := totals.essentialSpending + if isEssential then amount else 0
    discretionarySpending := totals.discretionarySpending + if isEssential then 0 else amount }

/-- What the loop over the incomes adds up. -/
structure IncomeTotals where
  totalIncome : Int := 0
  recurringIncome : Int := 0
  incomeBySource : OrdMap String Totals := ∅

def sourceOf (t : Ledger.Transaction) : String := t.merchant.getD (displayName t.categorySlug)

def IncomeTotals.row (totals : IncomeTotals) (t : Ledger.Transaction) : IncomeTotals where
  totalIncome := totals.totalIncome + t.amount
  recurringIncome := totals.recurringIncome + if t.isRecurring then t.amount else 0
  incomeBySource := addTotal sourceOf (·.amount) totals.incomeBySource t

/-- The larger of two rows, the first one of equals. -/
def largerExpense (current : Option Ledger.Transaction) (t : Ledger.Transaction) : Option Ledger.Transaction :=
  if current.all fun current => expenseAmount current < expenseAmount t then some t else current

/-- `Math.round(spent / elapsed * whole)` while the period goes on. -/
def projectedSpend (spent : Int) (elapsedDays periodDays : Option Int) : Int :=
  match elapsedDays, periodDays with
  | some elapsed, some whole => if 0 < elapsed ∧ elapsed < whole then round (spent / elapsed * whole) else spent
  | _, _ => spent

/-- How much a row adds to what was saved in its month. -/
def monthlySaving (t : Ledger.Transaction) : Int :=
  (if isIncome t then t.amount else 0) - (if isSpending t then expenseAmount t else 0) +
    (if isRefund t then t.amount else 0)

def average (values : List Int) : Int := if values = [] then 0 else round (values.sum / values.length)

/-- What the history says of the spending of a period. The rows are of dates, and so is the period. -/
def velocityOf (spent projected : Int) (periodDays : Option Int) (historyRows : List Ledger.Transaction) :
    SpendingVelocity :=
  let historicalAverageSpend := if historyRows = [] then none
    else periodDays.map fun days => round (sumOf expenseAmount historyRows / 90 * days)
  { currentPeriodSpend := spent
    projectedPeriodSpend := projected
    historicalAverageSpend
    percentDelta := (historicalAverageSpend.filter (· ≠ 0)).map fun average =>
      (round ((projected - average : Int) / average * 1000) : Rat) / 10
    enoughHistory := 3 ≤ historyRows.length }

/-- The report, once the days and the trend are there. The transactions are of real dates, which
`matchRefunds` reads. -/
def reportOf (C : Collation) (transactions : List Ledger.Transaction) (period : DateRange) (currency : String)
    (periodDays elapsedDays : Option Int) (history : DateRange) (trend : List AnalyticsTrendPoint) :
    AnalyticsReport :=
  let rows := transactions.filter (counts currency period)
  let spending := rows.filter isSpending
  let incomes := rows.filter isIncome
  let refundRows := rows.filter isRefund
  let refundIds := refundRows.map (·.id)
  let refundMatches := (matchRefunds C (transactions.filterMap dated)).filter (·.refundId ∈ refundIds)
  let spent := spending.foldl SpendingTotals.row {}
  let earned := incomes.foldl IncomeTotals.row {}
  let expenseAmounts := spent.expenseAmounts.insertionSort (· ≤ ·)
  let grossExpenses := expenseAmounts.sum
  let refunds := sumOf (·.amount) refundRows
  let netExpenses := max 0 (grossExpenses - refunds)
  let savings := earned.totalIncome - netExpenses
  let projected := projectedSpend grossExpenses elapsedDays periodDays
  let historyRows := transactions.filter fun t => counts currency history t && isSpending t
  let monthlySavings := tally (fun t => String.ofList (slice 0 7 t.postedAt.toList))
    (fun t saved => saved.getD 0 + monthlySaving t) ∅ rows
  { period
    currency
    grossExpenses
    refunds
    refundMatches
    netExpenses
    expenseCount := spending.length
    averageExpense := average expenseAmounts
    medianExpense := median expenseAmounts
    largestExpense := (spending.foldl largerExpense none).map toEvent
    spendingByCategory := sortedTotals C spent.byCategory
    spendingByMerchant := sortedTotals C spent.byMerchant
    spendingByAccount := sortedTotals C spent.byAccount
    recurringSpending := spent.recurringSpending
    discretionarySpending := spent.discretionarySpending
    essentialSpending := spent.essentialSpending
    totalIncome := earned.totalIncome
    recurringIncome := earned.recurringIncome
    irregularIncome := earned.totalIncome - earned.recurringIncome
    incomeBySource := sortedTotals C earned.incomeBySource
    savings
    savingsRate := if 0 < earned.totalIncome then max 0 ((savings : Rat) / earned.totalIncome * 100) else 0
    averageMonthlySavings := average monthlySavings.values
    velocity := velocityOf grossExpenses projected periodDays historyRows
    trend
    timeline := ((rows.map toEvent).insertionSort (timelineOrder C)).take 200 }

def computeAnalytics (C : Collation) (transactions : List Ledger.Transaction) (period : DateRange)
    (currency : String) (asOf : IsoDate) (fuel : Nat) : Bounded DateError AnalyticsReport := do
  let rows := transactions.filter (counts currency period)
  let periodDays ← Fuel.lift (daysBetweenInclusive period.start period.end)
  let elapsedEnd := if unitsBefore asOf period.end then asOf else period.end
  let elapsedDays ← Fuel.lift (if unitsBefore asOf period.start then .ok (some 0)
    else daysBetweenInclusive period.start elapsedEnd)
  let historyStart ← Fuel.lift (subDays period.start 90)
  let historyEnd ← Fuel.lift (subDays period.start 1)
  let trend ← buildTrend rows period fuel
  return reportOf C transactions period currency periodDays elapsedDays ⟨historyStart, historyEnd⟩ trend

end Finverse.Insights
