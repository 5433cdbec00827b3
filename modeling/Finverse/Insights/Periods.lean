import Finverse.Framework.Tally
import Finverse.Insights.Categories
import Finverse.Ledger.Query
import Finverse.Scheduled.IsoDates

/-! Summaries of a period, and what changed from one to another. Percentages are exact. -/

namespace Finverse.Insights

open Ledger (DateRange IsoDate isWithin)
open Scheduled (DateError toUtcDate)
open Tally (tally)

/-! ### Totals by key -/

structure Totals where
  total : Int
  count : Nat
  deriving DecidableEq

/-- The totals of a key with one more amount. -/
def Totals.plus (amount : Int) (existing : Option Totals) : Totals :=
  let existing := existing.getD ⟨0, 0⟩
  ⟨existing.total + amount, existing.count + 1⟩

/-- The days from one text to another, none where one is of no date. The last is read first. -/
def daysBetweenInclusive (start end_ : IsoDate) : Except DateError (Option Int) := do
  let last ← toUtcDate end_
  let first ← toUtcDate start
  return first.bind fun first => last.map first.daysBetweenInclusive

def percentOf (part whole : Int) : Rat := if whole = 0 then 0 else part / whole * 100

/-! ### Summaries -/

structure CategoryTotal where
  categorySlug : String
  categoryName : String
  total : Int
  transactionCount : Nat
  deriving DecidableEq

structure MerchantTotal where
  merchant : String
  total : Int
  count : Nat
  deriving DecidableEq

structure DayTotal where
  date : IsoDate
  total : Int
  deriving DecidableEq

structure PeriodSummary where
  period : DateRange
  currency : String
  income : Int
  expenses : Int
  netCashFlow : Int
  savingsRate : Rat
  topCategories : List CategoryTotal
  topMerchant : Option MerchantTotal
  largestTransaction : Option Ledger.Transaction
  mostExpensiveDay : Option DayTotal
  averageDailySpend : Int
  transactionCount : Nat
  deriving DecidableEq

def isExcluded (t : Ledger.Transaction) : Bool := t.excludedFromAnalytics.getD false

def settled (transactions : List Ledger.Transaction) (period : DateRange) : List Ledger.Transaction :=
  transactions.filter fun t => !t.pending && !isExcluded t && isWithin t.postedAt period

def isEarned (t : Ledger.Transaction) : Bool := isIncomeCategory t.categorySlug && decide (0 < t.amount)

def outflow (t : Ledger.Transaction) : Int := max 0 (-t.amount)

/-- What the loop over the rows has so far. -/
structure Running where
  income : Int := 0
  expenses : Int := 0
  byCategory : OrdMap String Totals := ∅
  byMerchant : OrdMap String Totals := ∅
  byDay : OrdMap IsoDate Int := ∅
  largest : Option Ledger.Transaction := none

def label (t : Ledger.Transaction) : String := t.merchant.getD t.normalizedDescriptor

def isLarger (t : Ledger.Transaction) (largest : Option Ledger.Transaction) : Bool :=
  largest.all fun largest => outflow largest < outflow t

def Running.spend (running : Running) (t : Ledger.Transaction) : Running where
  income := running.income
  expenses := running.expenses + outflow t
  byCategory := Tally.add (·.categorySlug) (fun t => .plus (outflow t)) running.byCategory t
  byMerchant := Tally.add label (fun t => .plus (outflow t)) running.byMerchant t
  byDay := Tally.add (·.postedAt) (fun t total => total.getD 0 + outflow t) running.byDay t
  largest := if isLarger t running.largest then some t else running.largest

/-- One turn of the loop. Transfers are left out. -/
def Running.row (running : Running) (t : Ledger.Transaction) : Running :=
  if isEarned t then { running with income := running.income + t.amount }
  else if !isSpendingCategory t.categorySlug then running
  else if outflow t = 0 then running
  else running.spend t

def categoryTotal (entry : String × Totals) : CategoryTotal :=
  ⟨entry.1, displayName entry.1, entry.2.total, entry.2.count⟩

def summarizePeriod (transactions : List Ledger.Transaction) (period : DateRange) (currency : String) :
    Except DateError PeriodSummary := do
  let rows := (settled transactions period).filter (·.currency = currency)
  let running := rows.foldl Running.row {}
  let topCategories := (running.byCategory.entries.map categoryTotal).insertionSort
    fun a b => b.total ≤ a.total
  let topMerchantEntry := (running.byMerchant.entries.insertionSort
    fun a b => b.2.total ≤ a.2.total).head?
  let topDayEntry := (running.byDay.entries.insertionSort fun a b => b.2 ≤ a.2).head?
  let days ← daysBetweenInclusive period.start period.end
  let netCashFlow := running.income - running.expenses
  return {
    period
    currency
    income := running.income
    expenses := running.expenses
    netCashFlow
    savingsRate := if 0 < running.income then max 0 (percentOf netCashFlow running.income) else 0
    topCategories
    topMerchant := topMerchantEntry.map fun entry => ⟨entry.1, entry.2.total, entry.2.count⟩
    largestTransaction := running.largest
    mostExpensiveDay := topDayEntry.map fun entry => ⟨entry.1, entry.2⟩
    averageDailySpend := match days with
      | some days => if 0 < days then round (running.expenses / days) else 0
      | none => 0
    transactionCount := rows.length }

/-! ### Insights -/

inductive InsightKind
  | categoryIncrease
  | categoryDecrease
  | newRecurringCharge
  | priceIncrease
  | overspending
  | positiveTrend
  deriving DecidableEq, Repr

inductive Severity
  | info
  | warning
  | positive
  deriving DecidableEq, Repr

structure Insight where
  kind : InsightKind
  severity : Severity
  title : String
  detail : String
  categorySlug : Option String := none
  deltaAmount : Option Int := none
  deltaPercent : Option Rat := none
  evidenceTransactionIds : List String
  deriving DecidableEq

/-- Swings on trivial amounts are noise. -/
def MATERIALITY_FLOOR : Int := 2000

def SIGNIFICANT_CHANGE_PCT : Rat := 15

/-- The total of each category, the last one where a category is there twice. -/
def totalsBySlug (categories : List CategoryTotal) : OrdMap String Int :=
  tally (·.categorySlug) (fun c _ => c.total) ∅ categories

def isEvidence (current : PeriodSummary) (slug : String) (t : Ledger.Transaction) : Bool :=
  decide (t.currency = current.currency) && decide (t.categorySlug = slug) &&
    isWithin t.postedAt current.period && !t.pending

def changePercent (delta before : Int) : Rat := if before = 0 then 100 else percentOf delta before

/-- What is said of a category that changed. -/
def changeInsight (slug magnitude : String) (delta : Int) (pct : Rat) (evidence : List String) : Insight :=
  let name := displayName slug
  if 0 < delta then {
    kind := .categoryIncrease
    severity := .warning
    title := name ++ " spending is up " ++ toString (round |pct|) ++ "%"
    detail := "You spent " ++ magnitude ++ " more on " ++ name ++ " than last period."
    categorySlug := some slug
    deltaAmount := some delta
    deltaPercent := some pct
    evidenceTransactionIds := evidence }
  else {
    kind := .categoryDecrease
    severity := .positive
    title := name ++ " spending is down " ++ toString (round |pct|) ++ "%"
    detail := "You spent " ++ magnitude ++ " less on " ++ name ++ " than last period."
    categorySlug := some slug
    deltaAmount := some delta
    deltaPercent := some pct
    evidenceTransactionIds := evidence }

/-- The insight of a category, none where the change is trivial. The text of an amount comes from the
runtime, which has none for what is no currency. -/
def categoryInsight (formatMoney : Int → String → Option String) (current previous : PeriodSummary)
    (transactions : List Ledger.Transaction) (slug : String) : Option (Option Insight) :=
  let now := ((totalsBySlug current.topCategories).get? slug).getD 0
  let before := ((totalsBySlug previous.topCategories).get? slug).getD 0
  let delta := now - before
  if |delta| < MATERIALITY_FLOOR then some none
  else if |changePercent delta before| < SIGNIFICANT_CHANGE_PCT then some none
  else do
    let evidence := (transactions.filter (isEvidence current slug)).map (·.id)
    let magnitude ← formatMoney |delta| current.currency
    return some (changeInsight slug magnitude delta (changePercent delta before) evidence)

/-- The largest movements first. -/
def compareCategoryTotals (formatMoney : Int → String → Option String) (current previous : PeriodSummary)
    (transactions : List Ledger.Transaction) : Option (List Insight) := do
  let slugs := ((totalsBySlug previous.topCategories).entries.map Prod.fst ++
    (totalsBySlug current.topCategories).entries.map Prod.fst).eraseDups
  let insights ← slugs.mapM (categoryInsight formatMoney current previous transactions)
  return insights.reduceOption.insertionSort fun a b => |b.deltaAmount.getD 0| ≤ |a.deltaAmount.getD 0|

end Finverse.Insights
