import Finverse.Framework.Tally
import Finverse.Insights.Dates

/-! The category tree, and the subscriptions found in a ledger. Ratios are exact. -/

namespace Finverse.Insights

open Grouping

/-! ### Categories -/

inductive CategoryKind
  | expense
  | income
  | transfer
  deriving DecidableEq, Repr

def CATEGORIES : List (String × CategoryKind) :=
  [("housing", .expense), ("rent", .expense), ("mortgage", .expense), ("utilities", .expense),
    ("internet", .expense), ("phone", .expense), ("food", .expense), ("groceries", .expense),
    ("restaurants", .expense), ("coffee", .expense), ("fast_food", .expense),
    ("food_delivery", .expense), ("transportation", .expense), ("fuel", .expense),
    ("public_transit", .expense), ("rideshare", .expense), ("parking", .expense),
    ("healthcare", .expense), ("pharmacy", .expense), ("insurance", .expense),
    ("shopping", .expense), ("clothing", .expense), ("electronics", .expense),
    ("entertainment", .expense), ("streaming", .expense), ("gaming", .expense),
    ("fitness", .expense), ("travel", .expense), ("subscriptions", .expense),
    ("software", .expense), ("debt", .expense), ("loan_payment", .expense),
    ("credit_card_payment", .transfer), ("taxes", .expense), ("fees", .expense),
    ("income", .income), ("salary", .income), ("freelance", .income), ("refunds", .income),
    ("interest_income", .income), ("savings", .transfer), ("investments", .transfer),
    ("transfer", .transfer), ("unknown", .expense)]

def kindOf (slug : String) : Option CategoryKind :=
  (CATEGORIES.find? fun category => category.1 = slug).map Prod.snd

def isSpendingCategory (slug : String) : Bool := kindOf slug == some .expense

def isIncomeCategory (slug : String) : Bool := kindOf slug == some .income

/-! ### Transactions -/

structure Transaction where
  id : String
  postedAt : Date
  amount : Int
  currency : String
  normalizedDescriptor : String
  merchant : Option String
  categorySlug : String
  pending : Bool
  excludedFromAnalytics : Bool
  deriving DecidableEq

/-- `Math.round`: halves go up. -/
def round (x : Rat) : Int := ⌊x + 1 / 2⌋

def median (values : List Int) : Int :=
  let sorted := values.insertionSort (· ≤ ·)
  let middle := sorted.length / 2
  if sorted.length % 2 = 1 then sorted[middle]?.getD 0
  else if sorted = [] then 0
  else round (((sorted[middle - 1]?.getD 0 + sorted[middle]?.getD 0 : Int) : Rat) / 2)

/-- From the first to the last, and those of one day as they come. -/
def byDate (rows : List Transaction) : List Transaction :=
  rows.insertionSort fun a b => a.postedAt ≤ b.postedAt

/-- The days between each row and the next. -/
def intervalsOf (sorted : List Transaction) : List Int :=
  sorted.zipWith (fun a b => a.postedAt.daysBetweenInclusive b.postedAt - 1) (sorted.drop 1)

/-- How far an amount is from the typical one, as a share of it. -/
def drift (amount typical : Int) : Rat := |amount - typical| / typical

/-- How far the intervals are from the typical one, on average. -/
def averageDrift (intervals : List Int) (typical : Int) : Rat :=
  ((intervals.map fun interval => |interval - typical|).sum : Int) / (max intervals.length 1 : Nat)

def regularity (intervals : List Int) (typical : Int) : Rat :=
  max 0 (1 - averageDrift intervals typical / (max typical 1 : Int))

/-! ### Amounts -/

def MIN_OCCURRENCES : Nat := 3

def AMOUNT_TOLERANCE : Rat := 15 / 100

def MIN_AMOUNT_CONSISTENCY : Rat := 7 / 10

def MIN_CONFIDENCE : Rat := 6 / 10

def PRICE_INCREASE_THRESHOLD : Rat := 5 / 100

def segmentConsistent (amounts : List Int) : Bool :=
  amounts ≠ [] && 0 < median amounts &&
    amounts.all fun amount => drift amount (median amounts) ≤ AMOUNT_TOLERANCE

structure PriceIncrease where
  before : Int
  after : Int
  percent : Rat
  deriving DecidableEq

structure AmountAnalysis where
  typicalAmount : Int
  consistency : Rat
  priceIncrease : Option PriceIncrease
  deriving DecidableEq

/-- The share of the amounts that are near the typical one. -/
def consistencyOf (amounts : List Int) (typical : Int) : Rat :=
  (amounts.countP fun amount => drift amount typical ≤ AMOUNT_TOLERANCE : Nat) / amounts.length

/-- The price changed after the first `i` charges. -/
def priceStep (amounts : List Int) (i : Nat) : Option AmountAnalysis :=
  let before := amounts.take i
  let after := amounts.drop i
  if segmentConsistent before && segmentConsistent after then
    let percent : Rat := ((median after - median before : Int) : Rat) / median before * 100
    if |percent| < PRICE_INCREASE_THRESHOLD * 100 then none
    else some ⟨median after, 1,
      if 0 < percent then some ⟨median before, median after, percent⟩ else none⟩
  else none

/-- A price that changed once, or else how much the amounts vary. -/
def analyzeAmounts (amountsByDate : List Int) : AmountAnalysis :=
  ((List.range' 2 (amountsByDate.length - 2)).findSome? (priceStep amountsByDate)).getD
    ⟨median amountsByDate, if 0 < median amountsByDate then
      consistencyOf amountsByDate (median amountsByDate) else 0, none⟩

/-! ### Subscriptions -/

inductive Cadence
  | weekly
  | biweekly
  | semimonthly
  | monthly
  | quarterly
  | yearly
  deriving DecidableEq, Repr

structure CadenceWindow where
  cadence : Cadence
  days : Int
  tolerance : Int

def CADENCE_WINDOWS : List CadenceWindow :=
  [⟨.weekly, 7, 2⟩, ⟨.monthly, 30, 5⟩, ⟨.quarterly, 91, 10⟩, ⟨.yearly, 365, 20⟩]

/-- The cadence whose window the interval is in, and how well it fits. -/
def classify (windows : List CadenceWindow) (intervalDays : Int) : Option (Cadence × Rat) :=
  windows.findSome? fun window =>
    if |intervalDays - window.days| ≤ window.tolerance then
      some (window.cadence, 1 - (|intervalDays - window.days| : Int) / window.tolerance)
    else none

def classifyCadence : Int → Option (Cadence × Rat) := classify CADENCE_WINDOWS

def monthsPer : Cadence → Nat
  | .monthly => 1
  | .quarterly => 3
  | _ => 12

def annualMultiplier : Cadence → Int
  | .weekly => 52
  | .monthly => 12
  | .quarterly => 4
  | _ => 1

structure DetectedSubscription where
  merchant : String
  normalizedDescriptor : String
  categorySlug : String
  cadence : Cadence
  observedIntervalDays : Int
  typicalAmount : Int
  currency : String
  occurrences : Nat
  firstSeen : Date
  lastSeen : Date
  nextExpected : Date
  annualCost : Int
  priceIncrease : Option PriceIncrease
  transactionIds : List String
  confidence : Rat

/-- What is looked at: money that went out for something. -/
def isCharge (txn : Transaction) : Bool :=
  !txn.excludedFromAnalytics && !txn.pending && decide (txn.amount < 0) &&
    isSpendingCategory txn.categorySlug && txn.normalizedDescriptor ≠ ""

/-- Each currency of a merchant is looked at by itself. -/
def chargeKey (txn : Transaction) : String × String := (txn.normalizedDescriptor, txn.currency)

/-- The subscription that the charges of a group are for. -/
def subscriptionOf (rawGroup : List Transaction) : Option DetectedSubscription :=
  if rawGroup.length < MIN_OCCURRENCES then none
  else
    let group := byDate rawGroup
    match group.head?, group.getLast? with
    | some first, some last =>
      let analysis := analyzeAmounts (group.map fun t => |t.amount|)
      if analysis.typicalAmount = 0 ∨ analysis.consistency < MIN_AMOUNT_CONSISTENCY then none
      else
        let intervals := intervalsOf group
        let observedIntervalDays := median intervals
        match classifyCadence observedIntervalDays with
        | none => none
        | some (cadence, fit) =>
          let confidence := min 1 (4 / 10 * fit +
            3 / 10 * regularity intervals observedIntervalDays + 3 / 10 * analysis.consistency)
          if confidence < MIN_CONFIDENCE then none
          else some
            { merchant := last.merchant.getD first.normalizedDescriptor
              normalizedDescriptor := first.normalizedDescriptor
              categorySlug := last.categorySlug
              cadence
              observedIntervalDays
              typicalAmount := analysis.typicalAmount
              currency := last.currency
              occurrences := group.length
              firstSeen := first.postedAt
              lastSeen := last.postedAt
              nextExpected :=
                if cadence = .weekly then last.postedAt.addDays observedIntervalDays.toNat
                else last.postedAt.addMonths (monthsPer cadence)
              annualCost := analysis.typicalAmount * annualMultiplier cadence
              priceIncrease := analysis.priceIncrease
              transactionIds := group.map (·.id)
              confidence }
    | _, _ => none

/-- The subscriptions of a ledger, the costliest first. -/
def detectSubscriptions (transactions : List Transaction) : List DetectedSubscription :=
  ((group chargeKey (transactions.filter isCharge)).values.filterMap subscriptionOf).insertionSort
    fun a b => b.annualCost ≤ a.annualCost

end Finverse.Insights
