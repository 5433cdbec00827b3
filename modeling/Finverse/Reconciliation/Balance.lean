import Finverse.Http
import Finverse.Insights.Forecast
import Finverse.Ledger.Query
import Finverse.Scheduled.IsoDates

/-! The balance of an account on an earlier date, and what a user saw there instead. -/

namespace Finverse.Reconciliation

open Insights (Account)
open Ledger (IsoDate Transaction unitsBefore)
open Scheduled (DateError)

/-- What the runtime writes of texts and amounts. -/
structure MoneyContext where
  toUpperCase : String → String
  formatMoney : Int → String → String

inductive ReconciliationStatus
  | balanced
  | unbalanced
  deriving DecidableEq, Repr

structure ReconciliationOutcome where
  computedBalance : Int
  difference : Int
  status : ReconciliationStatus
  transactionsConsidered : Nat
  explanation : String
  deriving DecidableEq, Repr

structure CurrencyMismatchError where
  accountCurrency : String
  assertedCurrency : String
  deriving DecidableEq, Repr

def CurrencyMismatchError.message (error : CurrencyMismatchError) : String :=
  "Account is held in " ++ error.accountCurrency ++ " but the balance was asserted in " ++
    error.assertedCurrency ++ ". Converting it here would invent an exchange rate."

/-! ### The balance of a date -/

structure BalanceAsOf where
  balance : Int
  transactionsConsidered : Nat
  deriving DecidableEq, Repr

/-- What has posted since, so far. -/
structure Unwound where
  posted : Int := 0
  considered : Nat := 0

/-- One turn of the loop. A row on the date itself is part of the balance, and so is none that is pending. -/
def Unwound.row (account : Account) (asOf : IsoDate) (unwound : Unwound) (txn : Transaction) : Unwound :=
  if txn.accountId ≠ account.id then unwound
  else if txn.pending then unwound
  else if !unitsBefore asOf txn.postedAt then unwound
  else ⟨unwound.posted + txn.amount, unwound.considered + 1⟩

def computeBalanceAsOf (account : Account) (transactions : List Transaction) (asOf : IsoDate) : BalanceAsOf :=
  let unwound := transactions.foldl (Unwound.row account asOf) {}
  ⟨account.balanceCurrent - unwound.posted, unwound.considered⟩

variable (M : MoneyContext)

def describe (status : ReconciliationStatus) (difference : Int) (currency : String) (asOf : IsoDate) : String :=
  if status = .balanced then "Your records agree with the account balance on " ++ asOf ++ "."
  else
    let magnitude := M.formatMoney |difference| currency
    if 0 < difference then
      "The account holds " ++ magnitude ++ " more than FINVERSE recorded on " ++ asOf ++ ". " ++
        "A deposit or refund may be missing."
    else
      "FINVERSE recorded " ++ magnitude ++ " more than the account held on " ++ asOf ++ ". " ++
        "A payment may be duplicated, or one may not have cleared."

def reconcile (account : Account) (transactions : List Transaction) (asOf : IsoDate) (observedBalance : Int)
    (assertedCurrency : String) : Except CurrencyMismatchError ReconciliationOutcome := do
  throwIf (M.toUpperCase assertedCurrency ≠ M.toUpperCase account.currency)
    ⟨account.currency, assertedCurrency⟩
  let computed := computeBalanceAsOf account transactions asOf
  let difference := observedBalance - computed.balance
  let status := if difference = 0 then .balanced else .unbalanced
  return {
    computedBalance := computed.balance
    difference
    status
    transactionsConsidered := computed.transactionsConsidered
    explanation := describe M status difference account.currency asOf }

/-! ### The service -/

inductive ReconcileError
  | http (error : HttpError)
  | date (error : DateError)
  deriving DecidableEq, Repr

def FAR_FUTURE : IsoDate := "9999-12-31"

def assertDate (value : String) : Except HttpError Unit :=
  throwIf (Scheduled.isIsoDate value = false)
    (.badRequest "statementDate must be a calendar date (YYYY-MM-DD).")

/-- A currency mismatch is the caller's mistake. -/
def badRequest (error : CurrencyMismatchError) : ReconcileError := .http (.badRequest error.message)

/-- The comparison with the rows that are loaded for it, those after the date. -/
def compare (X : Categorization.TextContext) (rows : List Transaction) (account : Account)
    (statementDate : IsoDate) (observedBalance : Int) (currency : String) :
    Except ReconcileError ReconciliationOutcome := do
  let start ← (Scheduled.addDays statementDate 1).mapError .date
  let transactions := Ledger.InMemoryTransactionStore.list X rows
    { accountId := some account.id, range := some ⟨start, FAR_FUTURE⟩ }
  (reconcile M account transactions statementDate observedBalance currency).mapError badRequest

end Finverse.Reconciliation
