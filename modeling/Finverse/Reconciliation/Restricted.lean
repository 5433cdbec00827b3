import Finverse.Insights.Conservation
import Finverse.Insights.Reconciles
import Finverse.Reconciliation.Balance

/-! The rows that are loaded for a comparison, and the ones that it needs. -/

namespace Finverse.Reconciliation

open Categorization (TextContext)
open Insights (Account RealDates sumOf unitsBefore_text)
open Ledger (IsoDate Transaction isWithin not_unitsBefore_trans unitsBefore unitsBefore_asymm)
open Scheduled (isIsoDate text toUtcDate)

variable {M : MoneyContext} {X : TextContext} {account : Account} {rows : List Transaction}
  {a b asOf statementDate next : IsoDate} {observedBalance : Int} {currency : String} {t : Transaction}

/-! ### The balance of a date -/

/-- Settled, of the account, and posted after a date. -/
def isUnwound (account : Account) (asOf : IsoDate) (t : Transaction) : Bool :=
  decide (t.accountId = account.id) && !t.pending && unitsBefore asOf t.postedAt

theorem Unwound.row_eq (unwound : Unwound) (t : Transaction) : unwound.row account asOf t =
    if isUnwound account asOf t then ⟨unwound.posted + t.amount, unwound.considered + 1⟩ else unwound := by
  unfold Unwound.row isUnwound
  by_cases mine : t.accountId = account.id
  · cases t.pending <;> cases unitsBefore asOf t.postedAt <;> simp [mine]
  · simp [mine]

theorem foldl_row (unwound : Unwound) (rows : List Transaction) : rows.foldl (Unwound.row account asOf) unwound =
    ⟨unwound.posted + sumOf (·.amount) (rows.filter (isUnwound account asOf)),
      unwound.considered + (rows.filter (isUnwound account asOf)).length⟩ := by
  induction rows generalizing unwound with
  | nil => simp [sumOf]
  | cons t rows ih =>
    rw [List.foldl_cons, ih, Unwound.row_eq, List.filter_cons]
    split
    · simp only [sumOf, List.map_cons, List.sum_cons, List.length_cons, Unwound.mk.injEq]
      omega
    · rfl

theorem computeBalanceAsOf_eq (account : Account) (rows : List Transaction) (asOf : IsoDate) :
    computeBalanceAsOf account rows asOf =
      ⟨account.balanceCurrent - sumOf (·.amount) (rows.filter (isUnwound account asOf)),
        (rows.filter (isUnwound account asOf)).length⟩ := by
  rw [computeBalanceAsOf, foldl_row]
  simp

/-! ### Between two dates -/

/-- Settled, of the account, and posted after one date and not after another. -/
def settledBetween (account : Account) (a b : IsoDate) (t : Transaction) : Bool :=
  decide (t.accountId = account.id) && !t.pending && unitsBefore a t.postedAt && !unitsBefore b t.postedAt

theorem isUnwound_split (order : unitsBefore b a = false) (t : Transaction) :
    isUnwound account a t = (settledBetween account a b t || isUnwound account b t) ∧
      (isUnwound account b t = true → settledBetween account a b t = false) := by
  have later : unitsBefore b t.postedAt = true → unitsBefore a t.postedAt = true := by
    intro after
    by_contra early
    have back := not_unitsBefore_trans order (Bool.eq_false_iff.mpr early)
    rw [after] at back
    cases back
  unfold isUnwound settledBetween
  revert later
  cases decide (t.accountId = account.id) <;> cases t.pending <;>
    cases unitsBefore a t.postedAt <;> cases unitsBefore b t.postedAt <;> simp

theorem sum_isUnwound (order : unitsBefore b a = false) (rows : List Transaction) :
    sumOf (·.amount) (rows.filter (isUnwound account a)) =
      sumOf (·.amount) (rows.filter (settledBetween account a b)) +
        sumOf (·.amount) (rows.filter (isUnwound account b)) := by
  induction rows with
  | nil => rfl
  | cons t rows ih =>
    obtain ⟨split_, apart⟩ := @isUnwound_split account a b order t
    simp only [List.filter_cons, split_]
    cases between : settledBetween account a b t
    · cases isUnwound account b t <;> simp_all [sumOf]
      omega
    · cases unwound : isUnwound account b t
      · simp only [sumOf, Bool.or_false, if_true, List.map_cons, List.sum_cons] at ih ⊢
        simp only [Bool.false_eq_true, if_false]
        omega
      · exact absurd (apart unwound) (by simp [between])

/-- The balance of a later date has what settled in between. -/
theorem balance_between (order : unitsBefore b a = false) (rows : List Transaction) :
    (computeBalanceAsOf account rows b).balance - (computeBalanceAsOf account rows a).balance =
      sumOf (·.amount) (rows.filter (settledBetween account a b)) := by
  have split_ := @sum_isUnwound account a b order rows
  simp only [computeBalanceAsOf_eq]
  omega

/-! ### The rows that are loaded -/

/-- What the loaded rows are asked for. -/
def loadedFor (account : Account) (start : IsoDate) : Ledger.TransactionQuery :=
  { accountId := some account.id, range := some ⟨start, FAR_FUTURE⟩ }

theorem far_future : FAR_FUTURE = text Insights.Texts.lastDay := by decide +kernel

theorem digits_le_lastDay {date : Insights.Date} (small : date.year ≤ 9999) : date.digits ≤ Insights.Texts.lastDay.digits := by
  have months := date.month_valid
  have days := date.digits_day
  have last : Insights.Texts.lastDay.digits = 99991231 := by decide
  rw [last, Insights.Date.digits]
  omega

theorem selects_iff (real : RealDates rows) (there : t ∈ rows) (unwound : isUnwound account asOf t = true) :
    Ledger.InMemoryTransactionStore.selects X (loadedFor account next) t = true ↔
      unitsBefore t.postedAt next = false := by
  obtain ⟨date, small, dated⟩ := real t there
  have mine : t.accountId = account.id := by
    simp only [isUnwound, Bool.and_eq_true, decide_eq_true_eq] at unwound
    exact unwound.1.1
  have last : unitsBefore FAR_FUTURE t.postedAt = false := by
    rw [far_future, dated, Bool.eq_false_iff, Ne, unitsBefore_text (by decide) small]
    exact Nat.not_lt.mpr (digits_le_lastDay small)
  simp [Ledger.InMemoryTransactionStore.selects, loadedFor, isWithin, last, Ledger.nonEmpty, mine]

/-- The rows that are loaded from a day on. -/
def loaded (X : TextContext) (rows : List Transaction) (account : Account) (start : IsoDate) : List Transaction :=
  Ledger.InMemoryTransactionStore.list X rows (loadedFor account start)

theorem loaded_perm (real : RealDates rows) : ((loaded X rows account next).filter (isUnwound account asOf)).Perm
    ((rows.filter (isUnwound account asOf)).filter fun t => !unitsBefore t.postedAt next) := by
  have sorted : (loaded X rows account next).Perm
      (rows.filter (Ledger.InMemoryTransactionStore.selects X (loadedFor account next))) :=
    List.perm_insertionSort _ _
  refine (sorted.filter _).trans (List.Perm.of_eq ?_)
  rw [List.filter_filter, List.filter_filter]
  refine List.filter_congr fun t there => ?_
  cases unwound : isUnwound account asOf t
  · simp
  · have selected := @selects_iff X account rows asOf next t real there unwound
    rw [Bool.true_and, Bool.and_true, Bool.eq_iff_iff, selected, Bool.not_eq_true']

/-- The loaded rows give the balance just when none that is needed is missing. -/
theorem computeBalanceAsOf_loaded_iff (real : RealDates rows) :
    computeBalanceAsOf account (loaded X rows account next) asOf = computeBalanceAsOf account rows asOf ↔
      ∀ t ∈ rows, isUnwound account asOf t = true → unitsBefore t.postedAt next = false := by
  have perm := @loaded_perm X account rows asOf next real
  rw [computeBalanceAsOf_eq, computeBalanceAsOf_eq]
  constructor
  · intro same t there unwound
    have considered := congrArg BalanceAsOf.transactionsConsidered same
    rw [perm.length_eq] at considered
    have all := List.filter_eq_self.mp (List.filter_sublist.eq_of_length considered)
    simpa using all t (List.mem_filter.mpr ⟨there, unwound⟩)
  · intro none_missing
    have all : (rows.filter (isUnwound account asOf)).filter (fun t => !unitsBefore t.postedAt next) =
        rows.filter (isUnwound account asOf) := by
      rw [List.filter_eq_self]
      intro t there
      obtain ⟨there, unwound⟩ := List.mem_filter.mp there
      simp [none_missing t there unwound]
    rw [all] at perm
    rw [perm.length_eq, sumOf, sumOf, (perm.map _).sum_eq]

/-! ### The comparison -/

theorem reconcile_eq (account : Account) (rows : List Transaction) (asOf : IsoDate) (observedBalance : Int)
    (currency : String) : reconcile M account rows asOf observedBalance currency =
      if M.toUpperCase currency ≠ M.toUpperCase account.currency then .error ⟨account.currency, currency⟩
      else
        let computed := computeBalanceAsOf account rows asOf
        let difference := observedBalance - computed.balance
        let status := if difference = 0 then .balanced else .unbalanced
        .ok ⟨computed.balance, difference, status, computed.transactionsConsidered,
          describe M status difference account.currency asOf⟩ := by
  rw [reconcile, throwIf]
  split <;> rfl

/-- Two outcomes are one just when the balances are. -/
theorem reconcile_eq_iff (rows' : List Transaction)
    (same : M.toUpperCase currency = M.toUpperCase account.currency) :
    (reconcile M account rows' asOf observedBalance currency).mapError badRequest =
        (reconcile M account rows asOf observedBalance currency).mapError badRequest ↔
      computeBalanceAsOf account rows' asOf = computeBalanceAsOf account rows asOf := by
  rw [reconcile_eq, reconcile_eq, if_neg (not_not.mpr same), if_neg (not_not.mpr same)]
  constructor
  · intro outcomes
    have parts := Except.ok.inj outcomes
    rw [ReconciliationOutcome.mk.injEq] at parts
    exact congrArg₂ BalanceAsOf.mk parts.1 parts.2.2.2.1
  · intro balances
    rw [balances]

theorem compare_ok (starts : Scheduled.addDays statementDate 1 = .ok next) :
    compare M X rows account statementDate observedBalance currency =
      (reconcile M account (loaded X rows account next) statementDate observedBalance currency).mapError
        badRequest := by
  rw [compare, starts]
  rfl

theorem compare_error {e : Scheduled.DateError} (fails : Scheduled.addDays statementDate 1 = .error e) :
    compare M X rows account statementDate observedBalance currency = .error (.date e) := by
  rw [compare, fails]
  rfl

/-- A comparison is one with all rows just when the date has a day after it, and nothing settled between
the date as a text and that day. -/
theorem compare_full_iff (M : MoneyContext) (X : TextContext) (account : Account) (rows : List Transaction)
    (statementDate : IsoDate) (observedBalance : Int) (currency : String) (real : RealDates rows) :
    (compare M X rows account statementDate observedBalance currency =
        (reconcile M account rows statementDate observedBalance currency).mapError badRequest ∧
      ∀ a b, unitsBefore b a = false →
        (computeBalanceAsOf account rows b).balance - (computeBalanceAsOf account rows a).balance =
          sumOf (·.amount) (rows.filter (settledBetween account a b))) ↔
      ∃ next, Scheduled.addDays statementDate 1 = .ok next ∧
        (M.toUpperCase currency = M.toUpperCase account.currency → ∀ t ∈ rows, t.accountId = account.id →
          t.pending = false → unitsBefore statementDate t.postedAt = true →
          unitsBefore t.postedAt next = false) := by
  have between : ∀ a b, unitsBefore b a = false →
      (computeBalanceAsOf account rows b).balance - (computeBalanceAsOf account rows a).balance =
        sumOf (·.amount) (rows.filter (settledBetween account a b)) := fun a b order => balance_between order rows
  rw [and_iff_left between]
  cases starts : Scheduled.addDays statementDate 1 with
  | error e =>
    rw [compare_error starts]
    refine iff_of_false ?_ (by simp)
    rw [reconcile_eq]
    split <;> simp [Except.mapError, badRequest]
  | ok next =>
    rw [compare_ok starts]
    simp only [Except.ok.injEq, exists_eq_left']
    by_cases same : M.toUpperCase currency = M.toUpperCase account.currency
    · rw [reconcile_eq_iff _ same, computeBalanceAsOf_loaded_iff real]
      simp [isUnwound, same]
    · rw [reconcile_eq, reconcile_eq, if_pos same, if_pos same]
      simp [same]

/-- No row is missing for a date on the calendar. -/
theorem no_gap {date : Insights.Date} (real : RealDates rows) (small : date.year ≤ 9999) :
    ∃ next, Scheduled.addDays (text date) 1 = .ok next ∧ ∀ t ∈ rows,
      unitsBefore (text date) t.postedAt = true → unitsBefore t.postedAt next = false := by
  refine ⟨_, Scheduled.addDays_text small 1, fun t there after => ?_⟩
  obtain ⟨day, dayYear, dated⟩ := real t there
  rw [dated] at after ⊢
  have later := (unitsBefore_text small dayYear).mp after
  have reached : date.addDays 1 ≤ day := by
    rw [Insights.Date.le_iff_number, Insights.Date.number_addDays]
    exact Insights.Date.lt_iff_number.mp later
  have year := (Insights.Date.year_le_of_digits reached).trans dayYear
  rw [Bool.eq_false_iff, Ne, unitsBefore_text dayYear year]
  exact Nat.not_lt.mpr reached

/-! ### A day that February does not have -/

def dollars : MoneyContext where
  toUpperCase := String.toUpper
  formatMoney amount currency := toString amount ++ " " ++ currency

def checking : Account := ⟨"checking", .checking, "USD", 100000⟩

def marchRow : Transaction := Insights.grocery "m" "2026-03-01" (-5000) false

theorem marchRow_real : RealDates [marchRow] := fun t there =>
  ⟨⟨2026, 3, 1, by decide, by decide⟩, by decide, by rw [List.mem_singleton.mp there]; decide +kernel⟩

theorem end_of_february_full :
    (compare dollars Categorization.ascii [marchRow] checking "2026-02-28" 105000 "USD" =
        (reconcile dollars checking [marchRow] "2026-02-28" 105000 "USD").mapError badRequest ∧
      ∀ a b, unitsBefore b a = false →
        (computeBalanceAsOf checking [marchRow] b).balance - (computeBalanceAsOf checking [marchRow] a).balance =
          sumOf (·.amount) ([marchRow].filter (settledBetween checking a b))) ↔
      ∃ next, Scheduled.addDays "2026-02-28" 1 = .ok next ∧
        (dollars.toUpperCase "USD" = dollars.toUpperCase checking.currency → ∀ t ∈ [marchRow],
          t.accountId = checking.id → t.pending = false → unitsBefore "2026-02-28" t.postedAt = true →
          unitsBefore t.postedAt next = false) :=
  compare_full_iff dollars Categorization.ascii checking [marchRow] "2026-02-28" 105000 "USD" marchRow_real

/-- The 30th of February is the 2nd of March, and the rows are loaded from the 3rd. -/
theorem february_30th_misses_row : ¬∀ (M : MoneyContext) (X : TextContext) (account : Account)
    (rows : List Transaction) (statementDate : IsoDate) (observedBalance : Int) (currency : String),
    RealDates rows → assertDate statementDate = .ok () →
    compare M X rows account statementDate observedBalance currency =
      (reconcile M account rows statementDate observedBalance currency).mapError badRequest := by
  intro all
  have same := all dollars Categorization.ascii checking [marchRow] "2026-02-30" 105000 "USD" marchRow_real
    (by decide +kernel)
  have starts : Scheduled.addDays "2026-02-30" 1 = .ok "2026-03-03" := by decide +kernel
  have usd : dollars.toUpperCase "USD" = dollars.toUpperCase checking.currency := rfl
  rw [compare_ok starts, reconcile_eq_iff _ usd, computeBalanceAsOf_loaded_iff marchRow_real] at same
  have missing := same marchRow (List.mem_singleton.mpr rfl) (by decide +kernel)
  exact absurd missing (by decide +kernel)

end Finverse.Reconciliation
