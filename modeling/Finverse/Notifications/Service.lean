import Finverse.Banking.PlaidAmounts
import Finverse.Framework.History
import Finverse.Http
import Finverse.Insights.Analytics
import Finverse.Notifications.FinancialAlerts
import Finverse.Statements.Service

/-! The notification centre: what is derived again whenever it is opened, stored once and pushed once. -/

namespace Finverse.Notifications

open Banking (Account)
open Interleave
open Transactions (Transaction)
open Insights (percentOf isSpendingCategory)
open Scheduled (text)

/-! ### Budgets -/

inductive BudgetPeriodType
  | weekly
  | monthly
  | yearly
  deriving DecidableEq, Repr

structure Budget where
  id : String
  categorySlug : String
  limitAmount : Int
  currency : String
  period : BudgetPeriodType
  rollover : Bool
  deriving DecidableEq, Repr

structure DateRange where
  start : Insights.Date
  end_ : Insights.Date

def weekRange (date : Insights.Date) : DateRange :=
  let start := Insights.ofNumber (date.number - (Insights.getUTCDay date + 6) % 7)
  ⟨start, start.addDays 6⟩

theorem month_last (year month : Nat) :
    1 ≤ Imports.daysInMonth year month ∧ Imports.daysInMonth year month ≤ Imports.daysInMonth year month :=
  ⟨Nat.le_trans (by omega) (Insights.daysInMonth_pos year month), Nat.le_refl _⟩

def monthRange (date : Insights.Date) : DateRange where
  start := date.firstOfMonth 0
  end_ := { date with
    day := Imports.daysInMonth date.year date.month
    day_valid := month_last date.year date.month }

theorem january : 1 ≤ 1 ∧ 1 ≤ 12 := by decide

theorem december : 1 ≤ 12 ∧ 12 ≤ 12 := by decide

theorem january_first (year : Nat) : 1 ≤ 1 ∧ 1 ≤ Imports.daysInMonth year 1 :=
  ⟨Nat.le_refl 1, (month_last year 1).1⟩

theorem december_last (year : Nat) : 1 ≤ 31 ∧ 31 ≤ Imports.daysInMonth year 12 := by
  simp [Imports.daysInMonth]

def yearRange (date : Insights.Date) : DateRange :=
  ⟨⟨date.year, 1, 1, january, january_first date.year⟩, ⟨date.year, 12, 31, december, december_last date.year⟩⟩

def rangeFor (period : BudgetPeriodType) (today : Insights.Date) : DateRange :=
  match period with
  | .weekly => weekRange today
  | .yearly => yearRange today
  | .monthly => monthRange today

def THRESHOLDS : List Nat := [50, 75, 90, 100]

/-- The highest one that is reached. -/
def thresholdFor (percent : Rat) : Option Nat :=
  THRESHOLDS.foldl (fun (crossed : Option Nat) (t : Nat) => if (t : Rat) ≤ percent then some t else crossed) none

inductive BudgetStatus
  | onTrack
  | warning
  | critical
  | exceeded
  deriving DecidableEq, Repr

def statusFor (percent : Rat) : BudgetStatus :=
  if 100 ≤ percent then .exceeded
  else if 90 ≤ percent then .critical
  else if 75 ≤ percent then .warning
  else .onTrack

structure BudgetProgress where
  budgetId : String
  categorySlug : String
  currency : String
  limitAmount : Int
  spentAmount : Int
  remainingAmount : Int
  percentUsed : Rat
  thresholdCrossed : Option Nat
  status : BudgetStatus
  daysElapsed : Int
  daysRemaining : Int
  projectedSpend : Int
  projectedToExceed : Bool
  deriving DecidableEq

def counts (categorySlug : String) (period : DateRange) (currency : String) (t : Transaction) : Bool :=
  !t.excludedFromAnalytics && t.categorySlug == categorySlug && (currency == "" || t.currency == currency) &&
    decide (period.start ≤ t.postedAt) && decide (t.postedAt ≤ period.end_) &&
      isSpendingCategory t.categorySlug && !t.pending

/-- Refunds count against the spending, which is never below zero. -/
def spendForCategory (transactions : List Transaction) (categorySlug : String) (period : DateRange)
    (currency : String) : Int :=
  max 0 (-((transactions.filter (counts categorySlug period currency)).map (·.amount)).sum)

def computeBudgetProgress (budget : Budget) (transactions : List Transaction) (period : DateRange)
    (today : Insights.Date) : BudgetProgress :=
  let spentAmount := spendForCategory transactions budget.categorySlug period budget.currency
  let percentUsed := percentOf spentAmount budget.limitAmount
  let totalDays := period.start.daysBetweenInclusive period.end_
  let rawElapsed := period.start.daysBetweenInclusive (if today.digits < period.end_.digits then today else period.end_)
  let daysElapsed := min (max rawElapsed 0) totalDays
  let projectedSpend := if 0 < daysElapsed then Insights.round ((spentAmount : Rat) / daysElapsed * totalDays) else 0
  { budgetId := budget.id
    categorySlug := budget.categorySlug
    currency := budget.currency
    limitAmount := budget.limitAmount
    spentAmount
    remainingAmount := budget.limitAmount - spentAmount
    percentUsed
    thresholdCrossed := thresholdFor percentUsed
    status := statusFor percentUsed
    daysElapsed
    daysRemaining := max (totalDays - daysElapsed) 0
    projectedSpend
    projectedToExceed := decide (budget.limitAmount < projectedSpend) && decide (spentAmount ≤ budget.limitAmount) }

structure BudgetAlert where
  budgetId : String
  categorySlug : String
  /-- `none` stands for the projection. -/
  threshold : Option Nat
  message : String
  severity : Severity
  deriving DecidableEq, Repr

def thresholdAlert (progress : BudgetProgress) (threshold : Nat) : BudgetAlert where
  budgetId := progress.budgetId
  categorySlug := progress.categorySlug
  threshold := some threshold
  message :=
    if 100 ≤ threshold then "You've gone over your " ++ progress.categorySlug ++ " budget."
    else "You've used " ++ toString threshold ++ "% of your " ++ progress.categorySlug ++ " budget with " ++
      toString progress.daysRemaining ++ " days left."
  severity := if 100 ≤ threshold then .critical else if 90 ≤ threshold then .warning else .info

def projectionAlert (progress : BudgetProgress) : BudgetAlert where
  budgetId := progress.budgetId
  categorySlug := progress.categorySlug
  threshold := none
  message := "At this pace you'll exceed your " ++ progress.categorySlug ++ " budget before the period ends."
  severity := .warning

/-- The projection is the threshold -1 of those that were told before. -/
def budgetAlerts (progress : BudgetProgress) (alreadyNotified : List Int) : List BudgetAlert :=
  ((progress.thresholdCrossed.filter fun (t : Nat) => (t : Int) ∉ alreadyNotified).map (thresholdAlert progress)).toList ++
    if progress.projectedToExceed && decide (2 < progress.daysRemaining) && (-1) ∉ alreadyNotified then
      [projectionAlert progress]
    else []

/-- What there is to tell of the budgets, with the period that each alert is for. -/
def progressAlerts (budgets : List Budget) (transactions : List Transaction) (today : Insights.Date) :
    List (DateRange × BudgetAlert) :=
  budgets.flatMap fun budget =>
    let period := rangeFor budget.period today
    (budgetAlerts (computeBudgetProgress budget transactions period today) []).map fun alert => (period, alert)

/-! ### The alerts that are due -/

structure NotificationPreferences where
  budget : Bool := true
  bills : Bool := true
  creditUtilization : Bool := true
  subscriptions : Bool := true
  lowBalance : Bool := true
  unusualTransactions : Bool := true
  bankSync : Bool := true
  security : Bool := true
  deriving DecidableEq, Repr

def alertEnabled (alert : DerivedFinancialAlert) (preferences : NotificationPreferences) : Bool :=
  match alert.kind with
  | .bill => preferences.bills
  | .subscription => preferences.subscriptions
  | .unusualTransaction => preferences.unusualTransactions
  | _ => false

variable (F : Formats)

def derivedAlerts (preferences : NotificationPreferences) (transactions : List Transaction) (today : Insights.Date) :
    List DerivedFinancialAlert :=
  (deriveSubscriptionAlerts F transactions today ++ deriveUnusualTransactionAlerts F transactions today).filter
    (alertEnabled · preferences)

def budgetAlert (period : DateRange) (alert : BudgetAlert) : DerivedFinancialAlert where
  kind := .budget
  title := String.ofList (alert.categorySlug.toList.map fun c => if c = '_' then ' ' else c) ++ " budget"
  message := alert.message
  severity := alert.severity
  dedupeKey := "budget:" ++ alert.budgetId ++ ":" ++ text period.start ++ ":" ++
    (alert.threshold.map toString).getD "projection"

def monthOf (today : Insights.Date) : String := String.ofList ((text today).toList.take 7)

def utilization (account : Account) (creditLimit : Int) : Rat :=
  ((max 0 (-account.balanceCurrent) : Int) : Rat) / creditLimit

def creditAlert (today : Insights.Date) (account : Account) : Option DerivedFinancialAlert :=
  match account.creditLimit.filter (· ≠ 0) with
  | none => none
  | some creditLimit =>
    let used := utilization account creditLimit
    if account.type ≠ .creditCard ∨ used < 3 / 10 then none
    else some
      { kind := .creditUtilization
        title := "Credit utilization alert"
        message := account.name ++ " is at " ++ toString (Insights.round (used * 100)) ++
          "% utilization. Consider paying before the statement closes."
        severity := if 8 / 10 ≤ used then .critical else .warning
        dedupeKey := "credit:" ++ account.id ++ ":" ++ monthOf today ++ ":" ++ (if 8 / 10 ≤ used then "80" else "30") }

def lowBalanceAlert (today : Insights.Date) (account : Account) : Option DerivedFinancialAlert :=
  if (account.type ≠ .checking ∧ account.type ≠ .savings) ∨ 20000 ≤ account.balanceCurrent then none
  else some
    { kind := .lowBalance
      title := "Low balance"
      message := account.name ++ " has fallen below the configured " ++ F.formatMoney 20000 account.currency ++
        " early-warning threshold."
      severity := if account.balanceCurrent < 0 then .critical else .warning
      dedupeKey := "low-balance:" ++ account.id ++ ":" ++ monthOf today }

def syncFailureAlert (today : Insights.Date) (linkId institutionName code : String) : DerivedFinancialAlert :=
  let reauth := code == "ITEM_LOGIN_REQUIRED"
  { kind := .bankSync
    title := if reauth then "Reconnect your bank" else "Bank sync needs attention"
    message := institutionName ++ (if reauth then " needs you to sign in again before transactions can update."
      else " could not update. FINVERSE will retry automatically.")
    severity := if reauth then .critical else .warning
    dedupeKey := "bank-sync:" ++ linkId ++ ":" ++ text today ++ ":" ++ code }

/-! ### The store -/

structure UserNotification extends DerivedFinancialAlert where
  id : Nat
  readAt : Option Nat
  createdAt : Nat
  deriving DecidableEq, Repr

/-- The two stores. The database orders the ids, and lists some of the rows only. -/
inductive Adapter
  | inMemory
  | postgres (idLe : Nat → Nat → Bool)

structure Context where
  formats : Formats
  adapter : Adapter

/-- Both tables, and the ids that are not drawn yet. -/
structure Store where
  rows : OrdMap String (List UserNotification) := ∅
  preferences : OrdMap String NotificationPreferences := ∅
  supply : Nat := 0

def DEFAULT_NOTIFICATION_PREFERENCES : NotificationPreferences := {}

namespace Store

def bucket (st : Store) (userId : String) : List UserNotification := (st.rows.get? userId).getD []

def getPreferences (st : Store) (userId : String) : NotificationPreferences :=
  (st.preferences.get? userId).getD DEFAULT_NOTIFICATION_PREFERENCES

def list (adapter : Adapter) (st : Store) (userId : String) : List UserNotification :=
  match adapter with
  | .inMemory => (st.bucket userId).insertionSort fun a b => b.createdAt ≤ a.createdAt
  | .postgres idLe =>
    ((st.bucket userId).insertionSort fun a b =>
      b.createdAt < a.createdAt ∨ a.createdAt = b.createdAt ∧ idLe b.id a.id = true).take 200

/-- The id is random; `none` stands for a row that is there already. -/
def upsert (st : Store) (userId : String) (alert : DerivedFinancialAlert) (createdAt : Nat) : Option Nat × Store :=
  let id := st.supply
  let rows := st.bucket userId
  if rows.any (·.dedupeKey == alert.dedupeKey) then (none, { st with supply := id + 1 })
  else (some id, { st with
    rows := st.rows.set userId (rows ++ [{ toDerivedFinancialAlert := alert, id, readAt := none, createdAt }])
    supply := id + 1 })

/-- The first time stays. -/
def markRead (st : Store) (userId : String) (id at_ : Nat) : Bool × Store :=
  let rows := st.bucket userId
  if rows.any (·.id == id) then
    (true, { st with rows := st.rows.set userId (rows.map fun row =>
      if row.id = id then { row with readAt := some (row.readAt.getD at_) } else row) })
  else (false, st)

end Store

/-! ### The ports -/

structure PushMessage where
  title : String
  body : String
  notificationId : Nat
  deriving DecidableEq, Repr

/-- What the clock and the other services answer. -/
structure Env where
  now : Nat
  today : Insights.Date
  transactions : List Transaction := []
  budgets : List Budget := []
  accounts : List Account := []

inductive Call
  | getPreferences (userId : String)
  | setPreferences (userId : String) (preferences : NotificationPreferences)
  | clock
  | listTransactions (userId : String)
  | listBudgets (userId : String)
  | listAccounts (userId : String)
  | list (userId : String)
  | upsert (userId : String) (alert : DerivedFinancialAlert) (createdAt : Nat)
  | deliver (userId : String) (message : PushMessage)
  | markRead (userId : String) (id at_ : Nat)

@[reducible] def Call.Reply : Call → Type
  | .getPreferences _ => NotificationPreferences
  | .setPreferences .. => Unit
  | .clock => Insights.Date × Nat
  | .listTransactions _ => List Transaction
  | .listBudgets _ => List Budget
  | .listAccounts _ => List Account
  | .list _ => List UserNotification
  | .upsert .. => Option Nat
  | .deliver .. => Unit
  | .markRead .. => Bool

abbrev ports : Interface := ⟨Call, Call.Reply⟩

/-- A push leaves the store as it is, whatever comes of it. -/
def perform (adapter : Adapter) (call : Call) (env : Env) (st : Store) : call.Reply × Store :=
  match call with
  | .getPreferences userId => (st.getPreferences userId, st)
  | .setPreferences userId preferences =>
    ((), { st with preferences := st.preferences.set userId preferences })
  | .clock => ((env.today, env.now), st)
  | .listTransactions _ => (env.transactions, st)
  | .listBudgets _ => (env.budgets, st)
  | .listAccounts _ => (env.accounts, st)
  | .list userId => (st.list adapter userId, st)
  | .upsert userId alert createdAt => st.upsert userId alert createdAt
  | .deliver .. => ((), st)
  | .markRead userId id at_ => st.markRead userId id at_

def machine (adapter : Adapter) : Machine ports Env Store where
  ready := fun _ _ _ => true
  exec := perform adapter

/-! ### The service -/

abbrev Service (α : Type) : Type := Task ports HttpError α

def call (c : Call) : Service c.Reply := Task.call (I := ports) c

def pushFor (id : Nat) : PushMessage :=
  ⟨"FINVERSE alert", "Open FINVERSE to view an important account alert.", id⟩

def create (userId : String) (alert : DerivedFinancialAlert) (createdAt : Nat) : Service Bool := do
  match ← call (.upsert userId alert createdAt) with
  | none => pure false
  | some id => do
    call (.deliver userId (pushFor id))
    pure true

def createAll (userId : String) (createdAt : Nat) : List DerivedFinancialAlert → Service Unit
  | [] => pure ()
  | alert :: alerts => do
    let _ ← create userId alert createdAt
    createAll userId createdAt alerts

def enabled (wanted : Bool) (m : Service Unit) : Service Unit := if wanted then m else pure ()

/-- The part of a refresh that reads the transactions. -/
def refreshTransactions (userId : String) (preferences : NotificationPreferences) (today : Insights.Date)
    (createdAt : Nat) : Service Unit :=
  enabled (preferences.bills || preferences.subscriptions || preferences.unusualTransactions) do
    let transactions ← call (.listTransactions userId)
    createAll userId createdAt (derivedAlerts F preferences transactions today)

def refreshBudgets (userId : String) (preferences : NotificationPreferences) (today : Insights.Date)
    (createdAt : Nat) : Service Unit :=
  enabled preferences.budget do
    let budgets ← call (.listBudgets userId)
    let transactions ← call (.listTransactions userId)
    createAll userId createdAt
      ((progressAlerts budgets transactions today).map fun entry => budgetAlert entry.1 entry.2)

def refreshAccounts (userId : String) (preferences : NotificationPreferences) (today : Insights.Date)
    (createdAt : Nat) : Service Unit := do
  let accounts ← call (.listAccounts userId)
  enabled preferences.creditUtilization (createAll userId createdAt (accounts.filterMap (creditAlert today)))
  enabled preferences.lowBalance (createAll userId createdAt (accounts.filterMap (lowBalanceAlert F today)))

def refreshDerived (userId : String) : Service Unit := do
  let preferences ← call (.getPreferences userId)
  let (today, createdAt) ← call .clock
  refreshTransactions F userId preferences today createdAt
  refreshBudgets userId preferences today createdAt
  refreshAccounts F userId preferences today createdAt

def list (userId : String) : Service (List UserNotification) := do
  refreshDerived F userId
  call (.list userId)

open Statements (Scalar)

/-- What a field of the body sets; anything but a boolean is left aside. -/
def flag (value : Option Scalar) (current : Bool) : Bool :=
  match value with
  | some (.boolean b) => b
  | _ => current

/-- The fields of the body, by the names that the preferences have. -/
abbrev PreferencesPatch : Type := OrdMap String Scalar

def merge (current : NotificationPreferences) (patch : PreferencesPatch) : NotificationPreferences where
  budget := flag (patch.get? "budget") current.budget
  bills := flag (patch.get? "bills") current.bills
  creditUtilization := flag (patch.get? "creditUtilization") current.creditUtilization
  subscriptions := flag (patch.get? "subscriptions") current.subscriptions
  lowBalance := flag (patch.get? "lowBalance") current.lowBalance
  unusualTransactions := flag (patch.get? "unusualTransactions") current.unusualTransactions
  bankSync := flag (patch.get? "bankSync") current.bankSync
  security := flag (patch.get? "security") current.security

def updatePreferences (userId : String) (patch : PreferencesPatch) : Service NotificationPreferences := do
  let current ← call (.getPreferences userId)
  let next := merge current patch
  call (.setPreferences userId next)
  pure next

def markRead (userId : String) (id : Nat) : Service Unit := do
  let (_, at_) ← call .clock
  let marked ← call (.markRead userId id at_)
  if marked then pure () else throw (.notFound "Notification not found.")

def markEach (userId : String) (readAt : Nat) : List UserNotification → Service Unit
  | [] => pure ()
  | notification :: unread => do
    let _ ← call (.markRead userId notification.id readAt)
    markEach userId readAt unread

def markAllRead (userId : String) : Service Unit := do
  let rows ← call (.list userId)
  let unread := rows.filter (·.readAt.isNone)
  if unread = [] then pure ()
  else do
    let (_, readAt) ← call .clock
    markEach userId readAt unread

def notifySyncFailure (userId linkId institutionName code : String) : Service Unit := do
  let preferences ← call (.getPreferences userId)
  enabled preferences.bankSync do
    let (today, createdAt) ← call .clock
    let _ ← create userId (syncFailureAlert today linkId institutionName code) createdAt

/-! ### The system -/

inductive Request
  | list (userId : String)
  | preferences (userId : String)
  | updatePreferences (userId : String) (patch : PreferencesPatch)
  | markRead (userId : String) (id : Nat)
  | markAllRead (userId : String)
  | notifySyncFailure (userId linkId institutionName code : String)

inductive Response
  | notifications (rows : List UserNotification)
  | preferences (preferences : NotificationPreferences)
  | done

def handle : Request → Service Response
  | .list userId => .notifications <$> list F userId
  | .preferences userId => .preferences <$> call (.getPreferences userId)
  | .updatePreferences userId patch => .preferences <$> updatePreferences userId patch
  | .markRead userId id => (fun _ => .done) <$> markRead userId id
  | .markAllRead userId => (fun _ => .done) <$> markAllRead userId
  | .notifySyncFailure userId linkId institutionName code =>
    (fun _ => .done) <$> notifySyncFailure userId linkId institutionName code

def system (X : Context) : System ports Env Store Request (Except HttpError Response) where
  machine := machine X.adapter
  serve := fun _ r => (handle X.formats r).run

/-! ### What the requests ask for -/

def wanted (preferences : NotificationPreferences) : NotificationKind → Bool
  | .budget => preferences.budget
  | .bill => preferences.bills
  | .creditUtilization => preferences.creditUtilization
  | .subscription => preferences.subscriptions
  | .lowBalance => preferences.lowBalance
  | .unusualTransaction => preferences.unusualTransactions
  | .bankSync => preferences.bankSync
  | .security => preferences.security

/-- The row that is stored, if one is. -/
def stored : Event ports → Option (String × Nat)
  | ⟨.upsert userId _ _, some id⟩ => some (userId, id)
  | _ => none

/-- The row that was stored last thing, and is not pushed yet. -/
def pending (h : List (Event ports)) : Option (String × Nat) := h.getLast?.bind stored

/-- The alert that is to be stored, whether there is one like it or not. -/
def sent : Event ports → Option (String × DerivedFinancialAlert)
  | ⟨.upsert userId alert _, _⟩ => some (userId, alert)
  | _ => none

/-- A row is pushed as soon as it is stored, and alerts are stored when their kind was wanted. -/
structure Prompt (h : List (Event ports)) (op : Call) : Prop where
  push : ∀ x, pending h = some x → op = .deliver x.1 (pushFor x.2)
  pushed : ∀ userId message, op = .deliver userId message → ∃ id, pending h = some (userId, id) ∧ message = pushFor id
  known : ∀ userId alert createdAt, op = .upsert userId alert createdAt →
    ∃ preferences, ⟨.getPreferences userId, preferences⟩ ∈ h ∧ wanted preferences alert.kind = true

/-- These alerts of the user were to be stored, and nothing is to be pushed. -/
structure Sends (userId : String) (alerts : List DerivedFinancialAlert) (h h' : List (Event ports)) : Prop where
  more : ∃ more, h' = h ++ more ∧ more.filterMap sent = alerts.map fun alert => (userId, alert)
  idle : pending h' = none

def Call.isPlain : Call → Bool
  | .upsert .. | .deliver .. => false
  | _ => true

/-- What a refresh looks at. -/
structure Seen where
  preferences : NotificationPreferences
  today : Insights.Date
  transactions : List Transaction
  budgets : List Budget
  budgetTransactions : List Transaction
  accounts : List Account

def Seen.derives (seen : Seen) : Bool :=
  seen.preferences.bills || seen.preferences.subscriptions || seen.preferences.unusualTransactions

/-- The alerts that there are to tell. -/
def Seen.due (seen : Seen) : List DerivedFinancialAlert :=
  (if seen.derives then derivedAlerts F seen.preferences seen.transactions seen.today else []) ++
    (if seen.preferences.budget then
      (progressAlerts seen.budgets seen.budgetTransactions seen.today).map fun entry => budgetAlert entry.1 entry.2
    else []) ++
    (if seen.preferences.creditUtilization then seen.accounts.filterMap (creditAlert seen.today) else []) ++
    if seen.preferences.lowBalance then seen.accounts.filterMap (lowBalanceAlert F seen.today) else []

/-- It was read, as far as it was looked at. -/
structure Seen.Read (seen : Seen) (userId : String) (h : List (Event ports)) : Prop where
  preferences : ⟨.getPreferences userId, seen.preferences⟩ ∈ h
  today : ∃ now, ⟨.clock, (seen.today, now)⟩ ∈ h
  transactions : seen.derives = true → ⟨.listTransactions userId, seen.transactions⟩ ∈ h
  budgets : seen.preferences.budget = true → ⟨.listBudgets userId, seen.budgets⟩ ∈ h ∧
    ⟨.listTransactions userId, seen.budgetTransactions⟩ ∈ h
  accounts : ⟨.listAccounts userId, seen.accounts⟩ ∈ h

section Requests

variable {F : Formats} {h h' h'' : List (Event ports)} {userId : String} {alert : DerivedFinancialAlert}
  {alerts alerts' : List DerivedFinancialAlert} {createdAt : Nat} {preferences : NotificationPreferences}
  {today : Insights.Date}

theorem pending_snoc (h : List (Event ports)) (e : Event ports) : pending (h ++ [e]) = stored e := by simp [pending]

theorem stored_plain {c : Call} (plain : c.isPlain = true) (r : c.Reply) : stored ⟨c, r⟩ = none := by
  cases c with
  | upsert | deliver => cases plain
  | _ => rfl

theorem sent_plain {c : Call} (plain : c.isPlain = true) (r : c.Reply) : sent ⟨c, r⟩ = none := by
  cases c with
  | upsert | deliver => cases plain
  | _ => rfl

theorem Prompt.of_plain {c : Call} (idle : pending h = none) (plain : c.isPlain = true) : Prompt h c where
  push x waits := by
    rw [idle] at waits
    cases waits
  pushed userId message same := by
    rw [same] at plain
    cases plain
  known userId alert createdAt same := by
    rw [same] at plain
    cases plain

theorem Sends.nothing (idle : pending h = none) : Sends userId [] h h := ⟨⟨[], by simp, rfl⟩, idle⟩

theorem Sends.plain {c : Call} (plain : c.isPlain = true) (r : c.Reply) : Sends userId [] h (h ++ [⟨c, r⟩]) where
  more := ⟨_, rfl, by simp [sent_plain plain r]⟩
  idle := by rw [pending_snoc, stored_plain plain r]

theorem Sends.trans (first : Sends userId alerts h h') (rest : Sends userId alerts' h' h'') : Sends userId (alerts ++ alerts') h h'' where
  more := by
    obtain ⟨more, rfl, same⟩ := first.more
    obtain ⟨more', rfl, same'⟩ := rest.more
    exact ⟨more ++ more', by simp, by rw [List.filterMap_append, same, same', List.map_append]⟩
  idle := rest.idle

theorem Sends.subset (sends : Sends userId alerts h h') : h ⊆ h' := by
  obtain ⟨more, rfl, -⟩ := sends.more
  exact List.subset_append_left _ _

theorem plain_bind {c : Call} {α : Type} {f : c.Reply → Service α} {ok : List (Event ports) → α → Prop}
    {err : List (Event ports) → HttpError → Prop} (idle : pending h = none) (plain : c.isPlain = true)
    (rest : ∀ r : c.Reply, Task.Asks (I := ports) Prompt ok err (h ++ [⟨c, r⟩]) (f r)) :
    Task.Asks (I := ports) Prompt ok err h (call c >>= f) :=
  Task.asks_call_bind.mpr ⟨.of_plain idle plain, rest⟩

theorem plain_call {c : Call} {ok : List (Event ports) → c.Reply → Prop} {err : List (Event ports) → HttpError → Prop}
    (idle : pending h = none) (plain : c.isPlain = true) (done : ∀ r : c.Reply, ok (h ++ [⟨c, r⟩]) r) :
    Task.Asks (I := ports) Prompt ok err h (call c) :=
  Task.asks_call.mpr ⟨.of_plain idle plain, done⟩

theorem create_asks {err : List (Event ports) → HttpError → Prop} (idle : pending h = none)
    (read : ⟨.getPreferences userId, preferences⟩ ∈ h) (want : wanted preferences alert.kind = true) :
    Task.Asks (I := ports) Prompt (fun h' _ => Sends userId [alert] h h') err h (create userId alert createdAt) := by
  refine Task.asks_call_bind.mpr ⟨⟨fun x waits => ?_, fun _ _ same => (nomatch same), fun _ _ _ same => ?_⟩, fun r => ?_⟩
  · rw [idle] at waits
    cases waits
  · obtain ⟨rfl, rfl, rfl⟩ := Call.upsert.inj same
    exact ⟨preferences, read, want⟩
  · cases r with
    | none => exact ⟨⟨_, rfl, rfl⟩, pending_snoc _ _⟩
    | some id =>
      refine Task.asks_call_bind.mpr ⟨⟨fun x waits => ?_, fun _ _ same => ?_, fun _ _ _ same => (nomatch same)⟩, fun _ => ?_⟩
      · rw [pending_snoc] at waits
        obtain rfl := Option.some.inj waits
        rfl
      · obtain ⟨rfl, rfl⟩ := Call.deliver.inj same
        exact ⟨id, pending_snoc _ _, rfl⟩
      · exact ⟨⟨_, List.append_assoc _ _ _, rfl⟩, pending_snoc _ _⟩

theorem createAll_asks {err : List (Event ports) → HttpError → Prop} (idle : pending h = none)
    (read : ⟨.getPreferences userId, preferences⟩ ∈ h) (want : ∀ alert ∈ alerts, wanted preferences alert.kind = true) :
    Task.Asks (I := ports) Prompt (fun h' _ => Sends userId alerts h h') err h (createAll userId createdAt alerts) := by
  induction alerts generalizing h with
  | nil => exact .nothing idle
  | cons alert alerts ih =>
    refine Task.asks_bind.mpr ((create_asks idle read (want alert List.mem_cons_self)).weaken ?_ fun _ _ => id)
    intro h' _ first
    exact (ih first.idle (first.subset read) fun alert there => want alert (List.mem_cons_of_mem _ there)).weaken
      (fun _ _ rest => first.trans rest) fun _ _ => id

theorem enabled_asks {on : Bool} {m : Service Unit} {D : List (Event ports) → Call → Prop}
    {ok : List (Event ports) → Unit → Prop} {err : List (Event ports) → HttpError → Prop}
    (then_ : on = true → Task.Asks (I := ports) D ok err h m) (else_ : on = false → ok h ()) :
    Task.Asks (I := ports) D ok err h (enabled on m) := by
  cases on with
  | true => exact then_ rfl
  | false => exact else_ rfl

theorem wanted_of_enabled (on : alertEnabled alert preferences = true) : wanted preferences alert.kind = true := by
  unfold alertEnabled at on
  cases kind : alert.kind <;> simp_all [wanted]

theorem derivedAlerts_wanted {transactions : List Transaction} :
    ∀ alert ∈ derivedAlerts F preferences transactions today, wanted preferences alert.kind = true :=
  fun _ there => wanted_of_enabled (List.mem_filter.mp there).2

theorem creditAlert_kind {account : Account} (due : creditAlert today account = some alert) :
    alert.kind = .creditUtilization := by
  unfold creditAlert at due
  split at due
  · cases due
  · dsimp only at due
    split at due
    · cases due
    · exact congrArg DerivedFinancialAlert.kind (Option.some.inj due).symm

theorem lowBalanceAlert_kind {account : Account} (due : lowBalanceAlert F today account = some alert) :
    alert.kind = .lowBalance := by
  unfold lowBalanceAlert at due
  split at due
  · cases due
  · exact congrArg DerivedFinancialAlert.kind (Option.some.inj due).symm

variable {err : List (Event ports) → HttpError → Prop}

theorem createWanted_asks {on : Bool} (idle : pending h = none) (read : ⟨.getPreferences userId, preferences⟩ ∈ h)
    (want : on = true → ∀ alert ∈ alerts, wanted preferences alert.kind = true) :
    Task.Asks (I := ports) Prompt (fun h' _ => Sends userId (if on then alerts else []) h h') err h
      (enabled on (createAll userId createdAt alerts)) := by
  refine enabled_asks (fun wish => ?_) fun off => ?_
  · rw [if_pos wish]
    exact createAll_asks idle read (want wish)
  · rw [if_neg (by simp [off])]
    exact .nothing idle

theorem refreshTransactions_asks (idle : pending h = none) (read : ⟨.getPreferences userId, preferences⟩ ∈ h) :
    Task.Asks (I := ports) Prompt (fun h' _ => ∃ transactions,
      ((preferences.bills || preferences.subscriptions || preferences.unusualTransactions) = true →
        ⟨.listTransactions userId, transactions⟩ ∈ h') ∧
      Sends userId (if preferences.bills || preferences.subscriptions || preferences.unusualTransactions then
        derivedAlerts F preferences transactions today else []) h h') err h
      (refreshTransactions F userId preferences today createdAt) := by
  refine enabled_asks (fun on => ?_) fun off => ⟨[], by simp [off], ?_⟩
  · refine plain_bind idle rfl fun transactions => ?_
    refine (createAll_asks (pending_snoc _ _) (List.mem_append_left _ read) derivedAlerts_wanted).weaken ?_ fun _ _ => id
    intro h' _ sends
    refine ⟨transactions, fun _ => sends.subset (by simp), ?_⟩
    rw [if_pos on]
    exact (Sends.plain (c := .listTransactions userId) rfl transactions).trans sends
  · rw [if_neg (by simp [off])]
    exact .nothing idle

theorem refreshBudgets_asks (idle : pending h = none) (read : ⟨.getPreferences userId, preferences⟩ ∈ h) :
    Task.Asks (I := ports) Prompt (fun h' _ => ∃ budgets transactions,
      (preferences.budget = true →
        ⟨.listBudgets userId, budgets⟩ ∈ h' ∧ ⟨.listTransactions userId, transactions⟩ ∈ h') ∧
      Sends userId (if preferences.budget then
        (progressAlerts budgets transactions today).map fun entry => budgetAlert entry.1 entry.2 else []) h h') err h
      (refreshBudgets userId preferences today createdAt) := by
  refine enabled_asks (fun on => ?_) fun off => ⟨[], [], by simp [off], ?_⟩
  · refine plain_bind idle rfl fun budgets => plain_bind (pending_snoc _ _) rfl fun transactions => ?_
    refine (createAll_asks (pending_snoc _ _)
      (List.mem_append_left _ (List.mem_append_left _ read)) fun alert there => ?_).weaken ?_ fun _ _ => id
    · obtain ⟨entry, -, rfl⟩ := List.mem_map.mp there
      exact on
    · intro h' _ sends
      refine ⟨budgets, transactions, fun _ => ⟨sends.subset (by simp), sends.subset (by simp)⟩, ?_⟩
      rw [if_pos on]
      exact ((Sends.plain (c := .listBudgets userId) rfl budgets).trans
        (.plain (c := .listTransactions userId) rfl transactions)).trans sends
  · rw [if_neg (by simp [off])]
    exact .nothing idle

theorem refreshAccounts_asks (idle : pending h = none) (read : ⟨.getPreferences userId, preferences⟩ ∈ h) :
    Task.Asks (I := ports) Prompt (fun h' _ => ∃ accounts, ⟨.listAccounts userId, accounts⟩ ∈ h' ∧
      Sends userId ((if preferences.creditUtilization then accounts.filterMap (creditAlert today) else []) ++
        if preferences.lowBalance then accounts.filterMap (lowBalanceAlert F today) else []) h h') err h
      (refreshAccounts F userId preferences today createdAt) := by
  refine plain_bind idle rfl fun accounts => ?_
  have credit : preferences.creditUtilization = true →
      ∀ alert ∈ accounts.filterMap (creditAlert today), wanted preferences alert.kind = true := by
    intro on alert there
    obtain ⟨account, -, due⟩ := List.mem_filterMap.mp there
    rw [creditAlert_kind due]
    exact on
  have low : preferences.lowBalance = true →
      ∀ alert ∈ accounts.filterMap (lowBalanceAlert F today), wanted preferences alert.kind = true := by
    intro on alert there
    obtain ⟨account, -, due⟩ := List.mem_filterMap.mp there
    rw [lowBalanceAlert_kind due]
    exact on
  refine Task.asks_bind.mpr ((createWanted_asks (pending_snoc _ _) (List.mem_append_left _ read) credit).weaken ?_
    fun _ _ => id)
  intro h₁ _ first
  refine (createWanted_asks first.idle (first.subset (List.mem_append_left _ read)) low).weaken ?_ fun _ _ => id
  intro h₂ _ second
  refine ⟨accounts, second.subset (first.subset (by simp)), ?_⟩
  exact (Sends.plain (c := .listAccounts userId) rfl accounts).trans (first.trans second)

theorem refreshDerived_asks (idle : pending h = none) :
    Task.Asks (I := ports) Prompt (fun h' _ => ∃ seen : Seen, seen.Read userId h' ∧ Sends userId (seen.due F) h h') err h
      (refreshDerived F userId) := by
  refine plain_bind idle rfl fun preferences => plain_bind (pending_snoc _ _) rfl fun (today, createdAt) => ?_
  generalize started : h ++ [⟨.getPreferences userId, preferences⟩] ++ [⟨.clock, (today, createdAt)⟩] = h₀
  have read : ⟨.getPreferences userId, preferences⟩ ∈ h₀ := by simp [← started]
  have clock : ⟨.clock, (today, createdAt)⟩ ∈ h₀ := by simp [← started]
  have start : Sends userId [] h h₀ := by
    rw [← started]
    exact (Sends.plain rfl _).trans (.plain rfl _)
  refine Task.asks_bind.mpr ((refreshTransactions_asks start.idle read).weaken ?_ fun _ _ => id)
  rintro h₁ - ⟨transactions, listed, first⟩
  refine Task.asks_bind.mpr ((refreshBudgets_asks first.idle (first.subset read)).weaken ?_ fun _ _ => id)
  rintro h₂ - ⟨budgets, transactions', budgeted, second⟩
  refine (refreshAccounts_asks second.idle (second.subset (first.subset read))).weaken ?_ fun _ _ => id
  rintro h₃ - ⟨accounts, accounted, third⟩
  have kept {ev : Event ports} (there : ev ∈ h₁) : ev ∈ h₃ := third.subset (second.subset there)
  refine ⟨⟨preferences, today, transactions, budgets, transactions', accounts⟩,
    ⟨kept (first.subset read), ⟨createdAt, kept (first.subset clock)⟩, fun on => kept (listed on),
      fun on => ⟨third.subset (budgeted on).1, third.subset (budgeted on).2⟩, accounted⟩, ?_⟩
  have all := ((start.trans first).trans second).trans third
  simpa [Seen.due, Seen.derives] using all

theorem Seen.Read.snoc {seen : Seen} (read : seen.Read userId h) (ev : Event ports) : seen.Read userId (h ++ [ev]) where
  preferences := List.mem_append_left _ read.preferences
  today := read.today.imp fun _ => List.mem_append_left _
  transactions on := List.mem_append_left _ (read.transactions on)
  budgets on := ⟨List.mem_append_left _ (read.budgets on).1, List.mem_append_left _ (read.budgets on).2⟩
  accounts := List.mem_append_left _ read.accounts

/-- What was listed and unread is marked after that. -/
def MarksAll (userId : String) (h : List (Event ports)) : Prop :=
  ∃ first rows rest, h = first ++ ⟨.list userId, rows⟩ :: rest ∧
    ∀ row ∈ rows, row.readAt = none → ∃ at_ marked, ⟨.markRead userId row.id at_, marked⟩ ∈ rest

theorem markEach_asks {readAt : Nat} {unread : List UserNotification}
    (idle : pending h = none) : Task.Asks (I := ports) Prompt (fun h' _ => ∃ more, h' = h ++ more ∧ pending h' = none ∧
      ∀ row ∈ unread, ∃ marked, ⟨.markRead userId row.id readAt, marked⟩ ∈ more) err h (markEach userId readAt unread) := by
  induction unread generalizing h with
  | nil => exact ⟨[], by simp, idle, by simp⟩
  | cons row unread ih =>
    refine plain_bind idle rfl fun marked => (ih (pending_snoc _ _)).weaken ?_ fun _ _ => id
    rintro h' - ⟨more, rfl, idle', all⟩
    refine ⟨⟨.markRead userId row.id readAt, marked⟩ :: more, by simp, idle', fun row' there => ?_⟩
    rcases List.mem_cons.mp there with rfl | there
    · exact ⟨marked, List.mem_cons_self⟩
    · obtain ⟨marked', there⟩ := all row' there
      exact ⟨marked', List.mem_cons_of_mem _ there⟩

/-- What a request has done when it succeeds. -/
def Done (F : Formats) (h : List (Event ports)) : Request → Prop
  | .list userId => ∃ seen : Seen, seen.Read userId h ∧ ∀ alert ∈ seen.due F, ∃ ev ∈ h, sent ev = some (userId, alert)
  | .markAllRead userId => MarksAll userId h
  | _ => True

theorem handle_asks (r : Request) : Task.Asks (I := ports) Prompt (fun h _ => pending h = none ∧ Done F h r)
    (fun h _ => pending h = none) [] (handle F r) := by
  have idle : pending [] = none := rfl
  cases r with
  | list userId =>
    refine Task.asks_map.mpr (Task.asks_bind.mpr ((refreshDerived_asks idle).weaken ?_ fun _ _ => id))
    rintro h - ⟨seen, read, sends⟩
    refine plain_call (c := .list userId) sends.idle rfl fun rows => ⟨pending_snoc _ _, seen, read.snoc _, ?_⟩
    intro alert due
    obtain ⟨more, rfl, same⟩ := sends.more
    obtain ⟨ev, there, wish⟩ := List.mem_filterMap.mp (same ▸ List.mem_map_of_mem due)
    exact ⟨ev, by simp [there], wish⟩
  | preferences userId =>
    exact Task.asks_map.mpr (plain_call (c := .getPreferences userId) idle rfl fun _ => ⟨pending_snoc _ _, trivial⟩)
  | updatePreferences userId patch =>
    refine Task.asks_map.mpr (plain_bind idle rfl fun current => plain_bind (pending_snoc _ _) rfl fun _ => ?_)
    exact ⟨pending_snoc _ _, trivial⟩
  | markRead userId id =>
    refine Task.asks_map.mpr (plain_bind idle rfl fun clock => plain_bind (pending_snoc _ _) rfl fun marked => ?_)
    cases marked with
    | true => exact ⟨pending_snoc _ _, trivial⟩
    | false => exact pending_snoc _ _
  | markAllRead userId =>
    refine Task.asks_map.mpr (plain_bind idle rfl fun rows => ?_)
    dsimp only
    split
    · rename_i none_
      refine ⟨pending_snoc _ _, [], rows, [], rfl, fun row there unread => ?_⟩
      have listed : row ∈ rows.filter (·.readAt.isNone) := List.mem_filter.mpr ⟨there, by simp [unread]⟩
      rw [none_] at listed
      cases listed
    · refine plain_bind (pending_snoc _ _) rfl fun (today, readAt) => ?_
      refine (markEach_asks (pending_snoc _ _)).weaken ?_ fun _ _ => id
      rintro h - ⟨more, rfl, idle', all⟩
      refine ⟨idle', [], rows, ⟨.clock, (today, readAt)⟩ :: more, by simp, fun row there unread => ?_⟩
      obtain ⟨marked, there⟩ := all row (List.mem_filter.mpr ⟨there, by simp [unread]⟩)
      exact ⟨readAt, marked, List.mem_cons_of_mem _ there⟩
  | notifySyncFailure userId linkId institutionName code =>
    refine Task.asks_map.mpr (plain_bind idle rfl fun preferences => enabled_asks ?_ fun _ => ⟨pending_snoc _ _, trivial⟩)
    intro on
    refine plain_bind (pending_snoc _ _) rfl fun (today, createdAt) => Task.asks_bind.mpr ?_
    refine (create_asks (pending_snoc _ _) (by simp; rfl) ?_).weaken (fun _ _ sends => ⟨sends.idle, trivial⟩) fun _ _ => id
    exact on

end Requests

/-! ### Runs -/

/-- Something a request did, with where it was done. -/
abbrev Deed : Type := Entry ports Env Store Request

/-- The row is the same one, and stays read once it is. -/
structure Later (row row' : UserNotification) : Prop where
  alert : row'.toDerivedFinancialAlert = row.toDerivedFinancialAlert
  id : row'.id = row.id
  createdAt : row'.createdAt = row.createdAt
  readAt : row.readAt.isSome = true → row'.readAt = row.readAt

/-- The rows that were pushed, in order. -/
def pushes (log : List Deed) : List (String × Nat) :=
  log.filterMap fun e => match e.op with
    | .deliver userId message => some (userId, message.notificationId)
    | _ => none

/-- What holds of the centre at any point of a run. -/
structure Sound (adapter : Adapter) (log : List Deed) (threads : List (Thread ports Request (Except HttpError Response)))
    (st : Store) : Prop where
  unique : ∀ userId, ((st.bucket userId).map (·.dedupeKey)).Nodup
  kept : ∀ before after, log = before ++ after → ∀ userId, ∀ row ∈ (ending (machine adapter) {} before).bucket userId,
    ∃ row' ∈ st.bucket userId, Later row row'
  pushedOnce : (pushes log).Nodup
  pushed : ∀ userId id, (userId, id) ∈ pushes log → ∃ row ∈ st.bucket userId, row.id = id
  pushedAll : (∀ thread ∈ threads, thread.prog.isRet = true) → ∀ userId, ∀ row ∈ st.bucket userId,
    (userId, row.id) ∈ pushes log
  asked : ∀ userId, ∀ row ∈ st.bucket userId, ∃ e ∈ log,
    (∃ createdAt, e.op = .upsert userId row.toDerivedFinancialAlert createdAt) ∧
      ∃ preferences, ⟨.getPreferences userId, preferences⟩ ∈ own (machine adapter) log e.thread ∧
        wanted preferences row.kind = true

section Runs

open Pool

variable {X : Context} {adapter : Adapter} {cond : List Deed → Deed → Prop} {log before after : List Deed} {e : Deed}
  {st : Store} {c : Pool ports Store Request (Except HttpError Response)} {userId : String}

theorem Later.refl (row : UserNotification) : Later row row := ⟨rfl, rfl, rfl, fun _ => rfl⟩

theorem Later.trans {a b d : UserNotification} (first : Later a b) (second : Later b d) : Later a d where
  alert := second.alert.trans first.alert
  id := second.id.trans first.id
  createdAt := second.createdAt.trans first.createdAt
  readAt read := by
    have same := first.readAt read
    rw [second.readAt (by rw [same, read]), same]

theorem later_refl (rows : List UserNotification) : List.Forall₂ Later rows rows := List.forall₂_same.mpr fun row _ => .refl row

theorem map_of_later {β : Type} {f : UserNotification → β} {rows rows' : List UserNotification}
    (later : List.Forall₂ Later rows rows') (same : ∀ a b, Later a b → f b = f a) : rows'.map f = rows.map f := by
  induction later with
  | nil => rfl
  | cons first _ ih => rw [List.map_cons, List.map_cons, same _ _ first, ih]

theorem bucket_set (st : Store) (userId other : String) (rows : List UserNotification) (supply : Nat) :
    ({ st with rows := st.rows.set userId rows, supply } : Store).bucket other =
      if userId = other then rows else st.bucket other := by
  unfold Store.bucket
  rw [OrdMap.get?_set]
  split <;> rfl

theorem of_perform (adapter : Adapter) (e : Deed) {r : Call.Reply e.op} {s : Store} (done : perform adapter e.op e.input e.before = (r, s)) :
    e.event (machine adapter) = ⟨e.op, r⟩ ∧ e.after (machine adapter) = s :=
  ⟨congrArg (fun reply => (⟨e.op, reply⟩ : Event ports)) (congrArg Prod.fst done), congrArg Prod.snd done⟩

/-- What a deed does to the rows: it adds one with a key and an id that are new, or it reads some. -/
theorem deed_rows (adapter : Adapter) (e : Deed) :
    (∃ userId alert createdAt, e.event (machine adapter) = ⟨.upsert userId alert createdAt, some e.before.supply⟩ ∧
      (∀ row ∈ e.before.bucket userId, row.dedupeKey ≠ alert.dedupeKey) ∧
      (e.after (machine adapter)).bucket userId = e.before.bucket userId ++
        [{ toDerivedFinancialAlert := alert, id := e.before.supply, readAt := none, createdAt }] ∧
      (∀ other, userId ≠ other → (e.after (machine adapter)).bucket other = e.before.bucket other) ∧
      (e.after (machine adapter)).supply = e.before.supply + 1) ∨
    stored (e.event (machine adapter)) = none ∧
      (∀ userId, List.Forall₂ Later (e.before.bucket userId) ((e.after (machine adapter)).bucket userId)) ∧
      e.before.supply ≤ (e.after (machine adapter)).supply := by
  obtain ⟨thread, req, op, env, st⟩ := e
  cases op with
  | upsert userId alert createdAt =>
    by_cases known : (st.bucket userId).any (·.dedupeKey == alert.dedupeKey) = true
    · right
      obtain ⟨event, after⟩ := of_perform adapter ⟨thread, req, .upsert userId alert createdAt, env, st⟩
        (r := none) (s := { st with supply := st.supply + 1 }) (if_pos known)
      rw [event, after]
      exact ⟨rfl, fun _ => later_refl _, Nat.le_succ _⟩
    · left
      obtain ⟨event, after⟩ := of_perform adapter ⟨thread, req, .upsert userId alert createdAt, env, st⟩
        (if_neg known)
      rw [event, after]
      refine ⟨userId, alert, createdAt, rfl, fun row there same => known ?_, ?_, fun other differ => ?_, rfl⟩
      · exact List.any_eq_true.mpr ⟨row, there, beq_iff_eq.mpr same⟩
      · rw [bucket_set, if_pos rfl]
      · rw [bucket_set, if_neg differ]
  | markRead userId id at_ =>
    right
    by_cases known : (st.bucket userId).any (·.id == id) = true
    · obtain ⟨event, after⟩ := of_perform adapter ⟨thread, req, .markRead userId id at_, env, st⟩
        (if_pos known)
      rw [event, after]
      refine ⟨rfl, fun other => ?_, Nat.le_refl _⟩
      rw [bucket_set]
      by_cases same : userId = other
      · subst same
        rw [if_pos rfl, List.forall₂_map_right_iff]
        refine List.forall₂_same.mpr fun row _ => ?_
        by_cases hit : row.id = id
        · rw [if_pos hit]
          refine ⟨rfl, rfl, rfl, fun read => ?_⟩
          obtain ⟨at', read⟩ := Option.isSome_iff_exists.mp read
          rw [read]
          rfl
        · rw [if_neg hit]
          exact .refl row
      · rw [if_neg same]
        exact later_refl _
    · obtain ⟨event, after⟩ := of_perform adapter ⟨thread, req, .markRead userId id at_, env, st⟩
        (if_neg known)
      rw [event, after]
      exact ⟨rfl, fun _ => later_refl _, Nat.le_refl _⟩
  | _ => exact .inr ⟨rfl, fun _ => later_refl _, Nat.le_refl _⟩

theorem deed_prompt (recorded : Recorded (system X) {} cond (before ++ e :: after) c) :
    Prompt (own (machine X.adapter) before e.thread) e.op :=
  recorded.asks (handle_asks e.req)

theorem exists_later {rows rows' : List UserNotification} (later : List.Forall₂ Later rows rows')
    {row : UserNotification} (there : row ∈ rows) : ∃ row' ∈ rows', Later row row' := by
  induction later with
  | nil => cases there
  | cons first _ ih =>
    rcases List.mem_cons.mp there with rfl | there
    · exact ⟨_, List.mem_cons_self, first⟩
    · obtain ⟨row', there', later⟩ := ih there
      exact ⟨row', List.mem_cons_of_mem _ there', later⟩

/-- No row goes away. -/
theorem later_since (recorded : Recorded (system X) {} cond (before ++ after) c) {row : UserNotification}
    (there : row ∈ (ending (machine X.adapter) {} before).bucket userId) :
    ∃ row' ∈ (ending (machine X.adapter) {} (before ++ after)).bucket userId, Later row row' := by
  refine recorded.since (P := fun mid => ∃ row' ∈ (ending (machine X.adapter) {} (before ++ mid)).bucket userId,
    Later row row') ?_ ?_
  · exact ⟨row, by rwa [List.append_nil], .refl row⟩
  · rintro mid e rest rfl here - ⟨row', there', later⟩
    have here : e.before = ending (machine X.adapter) {} (before ++ mid) := here
    rw [← List.append_assoc, ending_snoc]
    rw [← here] at there'
    rcases deed_rows X.adapter e with ⟨owner, alert, createdAt, -, -, mine, others, -⟩ | ⟨-, kept, -⟩
    · by_cases same : owner = userId
      · subst same
        exact ⟨row', by rw [mine]; exact List.mem_append_left _ there', later⟩
      · exact ⟨row', by rwa [others userId same], later⟩
    · obtain ⟨row'', there'', later'⟩ := exists_later (kept userId) there'
      exact ⟨row'', there'', later.trans later'⟩

def Store.ids (st : Store) (userId : String) : List Nat := (st.bucket userId).map (·.id)

/-- Rows have keys of their own. Each is pushed, or waits for it in one request, and not both. -/
structure PushInv (adapter : Adapter) (log : List Deed) (st : Store) : Prop where
  unique : ∀ userId, ((st.bucket userId).map (·.dedupeKey)).Nodup
  below : ∀ userId, ∀ id ∈ st.ids userId, id < st.supply
  once : (pushes log).Nodup
  pushed : ∀ x ∈ pushes log, x.2 ∈ st.ids x.1
  waits : ∀ n x, pending (own (machine adapter) log n) = some x → x.2 ∈ st.ids x.1 ∧ x ∉ pushes log
  alone : ∀ n m x, pending (own (machine adapter) log n) = some x → pending (own (machine adapter) log m) = some x → n = m
  covered : ∀ userId, ∀ id ∈ st.ids userId,
    (userId, id) ∈ pushes log ∨ ∃ n, pending (own (machine adapter) log n) = some (userId, id)

theorem pending_own (e : Deed) (n : Nat) : pending (own (machine adapter) (log ++ [e]) n) =
    if e.thread = n then stored (e.event (machine adapter)) else pending (own (machine adapter) log n) := by
  rw [own_snoc]
  by_cases mine : e.thread = n
  · rw [if_pos mine, if_pos mine, pending_snoc]
  · rw [if_neg mine, if_neg mine]

/-- A request that is to push does nothing else. -/
theorem idle_unless (prompt : Prompt (own (machine adapter) log e.thread) e.op)
    (other : ∀ userId message, e.op ≠ .deliver userId message) : pending (own (machine adapter) log e.thread) = none := by
  cases waits : pending (own (machine adapter) log e.thread) with
  | none => rfl
  | some x => exact absurd (prompt.push x waits) (other _ _)

theorem pushes_other (other : ∀ userId message, e.op ≠ .deliver userId message) : pushes (log ++ [e]) = pushes log := by
  have nothing : pushes [e] = [] := by
    obtain ⟨thread, req, op, env, st⟩ := e
    cases op with
    | deliver userId message => exact absurd rfl (other userId message)
    | _ => rfl
  rw [pushes, List.filterMap_append]
  exact (congrArg (pushes log ++ ·) nothing).trans (List.append_nil _)

/-- What is stored is new, and waits for the request. -/
theorem PushInv.adds {owner : String} {alert : DerivedFinancialAlert} {createdAt : Nat}
    (inv : PushInv adapter log e.before) (prompt : Prompt (own (machine adapter) log e.thread) e.op)
    (event : e.event (machine adapter) = ⟨.upsert owner alert createdAt, some e.before.supply⟩)
    (new : ∀ row ∈ e.before.bucket owner, row.dedupeKey ≠ alert.dedupeKey)
    (mine : (e.after (machine adapter)).bucket owner = e.before.bucket owner ++
        [{ toDerivedFinancialAlert := alert, id := e.before.supply, readAt := none, createdAt }])
    (others : ∀ other, owner ≠ other → (e.after (machine adapter)).bucket other = e.before.bucket other)
    (supply : (e.after (machine adapter)).supply = e.before.supply + 1) :
    PushInv adapter (log ++ [e]) (e.after (machine adapter)) := by
  have op : e.op = .upsert owner alert createdAt := (Entry.of_event event).1
  have notPush : ∀ userId message, e.op ≠ .deliver userId message := by
    intro userId message same
    rw [op] at same
    cases same
  have idle := idle_unless prompt notPush
  have waiting (n : Nat) : pending (own (machine adapter) (log ++ [e]) n) =
      if e.thread = n then some (owner, e.before.supply) else pending (own (machine adapter) log n) := by
    rw [pending_own, event]
    rfl
  have ids (userId : String) : (e.after (machine adapter)).ids userId =
      e.before.ids userId ++ if owner = userId then [e.before.supply] else [] := by
    unfold Store.ids
    by_cases same : owner = userId
    · subst same
      rw [mine, if_pos rfl, List.map_append]
      rfl
    · rw [others userId same, if_neg same, List.append_nil]
  have fresh (userId : String) : e.before.supply ∉ e.before.ids userId :=
    fun there => Nat.lt_irrefl _ (inv.below userId _ there)
  have unseen {m : Nat} : pending (own (machine adapter) log m) ≠ some (owner, e.before.supply) :=
    fun waits => fresh owner (inv.waits m _ waits).1
  constructor
  · intro userId
    by_cases same : owner = userId
    · subst same
      rw [mine, List.map_append, List.nodup_append]
      refine ⟨inv.unique owner, List.nodup_singleton _, ?_⟩
      rintro key there _ now rfl
      obtain ⟨row, listed, rfl⟩ := List.mem_map.mp there
      exact new row listed (List.mem_singleton.mp now)
    · rw [others userId same]
      exact inv.unique userId
  · intro userId id there
    rw [ids, List.mem_append] at there
    rw [supply]
    rcases there with there | now
    · exact Nat.lt_succ_of_lt (inv.below userId id there)
    · split at now
      · rw [List.mem_singleton.mp now]
        exact Nat.lt_succ_self _
      · cases now
  · rw [pushes_other notPush]
    exact inv.once
  · intro x there
    rw [pushes_other notPush] at there
    rw [ids]
    exact List.mem_append_left _ (inv.pushed x there)
  · intro n x waits
    rw [waiting] at waits
    rw [pushes_other notPush, ids]
    by_cases self : e.thread = n
    · rw [if_pos self] at waits
      obtain rfl := Option.some.inj waits
      exact ⟨by simp, fun there => fresh owner (inv.pushed _ there)⟩
    · rw [if_neg self] at waits
      exact ⟨List.mem_append_left _ (inv.waits n x waits).1, (inv.waits n x waits).2⟩
  · intro n m x first second
    rw [waiting] at first second
    by_cases self : e.thread = n
    · by_cases self' : e.thread = m
      · exact self.symm.trans self'
      · rw [if_pos self] at first
        rw [if_neg self', ← first] at second
        exact absurd second unseen
    · rw [if_neg self] at first
      by_cases self' : e.thread = m
      · rw [if_pos self'] at second
        rw [← second] at first
        exact absurd first unseen
      · rw [if_neg self'] at second
        exact inv.alone n m x first second
  · intro userId id there
    rw [ids, List.mem_append] at there
    rw [pushes_other notPush]
    rcases there with there | now
    · refine (inv.covered userId id there).imp_right ?_
      rintro ⟨n, waits⟩
      refine ⟨n, ?_⟩
      rw [waiting, if_neg]
      · exact waits
      · rintro rfl
        rw [idle] at waits
        cases waits
    · split at now
      · rename_i same
        subst same
        obtain rfl := List.mem_singleton.mp now
        exact .inr ⟨e.thread, by rw [waiting, if_pos rfl]⟩
      · cases now

/-- What is pushed waited for it, and does no more. -/
theorem PushInv.pushing {userId : String} {message : PushMessage} (inv : PushInv adapter log e.before)
    (prompt : Prompt (own (machine adapter) log e.thread) e.op) (op : e.op = .deliver userId message) :
    PushInv adapter (log ++ [e]) (e.after (machine adapter)) := by
  obtain ⟨id, waited, rfl⟩ := prompt.pushed userId message op
  obtain ⟨listed, unpushed⟩ := inv.waits e.thread _ waited
  have state : e.after (machine adapter) = e.before ∧ stored (e.event (machine adapter)) = none := by
    obtain ⟨thread, req, call, env, st⟩ := e
    obtain rfl : call = .deliver userId (pushFor id) := op
    exact ⟨rfl, rfl⟩
  have pushed : pushes (log ++ [e]) = pushes log ++ [(userId, id)] := by
    rw [pushes, List.filterMap_append]
    congr 1
    simp [op, pushFor]
  have waiting (n : Nat) : pending (own (machine adapter) (log ++ [e]) n) =
      if e.thread = n then none else pending (own (machine adapter) log n) := by
    rw [pending_own, state.2]
  rw [state.1]
  refine ⟨inv.unique, inv.below, ?_, ?_, ?_, ?_, ?_⟩
  · rw [pushed, List.nodup_append]
    refine ⟨inv.once, List.nodup_singleton _, ?_⟩
    rintro x there _ now rfl
    rw [List.mem_singleton.mp now] at there
    exact unpushed there
  · intro x there
    rw [pushed] at there
    rcases List.mem_append.mp there with there | now
    · exact inv.pushed x there
    · rw [List.mem_singleton.mp now]
      exact listed
  · intro n x waits
    rw [waiting] at waits
    split at waits
    · cases waits
    · rename_i other
      refine ⟨(inv.waits n x waits).1, fun there => ?_⟩
      rw [pushed] at there
      rcases List.mem_append.mp there with there | now
      · exact (inv.waits n x waits).2 there
      · rw [List.mem_singleton.mp now] at waits
        exact other (inv.alone _ _ _ waited waits)
  · intro n m x first second
    rw [waiting] at first second
    split at first
    · cases first
    · split at second
      · cases second
      · exact inv.alone n m x first second
  · intro owner id' there
    rw [pushed]
    rcases inv.covered owner id' there with done | ⟨n, waits⟩
    · exact .inl (List.mem_append_left _ done)
    · by_cases self : e.thread = n
      · subst self
        rw [waited] at waits
        rw [← Option.some.inj waits]
        exact .inl (by simp)
      · exact .inr ⟨n, by rw [waiting, if_neg self, waits]⟩

theorem PushInv.next (inv : PushInv adapter log e.before) (prompt : Prompt (own (machine adapter) log e.thread) e.op) :
    PushInv adapter (log ++ [e]) (e.after (machine adapter)) := by
  rcases deed_rows adapter e with ⟨owner, alert, createdAt, event, new, mine, others, supply⟩ | ⟨quiet, kept, supply⟩
  · exact inv.adds prompt event new mine others supply
  · have ids (userId : String) : (e.after (machine adapter)).ids userId = e.before.ids userId :=
      map_of_later (kept userId) fun _ _ later => later.id
    have keys (userId : String) : ((e.after (machine adapter)).bucket userId).map (·.dedupeKey) =
        (e.before.bucket userId).map (·.dedupeKey) :=
      map_of_later (kept userId) fun _ _ later => congrArg DerivedFinancialAlert.dedupeKey later.alert
    by_cases push : ∃ userId message, e.op = .deliver userId message
    · obtain ⟨userId, message, op⟩ := push
      exact inv.pushing prompt op
    · have notPush : ∀ userId message, e.op ≠ .deliver userId message := fun userId message op => push ⟨userId, message, op⟩
      have waiting (n : Nat) : pending (own (machine adapter) (log ++ [e]) n) = pending (own (machine adapter) log n) := by
        rw [pending_own, quiet]
        by_cases self : e.thread = n
        · rw [if_pos self, ← self, idle_unless prompt notPush]
        · rw [if_neg self]
      constructor
      · simpa only [keys] using inv.unique
      · simpa only [ids] using fun userId id there => Nat.lt_of_lt_of_le (inv.below userId id there) supply
      · simpa only [pushes_other notPush] using inv.once
      · simpa only [pushes_other notPush, ids] using inv.pushed
      · simpa only [pushes_other notPush, ids, waiting] using inv.waits
      · simpa only [waiting] using inv.alone
      · simpa only [pushes_other notPush, ids, waiting] using inv.covered

theorem push_inv (recorded : Recorded (system X) {} cond log c) :
    PushInv X.adapter log (ending (machine X.adapter) {} log) := by
  refine recorded.induct (P := fun log => PushInv X.adapter log (ending (machine X.adapter) {} log)) ?_ ?_
  · have nobody : ∀ userId, ({} : Store).bucket userId = [] := fun _ => rfl
    constructor
    case alone =>
      intro n m x waits
      cases waits
    all_goals simp [nobody, Store.ids, pushes, own, pending]
  · intro log e c recorded here _ sofar
    have here : e.before = ending (machine X.adapter) {} log := here
    rw [ending_snoc]
    rw [← here] at sofar
    exact sofar.next (deed_prompt recorded)

/-- A request whose thread has ended has nothing to push. -/
theorem idle_of_ret (recorded : Recorded (system X) {} cond log c)
    (ended : ∀ thread ∈ c.threads, thread.prog.isRet = true) (n : Nat) :
    pending (own (machine X.adapter) log n) = none := by
  cases found : c.threads[n]? with
  | none =>
    have nothing : own (machine X.adapter) log n = [] := by
      refine List.map_eq_nil_iff.mpr (List.filter_eq_nil_iff.mpr fun e done => ?_)
      obtain ⟨thread, there, -⟩ := recorded.thread done
      rw [beq_iff_eq]
      rintro rfl
      rw [found] at there
      cases there
    rw [nothing]
    rfl
  | some thread =>
    have ret := ended thread (List.mem_of_getElem? found)
    obtain ⟨r, prog⟩ := thread
    cases prog with
    | ret a =>
      have done := recorded.finished found (handle_asks r)
      cases a with
      | ok => exact done.1
      | error => exact done
    | act => cases ret

theorem own_append (e : Deed) (n : Nat) : own (machine adapter) log n ⊆ own (machine adapter) (log ++ [e]) n := by
  rw [own_snoc]
  split
  · exact List.subset_append_left _ _
  · exact List.Subset.refl _

/-- Each row was asked for when its kind was wanted. -/
theorem rows_asked (recorded : Recorded (system X) {} cond log c) :
    ∀ userId, ∀ row ∈ (ending (machine X.adapter) {} log).bucket userId, ∃ e ∈ log,
      (∃ createdAt, e.op = .upsert userId row.toDerivedFinancialAlert createdAt) ∧
        ∃ preferences, ⟨.getPreferences userId, preferences⟩ ∈ own (machine X.adapter) log e.thread ∧
          wanted preferences row.kind = true := by
  refine recorded.induct (P := fun log => ∀ userId, ∀ row ∈ (ending (machine X.adapter) {} log).bucket userId, ∃ e ∈ log,
    (∃ createdAt, e.op = .upsert userId row.toDerivedFinancialAlert createdAt) ∧
      ∃ preferences, ⟨.getPreferences userId, preferences⟩ ∈ own (machine X.adapter) log e.thread ∧
        wanted preferences row.kind = true) ?_ ?_
  · intro userId row there
    cases there
  · intro log e c recorded here _ sofar userId row there
    have here : e.before = ending (machine X.adapter) {} log := here
    rw [ending_snoc] at there
    rw [← here] at sofar
    have old {row' : UserNotification} (there : row' ∈ e.before.bucket userId)
        (same : row'.toDerivedFinancialAlert = row.toDerivedFinancialAlert) : ∃ e' ∈ log ++ [e],
        (∃ createdAt, e'.op = .upsert userId row.toDerivedFinancialAlert createdAt) ∧
          ∃ preferences, ⟨.getPreferences userId, preferences⟩ ∈ own (machine X.adapter) (log ++ [e]) e'.thread ∧
            wanted preferences row.kind = true := by
      obtain ⟨e', done, asked, preferences, read, want⟩ := sofar userId row' there
      rw [same] at asked want
      exact ⟨e', List.mem_append_left _ done, asked, preferences, own_append e _ read, want⟩
    rcases deed_rows X.adapter e with ⟨owner, alert, createdAt, event, -, mine, others, -⟩ | ⟨-, kept, -⟩
    · by_cases same : owner = userId
      · subst same
        rw [mine, List.mem_append] at there
        rcases there with there | now
        · exact old there rfl
        · obtain rfl := List.mem_singleton.mp now
          have op : e.op = .upsert owner alert createdAt := (Entry.of_event event).1
          obtain ⟨preferences, read, want⟩ := (deed_prompt recorded).known owner alert createdAt op
          exact ⟨e, by simp, ⟨createdAt, op⟩, preferences, own_append e _ read, want⟩
      · rw [others userId same] at there
        exact old there rfl
    · have alerts : ((e.after (machine X.adapter)).bucket userId).map (·.toDerivedFinancialAlert) =
          (e.before.bucket userId).map (·.toDerivedFinancialAlert) :=
        map_of_later (kept userId) fun _ _ later => later.alert
      obtain ⟨row', there', same⟩ := List.mem_map.mp (alerts ▸ List.mem_map_of_mem there)
      exact old there' same

/-- However the requests overlap: a user has no two rows with one key, no row goes away or is unread again,
each row is pushed once, and its kind was wanted when the request that stored it looked. -/
theorem notifications_sound (recorded : Recorded (system X) {} cond log c) : Sound X.adapter log c.threads c.state := by
  have inv := push_inv recorded
  have state : c.state = ending (machine X.adapter) {} log := recorded.state
  rw [← state] at inv
  refine ⟨inv.unique, ?_, inv.once, ?_, ?_, ?_⟩
  · rintro before after rfl userId row there
    rw [state]
    exact later_since recorded there
  · intro userId id there
    exact List.mem_map.mp (inv.pushed _ there)
  · intro ended userId row there
    rcases inv.covered userId row.id (List.mem_map_of_mem there) with done | ⟨n, waits⟩
    · exact done
    · rw [idle_of_ret recorded ended] at waits
      cases waits
  · rw [state]
    exact rows_asked recorded

/-! ### What requests come to -/

/-- A row with the key is there, whether it was stored now or before. -/
theorem upserted (adapter : Adapter) {alert : DerivedFinancialAlert} {createdAt : Nat} (op : e.op = .upsert userId alert createdAt) :
    ∃ row ∈ (e.after (machine adapter)).bucket userId, row.dedupeKey = alert.dedupeKey := by
  obtain ⟨thread, req, call, env, st⟩ := e
  obtain rfl : call = .upsert userId alert createdAt := op
  by_cases known : (st.bucket userId).any (·.dedupeKey == alert.dedupeKey) = true
  · obtain ⟨-, after⟩ := of_perform adapter ⟨thread, req, .upsert userId alert createdAt, env, st⟩
      (r := none) (s := { st with supply := st.supply + 1 }) (if_pos known)
    rw [after]
    obtain ⟨row, there, same⟩ := List.any_eq_true.mp known
    exact ⟨row, there, beq_iff_eq.mp same⟩
  · obtain ⟨-, after⟩ := of_perform adapter ⟨thread, req, .upsert userId alert createdAt, env, st⟩ (if_neg known)
    rw [after]
    exact ⟨{ toDerivedFinancialAlert := alert, id := st.supply, readAt := none, createdAt },
      by rw [bucket_set, if_pos rfl]; simp, rfl⟩

/-- A row that is marked is read from then on. -/
theorem marked (adapter : Adapter) {id at_ : Nat} (op : e.op = .markRead userId id at_) {row : UserNotification}
    (there : row ∈ e.before.bucket userId) (same : row.id = id) :
    ∃ row' ∈ (e.after (machine adapter)).bucket userId, Later row row' ∧ row'.readAt.isSome = true := by
  obtain ⟨thread, req, call, env, st⟩ := e
  obtain rfl : call = .markRead userId id at_ := op
  have known : (st.bucket userId).any (·.id == id) = true := List.any_eq_true.mpr ⟨row, there, beq_iff_eq.mpr same⟩
  obtain ⟨-, after⟩ := of_perform adapter ⟨thread, req, .markRead userId id at_, env, st⟩ (if_pos known)
  rw [after, bucket_set, if_pos rfl]
  refine ⟨_, List.mem_map_of_mem there, ?_⟩
  rw [if_pos same]
  refine ⟨⟨rfl, rfl, rfl, fun read => ?_⟩, rfl⟩
  obtain ⟨at', read⟩ := Option.isSome_iff_exists.mp read
  rw [read]
  rfl

/-- A row that is there after a deed is there at the end. -/
theorem later_after (recorded : Recorded (system X) {} cond (before ++ e :: after) c) {row : UserNotification}
    (there : row ∈ (e.after (machine X.adapter)).bucket userId) : ∃ row' ∈ c.state.bucket userId, Later row row' := by
  have state : c.state = ending (machine X.adapter) {} (before ++ e :: after) := recorded.state
  rw [List.append_cons] at recorded state
  rw [state]
  refine later_since recorded ?_
  rw [ending_snoc]
  exact there

theorem sent_upsert {alert : DerivedFinancialAlert} (wish : sent (e.event (machine adapter)) = some (userId, alert)) :
    ∃ createdAt, e.op = .upsert userId alert createdAt := by
  obtain ⟨thread, req, op, env, st⟩ := e
  cases op with
  | upsert owner due createdAt =>
    obtain ⟨rfl, rfl⟩ := Prod.mk.inj (Option.some.inj wish)
    exact ⟨createdAt, rfl⟩
  | _ => cases wish

theorem mem_bucket_of_list {row : UserNotification} (there : row ∈ st.list adapter userId) : row ∈ st.bucket userId := by
  cases adapter with
  | inMemory => exact (List.mem_insertionSort _).mp there
  | postgres idLe => exact (List.mem_insertionSort _).mp (List.mem_of_mem_take there)

theorem mem_list_of_bucket {row : UserNotification} (whole : adapter = .inMemory ∨ (st.bucket userId).length ≤ 200)
    (there : row ∈ st.bucket userId) : row ∈ st.list adapter userId := by
  cases adapter with
  | inMemory => exact (List.mem_insertionSort _).mpr there
  | postgres idLe =>
    have few : (st.bucket userId).length ≤ 200 := whole.resolve_left (by simp)
    unfold Store.list
    dsimp only
    rw [List.take_of_length_le (by rw [List.length_insertionSort]; exact few)]
    exact (List.mem_insertionSort _).mpr there

/-- What a refresh found to tell is there when the list is answered, however many requests overlap. -/
theorem list_stores_due (recorded : Recorded (system X) {} cond log c) {n : Nat} {response : Response}
    (finished : c.Finished n (.list userId) (.ok response)) :
    ∃ seen : Seen, seen.Read userId (own (machine X.adapter) log n) ∧
      ∀ alert ∈ seen.due X.formats, ∃ row ∈ c.state.bucket userId, row.dedupeKey = alert.dedupeKey := by
  obtain ⟨-, seen, read, all⟩ := recorded.finished finished (handle_asks (F := X.formats) (.list userId))
  refine ⟨seen, read, fun alert due => ?_⟩
  obtain ⟨ev, there, wish⟩ := all alert due
  obtain ⟨e, done, -, rfl⟩ := mem_own.mp there
  obtain ⟨createdAt, op⟩ := sent_upsert wish
  obtain ⟨row, stored, key⟩ := upserted X.adapter op
  obtain ⟨before, after, rfl⟩ := List.append_of_mem done
  obtain ⟨row', there', later⟩ := later_after recorded stored
  exact ⟨row', there', by rw [later.alert, key]⟩

/-- Who marks everything as read has read what was listed; that is everything there was, unless the database
has more rows than it lists. -/
theorem markAllRead_reads (recorded : Recorded (system X) {} cond log c) {n : Nat} {response : Response}
    (finished : c.Finished n (.markAllRead userId) (.ok response)) :
    ∃ before e after, log = before ++ e :: after ∧ e.thread = n ∧ e.op = .list userId ∧
      (∀ row ∈ e.before.list X.adapter userId, ∃ row' ∈ c.state.bucket userId, Later row row' ∧ row'.readAt.isSome = true) ∧
      ((X.adapter = .inMemory ∨ (e.before.bucket userId).length ≤ 200) → ∀ row ∈ e.before.bucket userId,
        ∃ row' ∈ c.state.bucket userId, Later row row' ∧ row'.readAt.isSome = true) := by
  obtain ⟨-, first, rows, rest, did, marks⟩ := recorded.finished finished (handle_asks (F := X.formats) (.markAllRead userId))
  obtain ⟨before, e, after, rfl, thread, event, -, rest_⟩ := own_split did
  obtain ⟨op, listed⟩ := Entry.of_event event
  have state : e.before = ending (machine X.adapter) {} before := recorded.step.1
  have reads : ∀ row ∈ e.before.list X.adapter userId,
      ∃ row' ∈ c.state.bucket userId, Later row row' ∧ row'.readAt.isSome = true := by
    intro row there
    have was : row ∈ (ending (machine X.adapter) {} before).bucket userId := state ▸ mem_bucket_of_list there
    cases unread : row.readAt with
    | some at_ =>
      obtain ⟨row', there', later⟩ := later_since recorded was
      refine ⟨row', recorded.state ▸ there', later, ?_⟩
      rw [later.readAt (by simp [unread]), unread]
      rfl
    | none =>
      obtain ⟨at_, ok, there''⟩ := marks row (by rw [← listed]; exact there) unread
      rw [← rest_] at there''
      obtain ⟨e', done, -, event'⟩ := mem_own.mp there''
      obtain ⟨mid, last, rfl⟩ := List.append_of_mem done
      have again : Recorded (system X) {} cond ((before ++ e :: mid) ++ e' :: last) c := by simpa using recorded
      have here : e'.before = ending (machine X.adapter) {} (before ++ e :: mid) := again.step.1
      obtain ⟨c', earlier⟩ := again.of_append
      obtain ⟨row', there', later⟩ := later_since earlier was
      obtain ⟨row'', there'', later', read⟩ := marked X.adapter (Entry.of_event event').1 (here ▸ there') later.id
      obtain ⟨row₃, there₃, later₃⟩ := later_after again there''
      refine ⟨row₃, there₃, (later.trans later').trans later₃, ?_⟩
      rw [later₃.readAt read, read]
  refine ⟨before, e, after, rfl, thread, op, reads, fun whole row there => reads row (mem_list_of_bucket whole there)⟩

end Runs

/-! ### Sam opens the centre, and marks what is there -/

def lowChecking : Account := ⟨"acc_1", "Everyday", .checking, "1234", "CAD", 15000, none⟩

def atNoon : Env := { now := 12, today := thirdOfMarch, accounts := [lowChecking] }

def samContext : Context := ⟨plain, .inMemory⟩

/-- Both sessions of Sam's refresh the centre at once; then all is marked as read. -/
def opened : Pool.Course ports Env Store Request (Except HttpError Response) :=
  Pool.course (system samContext) {} (
    [.start (.list "sam"), .start (.list "sam")] ++ List.replicate 6 (.run 0 atNoon) ++
      List.replicate 9 (.run 1 atNoon) ++ List.replicate 2 (.run 0 atNoon) ++
      .start (.markAllRead "sam") :: List.replicate 3 (.run 2 atNoon))

def lowBalanceRow (readAt : Option Nat) : UserNotification where
  toDerivedFinancialAlert := (lowBalanceAlert plain thirdOfMarch lowChecking).get rfl
  id := 0
  readAt
  createdAt := 12

theorem opened_sound : opened.2.state.bucket "sam" = [lowBalanceRow (some 12)] ∧ pushes opened.1 = [("sam", 0)] ∧
    Sound .inMemory opened.1 opened.2.threads opened.2.state :=
  ⟨rfl, rfl, notifications_sound (X := samContext) (Pool.course_recorded _ _ _)⟩

theorem opened_stores_due : ∃ seen : Seen, seen.Read "sam" (own (machine .inMemory) opened.1 1) ∧
    ∀ alert ∈ seen.due plain, ∃ row ∈ opened.2.state.bucket "sam", row.dedupeKey = alert.dedupeKey := by
  have finished : opened.2.Finished 1 (.list "sam") (.ok (.notifications [lowBalanceRow none])) := rfl
  exact list_stores_due (X := samContext) (Pool.course_recorded _ _ _) finished

theorem opened_reads : ∃ before e after, opened.1 = before ++ e :: after ∧ e.thread = 2 ∧ e.op = .list "sam" ∧
    (∀ row ∈ e.before.list .inMemory "sam", ∃ row' ∈ opened.2.state.bucket "sam", Later row row' ∧ row'.readAt.isSome = true) ∧
    ((Adapter.inMemory = .inMemory ∨ (e.before.bucket "sam").length ≤ 200) → ∀ row ∈ e.before.bucket "sam",
      ∃ row' ∈ opened.2.state.bucket "sam", Later row row' ∧ row'.readAt.isSome = true) := by
  have finished : opened.2.Finished 2 (.markAllRead "sam") (.ok .done) := rfl
  exact markAllRead_reads (X := samContext) (Pool.course_recorded _ _ _) finished

end Finverse.Notifications
