import Finverse.Banking.Sync
import Finverse.Categorization.RuleStores
import Finverse.Imports.Service
import Finverse.Insights.Subscriptions
import Finverse.Statements.Service

/-! The ledger, the cache of analytics reports over it, and the calls that the services make. -/

namespace Finverse.Analytics

open Interleave Ledger
open Banking (BankSyncPage)
open Categorization (CategorizationRule InMemoryRuleApplications ModelPrediction RuleApplication
  RuleApplicationChange)
open Insights (DetectedSubscription)

structure DateRange where
  start : IsoDate
  end_ : IsoDate
  deriving DecidableEq, Repr

inductive Period
  | week
  | month
  | threeMonths
  | sixMonths
  | year
  | lifetime
  | custom
  deriving DecidableEq, Repr

/-- The source joins the parts with colons. Only the user's id, which comes first, could have one. -/
structure CacheKey where
  userId : String
  period : Period
  today : IsoDate
  customRange : Option DateRange
  currency : String
  deriving DecidableEq, Repr

structure CacheEntry (Report : Type) where
  report : Report
  expiresAt : Int
  deriving DecidableEq, Repr

abbrev AnalyticsCache (Report : Type) : Type := OrdMap CacheKey (CacheEntry Report)

inductive FinanceEventType
  | transactionImported
  | transactionUpdated
  | transactionCategorized
  | bankSyncCompleted
  | accountConnected
  | accountUpdated
  | accountDisconnected
  deriving DecidableEq, Repr

structure FinanceEvent where
  type : FinanceEventType
  userId : String
  deriving DecidableEq, Repr

namespace AnalyticsCache

variable {Report : Type}

def analyticsCacheTtlMs : Int := 30000

def analyticsCacheMaxEntries : Nat := 256

/-- A report that has not expired, or else none, and not one that has. -/
def find (cache : AnalyticsCache Report) (key : CacheKey) (now : Int) :
    Option Report × AnalyticsCache Report :=
  match (cache.get? key).filter fun cached => now < cached.expiresAt with
  | some cached => (some cached.report, cache)
  | none => (none, cache.erase key)

/-- Makes room by giving up the report that is there for the longest time. -/
def storeAnalyticsCache (cache : AnalyticsCache Report) (key : CacheKey) (report : Report) (now : Int) :
    AnalyticsCache Report :=
  let room :=
    if analyticsCacheMaxEntries ≤ cache.entries.length then
      match cache.entries.head? with
      | some (oldest, _) => cache.erase oldest
      | none => cache
    else cache
  room.set key ⟨report, now + analyticsCacheTtlMs⟩

def invalidating : List FinanceEventType :=
  [.transactionImported, .transactionUpdated, .transactionCategorized, .bankSyncCompleted,
    .accountConnected, .accountUpdated, .accountDisconnected]

def invalidateForEvent (cache : AnalyticsCache Report) (event : FinanceEvent) :
    AnalyticsCache Report :=
  if event.type ∉ invalidating then cache
  else cache.filter fun key _ => key.userId ≠ event.userId

end AnalyticsCache

/-- What the services rest on besides the calls: the tables of the runtime and what is computed of a
ledger, whatever that is. -/
structure Context (Report : Type) where
  imports : Imports.ImportsContext
  statements : Statements.Primitives
  addDays : IsoDate → Int → IsoDate
  detectSubscriptions : List Transaction → List DetectedSubscription
  internalTransferIds : List Transaction → List String
  correctionModel : List Transaction → String → Option ModelPrediction
  computeAnalytics : List Transaction → DateRange → String → IsoDate → Report

/-! ### Calls -/

/-- How a page of the aggregator fails. -/
inductive PageFailure
  | mutationDuringPagination
  | other (code : String)
  deriving DecidableEq, Repr

/-- The clock, and what the aggregator and the stores of other things reply. -/
structure Env where
  now : Int
  today : IsoDate := ""
  account : Option Account := none
  rules : List CategorizationRule := []
  aggregated : Except String (List RawTransaction) := .ok []
  cursor : Except HttpError (Option String) := .ok none
  page : Except PageFailure BankSyncPage := .ok ⟨[], [], [], "", false⟩

/-- One user's rule applications, without the transactions. -/
structure RuleApplications where
  byUser : List RuleApplication := []
  changesByApplication : List (String × List RuleApplicationChange) := []

structure World (Report : Type) where
  imports : Statements.Imports := {}
  batches : OrdMap String (List ImportBatch) := ∅
  applications : OrdMap String RuleApplications := ∅
  analyticsCache : AnalyticsCache Report := ∅

inductive Call (Report : Type)
  | lookup (userId : String) (period : Period) (asOf : Option IsoDate)
      (customRange : Option DateRange) (currency : String)
  | storeAnalyticsCache (key : CacheKey) (report : Report) (now : Int)
  | publish (event : FinanceEvent)
  | list (userId : String)
  | get (userId id : String)
  | update (userId id : String) (patch : TransactionPatch)
  | upsertMany (userId : String) (transactions : List Transaction)
  | removeByProviderIds (userId : String) (providerTxnIds : List String)
  | commitBatch (userId : String) (batch : ImportBatch) (transactions : List Transaction)
  | revertBatch (userId id at_ : String)
  | applyRule (userId : String) (application : RuleApplication) (changes : List RuleApplicationChange)
  | revertRule (userId id at_ : String)
  | statements (op : Statements.Operation)
  | account (userId id : String)
  | rules (userId : String)
  | createRule (userId : String) (rule : CategorizationRule)
  | aggregate (userId linkId : String)
  | startSync (userId linkId : String)
  | page (cursor : Option String)
  | linkHealthy (userId linkId : String) (cursor : Option String)
  | linkFailed (userId linkId : String)

/-- A report that was cached, or under which key and since when one is missing. -/
structure Lookup (Report : Type) where
  key : CacheKey
  now : Int
  cached : Option Report

@[reducible] def Call.Reply {Report : Type} : Call Report → Type
  | .lookup .. => Lookup Report
  | .list _ => List Transaction
  | .get .. | .update .. => Option Transaction
  | .upsertMany .. => UpsertCounts
  | .removeByProviderIds .. => Nat
  | .commitBatch .. => ImportBatch
  | .revertBatch .. | .revertRule .. => Option Nat
  | .applyRule .. => RuleApplication
  | .statements op => op.Reply
  | .account .. => Option Account
  | .rules _ => List CategorizationRule
  | .aggregate .. => Except String (List RawTransaction)
  | .startSync .. => Except HttpError (Option String)
  | .page _ => Except PageFailure BankSyncPage
  | .storeAnalyticsCache .. | .publish _ | .createRule .. | .linkHealthy .. | .linkFailed .. => Unit

abbrev ports (Report : Type) : Interface := ⟨Call Report, Call.Reply⟩

namespace World

variable {Report : Type} (w : World Report) (userId : String)

def ledgerOf : List Transaction := w.imports.ledgerOf userId

def putLedger (rows : List Transaction) : World Report :=
  { w with imports := { w.imports with ledger := w.imports.ledger.set userId rows } }

/-- The import batches of a user, with their ledger. -/
def importsOf : InMemoryImports := ⟨w.ledgerOf userId, (w.batches.get? userId).getD []⟩

def putImports (st : InMemoryImports) : World Report :=
  { w.putLedger userId st.transactions with batches := w.batches.set userId st.byUser }

/-- The rule applications of a user, with their ledger. -/
def applicationsOf : InMemoryRuleApplications :=
  let applications := (w.applications.get? userId).getD {}
  ⟨w.ledgerOf userId, applications.byUser, applications.changesByApplication⟩

def putApplications (st : InMemoryRuleApplications) : World Report :=
  { w.putLedger userId st.transactions with
    applications := w.applications.set userId ⟨st.byUser, st.changesByApplication⟩ }

end World

variable {Report : Type} (K : Context Report)

/-- The transactions of a user as they are listed. -/
def listed (w : World Report) (userId : String) : List Transaction :=
  Categorization.TransactionStore.list K.imports.text (w.ledgerOf userId)

/-- Runs one call. -/
def perform (call : Call Report) (env : Env) (w : World Report) : call.Reply × World Report :=
  match call with
  | .lookup userId period asOf customRange currency =>
    let key : CacheKey := ⟨userId, period, asOf.getD env.today, customRange, currency⟩
    let (cached, analyticsCache) := w.analyticsCache.find key env.now
    (⟨key, env.now, cached⟩, { w with analyticsCache })
  | .storeAnalyticsCache key report now =>
    ((), { w with analyticsCache := w.analyticsCache.storeAnalyticsCache key report now })
  | .publish event =>
    ((), { w with analyticsCache := w.analyticsCache.invalidateForEvent event })
  | .list userId => (listed K w userId, w)
  | .get userId id => (Table.lookup Transaction.id id (w.ledgerOf userId), w)
  | .update userId id patch =>
    let (updated, rows) := InMemoryTransactionStore.update (w.ledgerOf userId) id patch
    (updated, w.putLedger userId rows)
  | .upsertMany userId transactions =>
    let (counts, rows) := InMemoryTransactionStore.upsertMany (w.ledgerOf userId) transactions
    (counts, w.putLedger userId rows)
  | .removeByProviderIds userId providerTxnIds =>
    let (removed, rows) :=
      InMemoryTransactionStore.removeByProviderIds (w.ledgerOf userId) providerTxnIds
    (removed, w.putLedger userId rows)
  | .commitBatch userId batch transactions =>
    let (saved, st) := (w.importsOf userId).commit batch transactions
    (saved, w.putImports userId st)
  | .revertBatch userId id at_ =>
    let (removed, st) := (w.importsOf userId).revert id at_
    (removed, w.putImports userId st)
  | .applyRule userId application changes =>
    let (saved, st) :=
      Categorization.InMemoryRuleApplicationStore.apply (w.applicationsOf userId) application changes
    (saved, w.putApplications userId st)
  | .revertRule userId id at_ =>
    let (restored, st) :=
      Categorization.InMemoryRuleApplicationStore.revert (w.applicationsOf userId) id at_
    (restored, w.putApplications userId st)
  | .statements op =>
    let (reply, imports) := Statements.Adapter.memory.exec op w.imports
    (reply, { w with imports })
  | .account .. => (env.account, w)
  | .rules _ => (env.rules, w)
  | .createRule .. => ((), w)
  | .aggregate .. => (env.aggregated, w)
  | .startSync .. => (env.cursor, w)
  | .page _ => (env.page, w)
  | .linkHealthy .. => ((), w)
  | .linkFailed .. => ((), w)

def machine : Machine (ports Report) Env (World Report) where
  ready := fun _ _ _ => true
  exec := perform K

end Finverse.Analytics
