import Finverse.Framework.Delta
import Finverse.Ledger.MemoryStore

/-! The cursor sync of one bank link. The aggregator, the failures of the stores and the decisions
of the reconciliation passes are what an attempt meets. -/

namespace Finverse.Banking

open Finverse.Ledger

structure BankSyncPage where
  added : List RawTransaction
  modified : List RawTransaction
  removedProviderTxnIds : List String
  nextCursor : String
  hasMore : Bool
  deriving DecidableEq, Repr

/-- Where the work on a page is cut short. -/
inductive Fault
  | beforeUpsert
  | beforeRemoval
  deriving DecidableEq, Repr

/-- What the aggregator answers, and how far the work on its answer gets. -/
inductive Reply
  | page (page : BankSyncPage) (fault : Option Fault)
  | mutationDuringPagination
  | failure
  deriving DecidableEq, Repr

/-- One call of the aggregator. -/
structure Exchange where
  cursor : Option String
  reply : Reply
  deriving DecidableEq, Repr

inductive SyncError
  | bank
  | store
  | tooManyPages
  | cutShort
  deriving DecidableEq, Repr

structure SyncCounts where
  fetched : Nat
  inserted : Nat
  updated : Nat
  removed : Nat
  categorized : Nat
  deriving DecidableEq, Repr

def SyncCounts.zero : SyncCounts := ⟨0, 0, 0, 0, 0⟩

/-- The variables of the loop, the ledger, and the history of calls: those of the paginations given
up, and those of the current one. -/
structure Progress where
  cursor : Option String
  pageNumber : Nat
  mutationRetries : Nat
  counts : SyncCounts
  ledger : List Transaction
  abandoned : List Exchange
  calls : List Exchange

def Progress.start (cursor : Option String) (ledger : List Transaction) : Progress :=
  ⟨cursor, 0, 0, .zero, ledger, [], []⟩

def Progress.called (p : Progress) (reply : Reply) : Progress :=
  { p with calls := p.calls ++ [⟨p.cursor, reply⟩] }

variable (C : Categorizer)

/-- The rows of a page are written. -/
def Progress.upserted (p : Progress) (page : BankSyncPage) : Progress :=
  let raw := page.added ++ page.modified
  let mapped := raw.map (mapTransaction C)
  let (result, ledger) := InMemoryTransactionStore.upsertMany p.ledger mapped
  { p with
    ledger
    counts := { p.counts with
      fetched := p.counts.fetched + raw.length
      inserted := p.counts.inserted + result.inserted
      updated := p.counts.updated + result.updated
      categorized := p.counts.categorized + mapped.countP (·.categorySlug ≠ "unknown") } }

/-- The rows the page removes are deleted, and the cursor advances. -/
def Progress.advanced (p : Progress) (page : BankSyncPage) : Progress :=
  let (removed, ledger) :=
    InMemoryTransactionStore.removeByProviderIds p.ledger page.removedProviderTxnIds
  { p with
    ledger
    cursor := some page.nextCursor
    counts := { p.counts with removed := p.counts.removed + removed } }

/-- The pagination starts over from the cursor of its first page. -/
def Progress.restarted (p : Progress) (startingCursor : Option String) : Progress :=
  { p with
    cursor := startingCursor
    pageNumber := 0
    mutationRetries := p.mutationRetries + 1
    counts := .zero
    abandoned := p.abandoned ++ p.calls
    calls := [] }

/-- The loop over pages. When the replies run out, the process was stopped. -/
def pages (startingCursor : Option String) : List Reply → Progress → Except SyncError Unit × Progress
  | [], p => (.error .cutShort, p)
  | reply :: replies, p =>
    let p := p.called reply
    match reply with
    | .mutationDuringPagination =>
      if p.mutationRetries < 3 then pages startingCursor replies (p.restarted startingCursor)
      else (.error .bank, p)
    | .failure => (.error .bank, p)
    | .page _ (some .beforeUpsert) => (.error .store, p)
    | .page page (some .beforeRemoval) => (.error .store, p.upserted C page)
    | .page page none =>
      let p := (p.upserted C page).advanced page
      if page.hasMore = false then (.ok (), p)
      else if p.pageNumber = 99 then (.error .tooManyPages, p)
      else pages startingCursor replies { p with pageNumber := p.pageNumber + 1 }

/-- What the reconciliation passes write: a paired transfer, or a recurring flag. -/
inductive Derived
  | transfer
  | recurring (isRecurring : Bool)
  deriving DecidableEq, Repr

def Derived.patch : Derived → Transaction → Transaction
  | .transfer, t =>
    { t with
      categorySlug := "transfer"
      categorySource := .transferPairing
      categoryConfidence := 95 / 100 }
  | .recurring isRecurring, t => { t with isRecurring }

/-- The store's update of one row by id. -/
def update (rows : List Transaction) (id : String) (derived : Derived) : List Transaction :=
  match rows with
  | [] => []
  | t :: rows => if t.id = id then derived.patch t :: rows else t :: update rows id derived

/-- What one attempt meets: the replies, whether the link can be saved, the updates of the
reconciliation passes, and whether these passes finish. -/
structure Attempt where
  replies : List Reply
  linkSaved : Bool
  derived : List (String × Derived)
  reconciled : Bool

structure Synced where
  result : Except SyncError SyncCounts
  cursorSaved : Bool
  cursor : Option String
  ledger : List Transaction
  abandoned : List Exchange
  calls : List Exchange

/-- One attempt from the saved cursor. -/
def sync (cursor : Option String) (ledger : List Transaction) (a : Attempt) : Synced :=
  let (outcome, p) := pages C cursor a.replies (.start cursor ledger)
  match outcome with
  | .error e => ⟨.error e, false, cursor, p.ledger, p.abandoned, p.calls⟩
  | .ok _ =>
    if a.linkSaved then
      let reconciled := a.derived.foldl (fun rows d => update rows d.1 d.2) p.ledger
      ⟨if a.reconciled then .ok p.counts else .error .store, true, p.cursor, reconciled,
        p.abandoned, p.calls⟩
    else ⟨.error .store, false, cursor, p.ledger, p.abandoned, p.calls⟩

end Finverse.Banking
