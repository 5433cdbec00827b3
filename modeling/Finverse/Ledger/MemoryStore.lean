import Finverse.Ledger.Types

/-! The in-memory stores of one user's ledger. -/

namespace Finverse.Ledger

namespace InMemoryTransactionStore

/-- What a stored row becomes when the provider sends it again. -/
def resync (existing txn : Transaction) : Transaction :=
  if existing.keepsUserCategory then
    { txn with
      id := existing.id
      merchantOverride := existing.merchantOverride
      note := existing.note
      excludedFromAnalytics := existing.excludedFromAnalytics
      categorySlug := existing.categorySlug
      categorySource := existing.categorySource
      categoryConfidence := existing.categoryConfidence
      recurringOverride := existing.recurringOverride
      duplicateReported := existing.duplicateReported
      tags := existing.tags
      isRecurring := existing.recurringOverride.getD txn.isRecurring }
  else
    { txn with
      id := existing.id
      recurringOverride := existing.recurringOverride
      duplicateReported := existing.duplicateReported
      tags := existing.tags
      isRecurring := existing.recurringOverride.getD txn.isRecurring }

def upsertRow (rows : List Transaction) (txn : Transaction) : List Transaction :=
  Table.upsert Transaction.key resync txn rows

def upsertMany (rows : List Transaction) : List Transaction → UpsertCounts × List Transaction
  | [] => (⟨0, 0⟩, rows)
  | txn :: txns =>
    let (counts, rows') := upsertMany (upsertRow rows txn) txns
    if txn.key ∈ rows.map Transaction.key then (⟨counts.inserted, counts.updated + 1⟩, rows')
    else (⟨counts.inserted + 1, counts.updated⟩, rows')

def removeByProviderIds (rows : List Transaction) (providerTxnIds : List String) :
    Nat × List Transaction :=
  let kept := rows.filter fun t => t.providerTxnId ∉ providerTxnIds
  (rows.length - kept.length, kept)

def removeByImportBatch (rows : List Transaction) (importBatchId : String) :
    Nat × List Transaction :=
  let kept := rows.filter fun t => t.importBatchId ≠ some importBatchId
  (rows.length - kept.length, kept)

theorem upsertMany_rows (rows txns : List Transaction) :
    (upsertMany rows txns).2 = txns.foldl upsertRow rows := by
  induction txns generalizing rows with
  | nil => rfl
  | cons txn txns ih =>
    rw [List.foldl_cons, ← ih]
    simp only [upsertMany]
    split <;> rfl

end InMemoryTransactionStore

/-- One user's part of the in-memory import store, and the transactions it refers to. -/
structure InMemoryImports where
  transactions : List Transaction
  byUser : List ImportBatch

def InMemoryImports.commit (st : InMemoryImports) (batch : ImportBatch)
    (transactions : List Transaction) : ImportBatch × InMemoryImports :=
  (batch, ⟨(InMemoryTransactionStore.upsertMany st.transactions transactions).2,
    st.byUser ++ [batch]⟩)

def ImportBatch.reverted (at_ : String) (batch : ImportBatch) : ImportBatch :=
  { batch with status := .reverted, revertedAt := some at_ }

/-- How many transactions were removed, unless there is nothing to undo. -/
def InMemoryImports.revert (st : InMemoryImports) (id at_ : String) :
    Option Nat × InMemoryImports :=
  match Table.lookup ImportBatch.id id st.byUser with
  | none => (none, st)
  | some batch =>
    if batch.status = .reverted then (none, st)
    else
      let (removed, transactions) :=
        InMemoryTransactionStore.removeByImportBatch st.transactions id
      (some removed,
        ⟨transactions, Table.modify ImportBatch.id id (ImportBatch.reverted at_) st.byUser⟩)

/-! ### Changes of stored transactions -/

/-- What the services change of a transaction. Only what is present is written. -/
structure TransactionPatch where
  merchantOverride : Option (Option String) := none
  note : Option (Option String) := none
  excludedFromAnalytics : Option Bool := none
  category : Option (String × CategorySource × Rat) := none
  isRecurring : Option Bool := none
  recurringOverride : Option Bool := none
  duplicateReported : Option Bool := none
  tags : Option (List String) := none
  deriving DecidableEq, Repr

def TransactionPatch.apply (patch : TransactionPatch) (t : Transaction) : Transaction :=
  let category := patch.category.getD (t.categorySlug, t.categorySource, t.categoryConfidence)
  { t with
    merchantOverride := patch.merchantOverride.getD t.merchantOverride
    note := patch.note.getD t.note
    excludedFromAnalytics := patch.excludedFromAnalytics.or t.excludedFromAnalytics
    categorySlug := category.1
    categorySource := category.2.1
    categoryConfidence := category.2.2
    isRecurring := patch.isRecurring.getD t.isRecurring
    recurringOverride := patch.recurringOverride.or t.recurringOverride
    duplicateReported := patch.duplicateReported.or t.duplicateReported
    tags := patch.tags.or t.tags }

/-- The row found by its id is changed, and returned. -/
def InMemoryTransactionStore.update (rows : List Transaction) (id : String)
    (patch : TransactionPatch) : Option Transaction × List Transaction :=
  ((Table.lookup Transaction.id id rows).map patch.apply,
    Table.modify Transaction.id id patch.apply rows)

end Finverse.Ledger
