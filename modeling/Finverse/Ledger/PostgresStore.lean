import Finverse.Ledger.Types
import Mathlib.Algebra.Group.Int.Defs

/-! The Postgres stores: the transactions and import_batches tables with the constraints of the
migrations, and the statements that write them. -/

namespace Finverse.Ledger

open Sql

structure TransactionRow where
  id : String
  userId : Nat
  accountId : String
  providerTxnId : String
  postedAt : IsoDate
  amount : Int
  currency : String
  rawDescriptor : String
  normalizedDescriptor : String
  merchant : Option String
  merchantOverride : Option String
  note : Option String
  excludedFromAnalytics : Bool
  categorySlug : String
  categorySource : CategorySource
  categoryConfidence : Rat
  isRecurring : Bool
  recurringOverride : Option Bool
  duplicateReported : Bool
  pending : Bool
  tags : List String
  importBatchId : Option String
  deriving DecidableEq, Repr

/-- Absent values are omitted rather than stored as null, false or an empty list. -/
def toTransaction (row : TransactionRow) : Transaction where
  id := row.id
  accountId := row.accountId
  providerTxnId := row.providerTxnId
  postedAt := row.postedAt
  amount := row.amount
  currency := row.currency
  rawDescriptor := row.rawDescriptor
  normalizedDescriptor := row.normalizedDescriptor
  merchant := row.merchant
  merchantOverride := row.merchantOverride
  note := row.note
  excludedFromAnalytics := if row.excludedFromAnalytics then some true else none
  categorySlug := row.categorySlug
  categorySource := row.categorySource
  categoryConfidence := row.categoryConfidence
  isRecurring := row.recurringOverride.getD row.isRecurring
  recurringOverride := row.recurringOverride
  duplicateReported := if row.duplicateReported then some true else none
  pending := row.pending
  tags := if row.tags ≠ [] then some row.tags else none
  importBatchId := row.importBatchId.filter (· ≠ "")

/-! ### Columns -/

/-- The values of one tuple of an INSERT. `none` is NULL. -/
structure TransactionTuple where
  id : Option String := none
  userId : Option Nat := none
  accountId : Option String := none
  providerTxnId : Option String := none
  postedAt : Option IsoDate := none
  amount : Option Int := none
  currency : Option String := none
  rawDescriptor : Option String := none
  normalizedDescriptor : Option String := none
  merchant : Option String := none
  merchantOverride : Option String := none
  note : Option String := none
  excludedFromAnalytics : Option Bool := some false
  categorySlug : Option String := none
  categorySource : Option CategorySource := none
  categoryConfidence : Option Rat := none
  isRecurring : Option Bool := some false
  recurringOverride : Option Bool := none
  duplicateReported : Option Bool := some false
  pending : Option Bool := some false
  tags : Option (List String) := some []
  importBatchId : Option String := none

def notNull {α : Type} (column : String) : Option α → Except Violation α
  | some value => pure value
  | none => throw (.notNull column)

/-- `char(3)`: shorter values are padded, of longer ones only trailing blanks are dropped. -/
def char3 (column value : String) : Except Violation String :=
  let chars := value.toList
  if (chars.drop 3).all (· == ' ') then
    pure (String.ofList (chars.take 3 ++ List.replicate (3 - chars.length) ' '))
  else throw (.valueTooLong column)

def bigint (column : String) (value : Int) : Except Violation Int :=
  if -2 ^ 63 ≤ value ∧ value < 2 ^ 63 then pure value else throw (.outOfRange column)

def checked (constraint : String) (holds : Bool) : Except Violation Unit :=
  if holds then pure () else throw (.check constraint)

/-- A text column of bounded length, when it is not null. -/
def textWithin (low high : Nat) (value : Option String) : Bool :=
  value.all fun s => decide (low ≤ s.length ∧ s.length ≤ high)

/-- The stored row of a tuple, when it meets the column types, NOT NULL and CHECK. -/
def TransactionTuple.accept (t : TransactionTuple) : Except Violation TransactionRow := do
  let id ← notNull "id" t.id
  let userId ← notNull "user_id" t.userId
  let accountId ← notNull "account_id" t.accountId
  let providerTxnId ← notNull "provider_txn_id" t.providerTxnId
  let postedAt ← notNull "posted_at" t.postedAt
  let amount ← bigint "amount" (← notNull "amount" t.amount)
  let currency ← char3 "currency" (← notNull "currency" t.currency)
  let rawDescriptor ← notNull "raw_descriptor" t.rawDescriptor
  let normalizedDescriptor ← notNull "normalized_descriptor" t.normalizedDescriptor
  let excludedFromAnalytics ← notNull "excluded_from_analytics" t.excludedFromAnalytics
  let categorySlug ← notNull "category_slug" t.categorySlug
  let categorySource ← notNull "category_source" t.categorySource
  let categoryConfidence ← notNull "category_confidence" t.categoryConfidence
  let isRecurring ← notNull "is_recurring" t.isRecurring
  let duplicateReported ← notNull "duplicate_reported" t.duplicateReported
  let pending ← notNull "pending" t.pending
  let tags ← notNull "tags" t.tags
  checked "transactions_confidence_range" (decide (0 ≤ categoryConfidence ∧ categoryConfidence ≤ 1))
  checked "transactions_merchant_override_length" (textWithin 1 120 t.merchantOverride)
  checked "transactions_note_length" (textWithin 1 2000 t.note)
  checked "transactions_tags_valid" (decide (tags.length ≤ 20))
  pure ⟨id, userId, accountId, providerTxnId, postedAt, amount, currency, rawDescriptor,
    normalizedDescriptor, t.merchant, t.merchantOverride, t.note, excludedFromAnalytics,
    categorySlug, categorySource, categoryConfidence, isRecurring, t.recurringOverride,
    duplicateReported, pending, tags, t.importBatchId⟩

/-- The unique index of the sync path. -/
def TransactionRow.arbiter (row : TransactionRow) : Nat × String × String :=
  (row.userId, row.accountId, row.providerTxnId)

def TransactionRow.primary (row : TransactionRow) : Nat × String := (row.userId, row.id)

structure ImportBatchRow where
  userId : Nat
  batch : ImportBatch
  deriving DecidableEq, Repr

def ImportBatchRow.primary (row : ImportBatchRow) : Nat × String := (row.userId, row.batch.id)

structure Database where
  accounts : List (Nat × String)
  transactions : Table.Keyed TransactionRow.arbiter
  importBatches : Table.Keyed ImportBatchRow.primary

namespace Database

def rowsOf (db : Database) (userId : Nat) : List TransactionRow :=
  db.transactions.rows.filter (·.userId = userId)

/-- What `list` reads of a user, up to order. -/
def ledger (db : Database) (userId : Nat) : List Transaction :=
  (db.rowsOf userId).map toTransaction

def transactionsTarget (db : Database) :
    Target TransactionTuple TransactionRow (Nat × String × String) (Nat × String) where
  accept := TransactionTuple.accept
  arbiter := TransactionRow.arbiter
  primary := TransactionRow.primary
  primaryName := "transactions_pkey"
  references := fun row => (row.userId, row.accountId) ∈ db.accounts
  foreignName := "transactions_account_fk"

def importBatchesTarget (db : Database) :
    Target ImportBatchRow ImportBatchRow (Nat × String) (Nat × String) where
  accept := fun row => do
    checked "import_batches_filename_bounded"
      (decide (1 ≤ row.batch.filename.length ∧ row.batch.filename.length ≤ 260))
    pure row
  arbiter := ImportBatchRow.primary
  primary := ImportBatchRow.primary
  primaryName := "import_batches_pkey"
  references := fun row => (row.userId, row.batch.accountId) ∈ db.accounts
  foreignName := "import_batches_account_fk"

end Database

/-- The consecutive slices of a list. -/
def chunk {α : Type} (items : List α) (size : Nat) : List (List α) :=
  (List.range ((items.length + size - 1) / size)).map fun k => (items.drop (k * size)).take size

/-- A list with an element has a first slice with an element. -/
theorem chunk_cons {α : Type} {size : Nat} (hsize : 0 < size) (x : α) (xs : List α) :
    ∃ ys rest, chunk (x :: xs) size = (x :: ys) :: rest := by
  have hcount : 0 < ((x :: xs).length + size - 1) / size := by
    refine Nat.div_pos ?_ hsize
    rw [List.length_cons]
    omega
  obtain ⟨n, hn⟩ := Nat.exists_eq_succ_of_ne_zero (Nat.ne_of_gt hcount)
  obtain ⟨m, rfl⟩ := Nat.exists_eq_succ_of_ne_zero (Nat.ne_of_gt hsize)
  simp only [chunk, hn, List.range_succ_eq_map, List.map_cons, Nat.zero_mul, List.drop_zero,
    List.take_succ_cons]
  exact ⟨_, _, rfl⟩

/-- The slices make up the list. -/
theorem flatten_chunk {α : Type} {size : Nat} (hsize : 0 < size) (items : List α) :
    (chunk items size).flatten = items := by
  have slices (n : Nat) : ((List.range n).map fun k => (items.drop (k * size)).take size).flatten =
      items.take (n * size) := by
    induction n with
    | zero => simp
    | succ n ih =>
      rw [List.range_succ, List.map_append, List.flatten_append, ih, List.map_singleton,
        List.flatten_singleton, Nat.succ_mul, List.take_add]
  have enough : items.length ≤ (items.length + size - 1) / size * size := by
    have small : (items.length + size - 1) % size < size := Nat.mod_lt _ hsize
    have divided := Nat.div_add_mod' (items.length + size - 1) size
    omega
  rw [chunk, slices, List.take_of_length_le enough]

theorem chunk_singleton {α : Type} (x : α) : chunk [x] 500 = [[x]] := by
  simp [chunk]

/-! ### Provider syncs -/

namespace PostgresTransactionStore

/-- The 22 columns of the sync. -/
def tuple (userId : Nat) (txn : Transaction) : TransactionTuple where
  id := txn.id
  userId := userId
  accountId := txn.accountId
  providerTxnId := txn.providerTxnId
  postedAt := txn.postedAt
  amount := txn.amount
  currency := txn.currency
  rawDescriptor := txn.rawDescriptor
  normalizedDescriptor := txn.normalizedDescriptor
  merchant := txn.merchant
  merchantOverride := txn.merchantOverride
  note := txn.note
  excludedFromAnalytics := txn.excludedFromAnalytics.getD false
  categorySlug := txn.categorySlug
  categorySource := txn.categorySource
  categoryConfidence := txn.categoryConfidence
  isRecurring := txn.isRecurring
  recurringOverride := txn.recurringOverride
  duplicateReported := txn.duplicateReported.getD false
  pending := txn.pending
  tags := txn.tags.getD []
  importBatchId := txn.importBatchId

/-- The category of the row is the user's own. -/
def keepsUserCategory (row : TransactionRow) : Bool :=
  row.categorySource == .userManual || row.categorySource == .userRule

/-- The DO UPDATE clause. -/
def resync (row excluded : TransactionRow) : TransactionRow :=
  { row with
    postedAt := excluded.postedAt
    amount := excluded.amount
    currency := excluded.currency
    rawDescriptor := excluded.rawDescriptor
    normalizedDescriptor := excluded.normalizedDescriptor
    pending := excluded.pending
    merchant := if keepsUserCategory row then row.merchant else excluded.merchant
    categorySlug := if keepsUserCategory row then row.categorySlug else excluded.categorySlug
    categorySource := if keepsUserCategory row then row.categorySource else excluded.categorySource
    categoryConfidence :=
      if keepsUserCategory row then row.categoryConfidence else excluded.categoryConfidence }

theorem resync_arbiter (row excluded : TransactionRow) :
    (resync row excluded).arbiter = row.arbiter := rfl

def onConflict : OnConflict TransactionRow.arbiter := .doUpdate resync resync_arbiter

/-- The batches share one transaction. -/
def upsertMany (userId : Nat) (transactions : List Transaction) (db : Database) :
    Except Violation UpsertCounts × Database :=
  if transactions = [] then (.ok ⟨0, 0⟩, db)
  else withTransaction (fun db => do
    let (table, outcomes) ← insertBatches db.transactionsTarget onConflict
      ((chunk transactions 500).map (·.map (tuple userId))) db.transactions
    pure (⟨outcomes.count .inserted, outcomes.count .updated⟩,
      { db with transactions := table })) db

end PostgresTransactionStore

/-! ### Imports -/

namespace PostgresImportBatchStore

/-- The 12 columns of an import. The others take their defaults. -/
def tuple (userId : Nat) (batch : ImportBatch) (txn : Transaction) : TransactionTuple where
  id := txn.id
  userId := userId
  accountId := txn.accountId
  providerTxnId := txn.providerTxnId
  postedAt := txn.postedAt
  amount := txn.amount
  currency := txn.currency
  rawDescriptor := txn.rawDescriptor
  normalizedDescriptor := txn.normalizedDescriptor
  categorySlug := txn.categorySlug
  categoryConfidence := txn.categoryConfidence
  importBatchId := batch.id

/-- The batch and its transactions, in one transaction. -/
def commit (userId : Nat) (batch : ImportBatch) (transactions : List Transaction) (db : Database) :
    Except Violation ImportBatch × Database :=
  withTransaction (fun db => do
    let row : ImportBatchRow := ⟨userId, { batch with revertedAt := none }⟩
    let (batches, _) ← Sql.insert db.importBatchesTarget .abort [row] db.importBatches
    let (table, _) ← insertBatches db.transactionsTarget .doNothing
      ((chunk transactions 500).map (·.map (tuple userId batch))) db.transactions
    pure (row.batch, { db with importBatches := batches, transactions := table })) db

end PostgresImportBatchStore

end Finverse.Ledger
