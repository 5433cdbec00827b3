import Finverse.Ledger.MemoryStore
import Finverse.Ledger.PostgresStore

/-! A provider sends a stored transaction again: what both stores make of it. -/

namespace Finverse.Ledger

open Sql

/-! ### The row of an incoming transaction -/

/-- The columns of a transaction the provider sent. -/
def providerRow (userId : Nat) (txn : Transaction) (currency : String) : TransactionRow where
  id := txn.id
  userId := userId
  accountId := txn.accountId
  providerTxnId := txn.providerTxnId
  postedAt := txn.postedAt
  amount := txn.amount
  currency := currency
  rawDescriptor := txn.rawDescriptor
  normalizedDescriptor := txn.normalizedDescriptor
  merchant := txn.merchant
  merchantOverride := none
  note := none
  excludedFromAnalytics := false
  categorySlug := txn.categorySlug
  categorySource := txn.categorySource
  categoryConfidence := txn.categoryConfidence
  isRecurring := txn.isRecurring
  recurringOverride := none
  duplicateReported := false
  pending := txn.pending
  tags := []
  importBatchId := none

/-- The amount and the confidence lie in the ranges of their columns. -/
def InRange (txn : Transaction) : Prop :=
  (-2 ^ 63 ≤ txn.amount ∧ txn.amount < 2 ^ 63) ∧
    0 ≤ txn.categoryConfidence ∧ txn.categoryConfidence ≤ 1

instance (txn : Transaction) : Decidable (InRange txn) := by
  unfold InRange
  infer_instance

theorem char3_of_length {column value : String} (h : value.length = 3) :
    char3 column value = .ok value := by
  have hlen : value.toList.length = 3 := by rw [String.length_toList, h]
  have hdrop : value.toList.drop 3 = [] := List.drop_eq_nil_of_le (by omega)
  have htake : value.toList.take 3 = value.toList := List.take_of_length_le (by omega)
  simp [char3, hdrop, htake, hlen, pure, Except.pure]

/-- Every stored value has three characters. -/
theorem length_of_char3 {column value stored : String} (h : char3 column value = .ok stored) :
    stored.length = 3 := by
  simp only [char3] at h
  split at h
  · obtain rfl := Except.ok.inj h
    simp only [String.length_ofList, List.length_append, List.length_take, List.length_replicate]
    omega
  · cases h

section Incoming

variable {C : Categorizer} {raw : RawTransaction} {userId : Nat} {new : TransactionRow}

theorem accept_tuple_iff :
    (PostgresTransactionStore.tuple userId (mapTransaction C raw)).accept = .ok new ↔
      InRange (mapTransaction C raw) ∧ ∃ currency, char3 "currency" raw.currency = .ok currency ∧
        new = providerRow userId (mapTransaction C raw) currency := by
  simp only [TransactionTuple.accept, PostgresTransactionStore.tuple, notNull, pure_bind]
  by_cases hamount : -2 ^ 63 ≤ raw.amount ∧ raw.amount < 2 ^ 63
  · have hbig : bigint "amount" (mapTransaction C raw).amount = .ok raw.amount := if_pos hamount
    cases hchar : char3 "currency" raw.currency with
    | error violation =>
      have hchar' : char3 "currency" (mapTransaction C raw).currency = .error violation := hchar
      simp [hbig, hchar', bind, Except.bind]
    | ok currency =>
      have hchar' : char3 "currency" (mapTransaction C raw).currency = .ok currency := hchar
      by_cases hconf : 0 ≤ (mapTransaction C raw).categoryConfidence ∧
          (mapTransaction C raw).categoryConfidence ≤ 1
      · have hrange : InRange (mapTransaction C raw) := ⟨hamount, hconf⟩
        simp only [hbig, hchar', bind, Except.bind, checked, decide_eq_true hconf, if_true]
        refine ⟨fun h => ⟨hrange, currency, rfl, (Except.ok.inj h).symm⟩, ?_⟩
        rintro ⟨-, currency', hcurrency, rfl⟩
        obtain rfl := Except.ok.inj hcurrency
        rfl
      · have hrange : ¬InRange (mapTransaction C raw) := fun h => hconf h.2
        simp only [hbig, hchar', bind, Except.bind, checked, decide_eq_false hconf]
        simp [hrange, throw, throwThe, MonadExceptOf.throw]
  · have hrange : ¬InRange (mapTransaction C raw) := fun h => hamount h.1
    have hbig : bigint "amount" (mapTransaction C raw).amount = .error (.outOfRange "amount") :=
      if_neg hamount
    simp [hbig, hrange, bind, Except.bind]

end Incoming

/-! ### The user's work -/

/-- What the user owns of a row is the same in both. -/
structure SameUserWork (before after : Transaction) : Prop where
  merchantOverride : after.merchantOverride = before.merchantOverride
  note : after.note = before.note
  excludedFromAnalytics : after.excludedFromAnalytics = before.excludedFromAnalytics
  tags : after.tags = before.tags
  recurringOverride : after.recurringOverride = before.recurringOverride
  duplicateReported : after.duplicateReported = before.duplicateReported
  importBatchId : after.importBatchId = before.importBatchId
  category : before.keepsUserCategory = true → after.categorySlug = before.categorySlug ∧
    after.categorySource = before.categorySource ∧
    after.categoryConfidence = before.categoryConfidence

/-- The DO UPDATE clause never touches the user's work. -/
theorem postgres_keeps_user_work (row new : TransactionRow) :
    SameUserWork (toTransaction row) (toTransaction (PostgresTransactionStore.resync row new)) where
  merchantOverride := rfl
  note := rfl
  excludedFromAnalytics := rfl
  tags := rfl
  recurringOverride := rfl
  duplicateReported := rfl
  importBatchId := rfl
  category := by
    intro hkeeps
    have hkeeps' : PostgresTransactionStore.keepsUserCategory row = true := hkeeps
    simp [toTransaction, PostgresTransactionStore.resync, hkeeps']

/-- When both stores make the same row of a transaction that is sent again: it carries no import,
its recurring flag is the user's or off, and either the category is the user's own and the merchant
is the one sent, or the row has no annotation that only Postgres keeps. -/
def Lossless (row : TransactionRow) (txn : Transaction) : Prop :=
  row.importBatchId.filter (· ≠ "") = none ∧
    (row.recurringOverride = none → row.isRecurring = false) ∧
    if PostgresTransactionStore.keepsUserCategory row then row.merchant = txn.merchant
    else row.merchantOverride = none ∧ row.note = none ∧ row.excludedFromAnalytics = false

instance (row : TransactionRow) (txn : Transaction) : Decidable (Lossless row txn) := by
  unfold Lossless
  infer_instance

theorem memory_resync_key {txn : Transaction} (existing : Transaction) :
    (InMemoryTransactionStore.resync existing txn).key = txn.key := by
  simp only [InMemoryTransactionStore.resync]
  split <;> rfl

section Rows

variable {C : Categorizer} {raw : RawTransaction} {userId : Nat} {row : TransactionRow}

/-- One row, in both stores. -/
theorem resync_eq_iff {currency : String} (userId : Nat) (account : row.accountId = raw.accountId)
    (provider : row.providerTxnId = raw.providerTxnId) :
    toTransaction (PostgresTransactionStore.resync row
        (providerRow userId (mapTransaction C raw) currency)) =
      InMemoryTransactionStore.resync (toTransaction row) (mapTransaction C raw) ↔
    currency = raw.currency ∧ Lossless row (mapTransaction C raw) := by
  have recurring : row.recurringOverride.getD row.isRecurring = row.recurringOverride.getD false ↔
      (row.recurringOverride = none → row.isRecurring = false) := by
    cases row.recurringOverride <;> simp
  have keeps : (toTransaction row).keepsUserCategory =
      PostgresTransactionStore.keepsUserCategory row := rfl
  cases hkeeps : PostgresTransactionStore.keepsUserCategory row with
  | true =>
    simp only [InMemoryTransactionStore.resync, keeps, hkeeps, if_true]
    simp [toTransaction, PostgresTransactionStore.resync, providerRow, mapTransaction, Lossless,
      hkeeps, account, provider, recurring]
    tauto
  | false =>
    simp only [InMemoryTransactionStore.resync, keeps, hkeeps]
    simp [toTransaction, PostgresTransactionStore.resync, providerRow, mapTransaction, Lossless,
      hkeeps, account, provider, recurring]
    tauto

end Rows

/-! ### The ledgers -/

/-- Both stores take the transaction in, end with the same ledger and keep the user's work on the
row. -/
structure ResyncSafe (userId : Nat) (db : Database) (row : TransactionRow) (txn : Transaction) :
    Prop where
  stored : (PostgresTransactionStore.upsertMany userId [txn] db).1.isOk = true
  same : (PostgresTransactionStore.upsertMany userId [txn] db).2.ledger userId =
    (InMemoryTransactionStore.upsertMany (db.ledger userId) [txn]).2
  postgres : ∀ after ∈ (PostgresTransactionStore.upsertMany userId [txn] db).2.ledger userId,
    after.key = txn.key → SameUserWork (toTransaction row) after
  memory : ∀ after ∈ (InMemoryTransactionStore.upsertMany (db.ledger userId) [txn]).2,
    after.key = txn.key → SameUserWork (toTransaction row) after

section Ledgers

variable {C : Categorizer} {raw : RawTransaction} {userId : Nat} {row new : TransactionRow}
  {db : Database}

theorem rowsOf_unique (db : Database) (userId : Nat) :
    ((db.rowsOf userId).map TransactionRow.arbiter).Nodup :=
  db.transactions.unique.sublist (List.filter_sublist.map _)

theorem ledger_unique (db : Database) (userId : Nat) :
    ((db.ledger userId).map Transaction.key).Nodup := by
  refine List.Nodup.of_map (fun k => (userId, k)) ?_
  rw [Database.ledger, List.map_map, List.map_map]
  convert rowsOf_unique db userId using 1
  refine List.map_congr_left fun row hrow => ?_
  have owner : row.userId = userId := by simpa using (List.mem_filter.mp hrow).2
  simp [TransactionRow.arbiter, Transaction.key, toTransaction, owner]

/-- The database after one row was written over. -/
def Database.resynced (db : Database) (new : TransactionRow) : Database :=
  { db with
    transactions := db.transactions.upsert PostgresTransactionStore.resync
      PostgresTransactionStore.resync_arbiter new }

theorem upsertMany_refused {txn : Transaction} {violation : Violation}
    (haccept : (PostgresTransactionStore.tuple userId txn).accept = .error violation) :
    PostgresTransactionStore.upsertMany userId [txn] db = (.error violation, db) := by
  have refused : insertBatches db.transactionsTarget PostgresTransactionStore.onConflict
      [[PostgresTransactionStore.tuple userId txn]] db.transactions = .error violation :=
    insertBatches_refused haccept
  rw [PostgresTransactionStore.upsertMany, if_neg (List.cons_ne_nil _ _)]
  refine withTransaction_error ?_
  rw [chunk_singleton, List.map_cons, List.map_cons, List.map_nil, List.map_nil, refused]
  rfl

theorem upsertMany_stored {txn : Transaction}
    (haccept : (PostgresTransactionStore.tuple userId txn).accept = .ok new)
    (stored : row ∈ db.transactions.rows) (harbiter : row.arbiter = new.arbiter) :
    PostgresTransactionStore.upsertMany userId [txn] db = (.ok ⟨0, 1⟩, db.resynced new) := by
  have found : db.transactions.lookup (db.transactionsTarget.arbiter new) = some row := by
    change db.transactions.lookup new.arbiter = some row
    rw [← harbiter]
    exact Table.Keyed.lookup_of_mem stored
  have inserted : insertBatches db.transactionsTarget PostgresTransactionStore.onConflict
      [[PostgresTransactionStore.tuple userId txn]] db.transactions =
        .ok ((db.resynced new).transactions, [.updated]) :=
    insertBatches_single.trans (insert_update haccept found)
  rw [PostgresTransactionStore.upsertMany, if_neg (List.cons_ne_nil _ _)]
  refine withTransaction_ok ?_
  rw [chunk_singleton, List.map_cons, List.map_cons, List.map_nil, List.map_nil, inserted]
  rfl

/-- What Postgres makes of a user's rows. -/
theorem rowsOf_resynced (hnew : new.userId = userId) :
    (db.resynced new).rowsOf userId =
      Table.upsert TransactionRow.arbiter PostgresTransactionStore.resync new (db.rowsOf userId) := by
  refine Table.filter_upsert (by simpa using hnew) ?_
  intro r _ hr
  have owner : r.userId = userId := (congrArg Prod.fst hr).trans hnew
  have merged : (PostgresTransactionStore.resync r new).userId = r.userId := rfl
  exact ⟨by simpa using owner, by simpa [merged] using owner⟩

/-- The updated row is one of the user's. -/
theorem updated_mem (hrow : row ∈ db.rowsOf userId) (harbiter : row.arbiter = new.arbiter) :
    PostgresTransactionStore.resync row new ∈
      Table.upsert TransactionRow.arbiter PostgresTransactionStore.resync new
        (db.rowsOf userId) := by
  rw [Table.upsert_of_present (rowsOf_unique db userId) (harbiter ▸ List.mem_map_of_mem hrow)]
  exact List.mem_map.mpr ⟨row, hrow, if_pos harbiter⟩

/-- What is known of a stored row and the same transaction sent again. -/
structure Resent (userId : Nat) (db : Database) (row : TransactionRow) (raw : RawTransaction) :
    Prop where
  stored : row ∈ db.transactions.rows
  owner : row.userId = userId
  account : row.accountId = raw.accountId
  provider : row.providerTxnId = raw.providerTxnId

namespace Resent

variable {currency : String}

theorem mine (h : Resent userId db row raw) : row ∈ db.rowsOf userId :=
  List.mem_filter.mpr ⟨h.stored, by simpa using h.owner⟩

theorem key (h : Resent userId db row raw) :
    (toTransaction row).key = (mapTransaction C raw).key := by
  simp [Transaction.key, toTransaction, mapTransaction, h.account, h.provider]

theorem arbiter (h : Resent userId db row raw) (C : Categorizer) (currency : String) :
    row.arbiter = (providerRow userId (mapTransaction C raw) currency).arbiter := by
  simp [TransactionRow.arbiter, providerRow, mapTransaction, h.owner, h.account, h.provider]

/-- The ledgers after the same transaction are the same when the rows are. -/
theorem same_iff (h : Resent userId db row raw) :
    (db.resynced (providerRow userId (mapTransaction C raw) currency)).ledger userId =
      InMemoryTransactionStore.upsertRow (db.ledger userId) (mapTransaction C raw) ↔
    currency = raw.currency ∧ Lossless row (mapTransaction C raw) := by
  have key : (toTransaction row).key = (mapTransaction C raw).key := h.key
  have harbiter := h.arbiter C currency
  generalize hnew : providerRow userId (mapTransaction C raw) currency = new at harbiter ⊢
  have howner : new.userId = userId := by rw [← hnew]; rfl
  rw [← resync_eq_iff userId h.account h.provider, hnew, Database.ledger,
    rowsOf_resynced howner]
  constructor
  · intro same
    -- The row Postgres ends with is the one the in-memory store holds under the same key.
    have updated : toTransaction (PostgresTransactionStore.resync row new) ∈
        InMemoryTransactionStore.upsertRow (db.ledger userId) (mapTransaction C raw) := by
      rw [← same]
      exact List.mem_map_of_mem (updated_mem h.mine harbiter)
    have unique : ((InMemoryTransactionStore.upsertRow (db.ledger userId)
        (mapTransaction C raw)).map Transaction.key).Nodup :=
      Table.nodup_upsert (fun _ _ => memory_resync_key _) (ledger_unique db userId)
    have found := Table.lookup_of_mem unique updated
    have hkey : (toTransaction (PostgresTransactionStore.resync row new)).key =
        (mapTransaction C raw).key := key
    rw [hkey, InMemoryTransactionStore.upsertRow,
      Table.lookup_upsert_self fun _ _ => memory_resync_key _, ← key,
      Table.lookup_of_mem (ledger_unique db userId) (List.mem_map_of_mem h.mine)] at found
    exact (Option.some.inj found).symm
  · intro same
    have present' : (mapTransaction C raw).key ∈ (db.ledger userId).map Transaction.key :=
      key ▸ List.mem_map_of_mem (List.mem_map_of_mem h.mine)
    have present : new.arbiter ∈ (db.rowsOf userId).map TransactionRow.arbiter :=
      harbiter ▸ List.mem_map_of_mem h.mine
    rw [Table.upsert_of_present (rowsOf_unique db userId) present,
      InMemoryTransactionStore.upsertRow, Table.upsert_of_present (ledger_unique db userId) present',
      Database.ledger, List.map_map, List.map_map]
    refine List.map_congr_left fun r hr => ?_
    have mine : r.userId = userId := by simpa using (List.mem_filter.mp hr).2
    by_cases hr' : r.arbiter = row.arbiter
    · obtain rfl := List.inj_on_of_nodup_map (rowsOf_unique db userId) hr h.mine hr'
      simp only [Function.comp_apply, harbiter, if_true, key, same]
    · have hkey : ¬(toTransaction r).key = (mapTransaction C raw).key := by
        rw [← key]
        intro he
        refine hr' ?_
        simp only [Transaction.key, toTransaction, Prod.mk.injEq] at he
        simp [TransactionRow.arbiter, mine, h.owner, he.1, he.2]
      rw [harbiter] at hr'
      simp only [Function.comp_apply, if_neg hr', if_neg hkey]

/-- Every row under the key is the updated one, with the user's work on it. -/
theorem kept (h : Resent userId db row raw) {after : Transaction}
    (hafter : after ∈
      (db.resynced (providerRow userId (mapTransaction C raw) currency)).ledger userId)
    (hkey : after.key = (mapTransaction C raw).key) : SameUserWork (toTransaction row) after := by
  have updated := List.mem_map_of_mem (f := toTransaction)
    (updated_mem h.mine (h.arbiter C currency))
  have howner : (providerRow userId (mapTransaction C raw) currency).userId = userId := rfl
  rw [← rowsOf_resynced howner] at updated
  have same := List.inj_on_of_nodup_map (ledger_unique _ userId) hafter updated
    (hkey.trans h.key.symm)
  rw [same]
  exact postgres_keeps_user_work row _

end Resent

end Ledgers

/-! ### One row -/

def coffee : RawTransaction := ⟨"p1", "checking", "2026-05-30", -450, "EUR", "corner cafe", false⟩

def cafes : Categorizer where
  normalizeDescriptor := id
  categorizeDescriptor := fun descriptor => ⟨"dining", .lexicon, 9 / 10, some descriptor⟩

/-- The stored row, with a note of the user on it. -/
def noted (source : CategorySource) : TransactionRow :=
  { providerRow 1 (mapTransaction cafes coffee) "EUR" with
    note := some "with Sam"
    categorySource := source }

def notedDatabase (source : CategorySource) : Database :=
  ⟨[(1, "checking")], ⟨[noted source], List.nodup_singleton _⟩, .empty⟩

theorem noted_resent (source : CategorySource) :
    Resent 1 (notedDatabase source) (noted source) coffee where
  stored := List.mem_singleton_self _
  owner := rfl
  account := rfl
  provider := rfl

end Finverse.Ledger
