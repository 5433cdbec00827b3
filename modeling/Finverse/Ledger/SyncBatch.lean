import Finverse.Ledger.Resync

/-! A batch of provider transactions, taken in by both stores. -/

namespace Finverse.Ledger

open Sql

/-- Both stores make the same of the transaction: it fits its columns, a row it updates is
`Lossless`, and a new one has an id of its own and an account. -/
structure Fits (userId : Nat) (db : Database) (txn : Transaction) : Prop where
  inRange : InRange txn
  currency : txn.currency.length = 3
  updates : ∀ row ∈ db.rowsOf userId, (toTransaction row).key = txn.key → Lossless row txn
  adds : txn.key ∉ (db.ledger userId).map Transaction.key →
    txn.id ∉ (db.ledger userId).map Transaction.id ∧ (userId, txn.accountId) ∈ db.accounts

namespace PostgresTransactionStore

/-- One transaction of a sync. -/
def upsertOne (userId : Nat) (db : Database) (txn : Transaction) : Database :=
  (upsertMany userId [txn] db).2

end PostgresTransactionStore

/-- Each transaction fits what the ones before it leave. -/
def EachFits (userId : Nat) : Database → List Transaction → Prop
  | _, [] => True
  | db, txn :: txns =>
    Fits userId db txn ∧ EachFits userId (PostgresTransactionStore.upsertOne userId db txn) txns

/-- No transaction comes twice, and each fits. -/
structure Storable (userId : Nat) (db : Database) (txns : List Transaction) : Prop where
  once : (txns.map Transaction.key).Nodup
  fits : EachFits userId db txns

section Batch

variable {C : Categorizer} {raw : RawTransaction} {raws : List RawTransaction} {userId : Nat}
  {db : Database}

theorem accept_of_fits (fits : Fits userId db (mapTransaction C raw)) :
    (PostgresTransactionStore.tuple userId (mapTransaction C raw)).accept =
      .ok (providerRow userId (mapTransaction C raw) raw.currency) :=
  accept_tuple_iff.mpr ⟨fits.inRange, raw.currency, char3_of_length fits.currency, rfl⟩

/-- A new row reads as the transaction it was made of. -/
theorem toTransaction_providerRow :
    toTransaction (providerRow userId (mapTransaction C raw) raw.currency) =
      mapTransaction C raw := rfl

theorem upsertMany_of_batches {txns : List Transaction}
    {table : Table.Keyed TransactionRow.arbiter} {outcomes : List Outcome}
    (inserted : insertBatches db.transactionsTarget PostgresTransactionStore.onConflict
      ((chunk txns 500).map (·.map (PostgresTransactionStore.tuple userId))) db.transactions =
        .ok (table, outcomes)) (some : txns ≠ []) :
    (PostgresTransactionStore.upsertMany userId txns db).2 = { db with transactions := table } := by
  rw [PostgresTransactionStore.upsertMany, if_neg some, withTransaction, inserted]
  rfl

theorem upsertOne_of_insert {txn : Transaction} {table : Table.Keyed TransactionRow.arbiter}
    {outcomes : List Outcome}
    (inserted : insert db.transactionsTarget PostgresTransactionStore.onConflict
      [PostgresTransactionStore.tuple userId txn] db.transactions = .ok (table, outcomes)) :
    PostgresTransactionStore.upsertOne userId db txn = { db with transactions := table } := by
  have batches : insertBatches db.transactionsTarget PostgresTransactionStore.onConflict
      ((chunk [txn] 500).map (·.map (PostgresTransactionStore.tuple userId))) db.transactions =
        .ok (table, outcomes) := by
    rw [chunk_singleton, List.map_singleton, List.map_singleton]
    exact insertBatches_single.trans inserted
  exact upsertMany_of_batches batches (List.cons_ne_nil _ _)

/-- A transaction that fits is written alike by both stores. -/
theorem upsertOne_fits (fits : Fits userId db (mapTransaction C raw)) :
    ∃ table outcomes, insert db.transactionsTarget PostgresTransactionStore.onConflict
        [PostgresTransactionStore.tuple userId (mapTransaction C raw)] db.transactions =
          .ok (table, outcomes) ∧
      ({ db with transactions := table } : Database).ledger userId =
        InMemoryTransactionStore.upsertRow (db.ledger userId) (mapTransaction C raw) := by
  have taken := accept_of_fits fits
  by_cases stored : (mapTransaction C raw).key ∈ (db.ledger userId).map Transaction.key
  · obtain ⟨t, listed, key⟩ := List.mem_map.mp stored
    obtain ⟨row, mine, rfl⟩ := List.mem_map.mp listed
    obtain ⟨here, owner⟩ := List.mem_filter.mp mine
    have resent : Resent userId db row raw := by
      obtain ⟨account, provider⟩ := Prod.mk.inj key
      exact ⟨here, by simpa using owner, account, provider⟩
    have found : db.transactions.lookup (db.transactionsTarget.arbiter
        (providerRow userId (mapTransaction C raw) raw.currency)) = some row := by
      change db.transactions.lookup (providerRow userId _ raw.currency).arbiter = _
      rw [← resent.arbiter C raw.currency]
      exact Table.Keyed.lookup_of_mem here
    exact ⟨_, _, insert_update taken found,
      resent.same_iff.mpr ⟨rfl, fits.updates row mine key⟩⟩
  · obtain ⟨ownId, account⟩ := fits.adds stored
    have mine {row : TransactionRow} (here : row ∈ db.transactions.rows)
        (owner : row.userId = userId) : toTransaction row ∈ db.ledger userId :=
      List.mem_map_of_mem (List.mem_filter.mpr ⟨here, by simpa using owner⟩)
    have freshKey : ∀ new ∈ [providerRow userId (mapTransaction C raw) raw.currency],
        new.arbiter ∉ db.transactions.rows.map TransactionRow.arbiter := by
      simp only [List.mem_singleton, forall_eq]
      intro listed
      obtain ⟨row, here, same⟩ := List.mem_map.mp listed
      obtain ⟨owner, key⟩ := Prod.mk.inj same
      exact stored (List.mem_map.mpr ⟨_, mine here owner, key⟩)
    have freshId : ∀ new ∈ [providerRow userId (mapTransaction C raw) raw.currency],
        new.primary ∉ db.transactions.rows.map TransactionRow.primary := by
      simp only [List.mem_singleton, forall_eq]
      intro listed
      obtain ⟨row, here, same⟩ := List.mem_map.mp listed
      obtain ⟨owner, id⟩ := Prod.mk.inj same
      exact ownId (List.mem_map.mpr ⟨_, mine here owner, id⟩)
    have refers : ∀ new ∈ [providerRow userId (mapTransaction C raw) raw.currency],
        db.transactionsTarget.references new = true := by
      simpa [Database.transactionsTarget, providerRow] using account
    have appended : ∃ table outcomes, insert db.transactionsTarget
        PostgresTransactionStore.onConflict
        [PostgresTransactionStore.tuple userId (mapTransaction C raw)] db.transactions =
          .ok (table, outcomes) ∧ table.rows = db.transactions.rows ++
            [providerRow userId (mapTransaction C raw) raw.currency] :=
      insert_absent (.cons taken .nil) (List.nodup_singleton _) (List.nodup_singleton _) freshKey
        freshId refers
    obtain ⟨table, outcomes, inserted, rows⟩ := appended
    refine ⟨table, outcomes, inserted, ?_⟩
    rw [InMemoryTransactionStore.upsertRow, Table.upsert_of_absent stored, Database.ledger,
      Database.rowsOf, rows, List.filter_append, List.map_append]
    have own : [providerRow userId (mapTransaction C raw) raw.currency].filter
        (·.userId = userId) = [providerRow userId (mapTransaction C raw) raw.currency] := by
      simp [providerRow]
    rw [own, List.map_singleton, toTransaction_providerRow]
    rfl

/-- Ids stay distinct. -/
theorem nodup_ids_upsertRow {txn : Transaction} {rows : List Transaction}
    (keys : (rows.map Transaction.key).Nodup) (ids : (rows.map Transaction.id).Nodup)
    (fresh : txn.key ∉ rows.map Transaction.key → txn.id ∉ rows.map Transaction.id) :
    ((InMemoryTransactionStore.upsertRow rows txn).map Transaction.id).Nodup := by
  by_cases stored : txn.key ∈ rows.map Transaction.key
  · have same : (InMemoryTransactionStore.upsertRow rows txn).map Transaction.id =
        rows.map Transaction.id := by
      rw [InMemoryTransactionStore.upsertRow, Table.upsert_of_present keys stored, List.map_map]
      refine List.map_congr_left fun row _ => ?_
      simp only [Function.comp_apply]
      split
      · simp only [InMemoryTransactionStore.resync]
        split <;> rfl
      · rfl
    rwa [same]
  · rw [InMemoryTransactionStore.upsertRow, Table.upsert_of_absent stored, List.map_append,
      List.map_singleton]
    exact List.nodup_append_comm.mpr (List.nodup_cons.mpr ⟨fresh stored, ids⟩)

theorem upsertEach_fits (fits : EachFits userId db (raws.map (mapTransaction C))) :
    ∃ table, insertEach db.transactionsTarget PostgresTransactionStore.onConflict
        ((raws.map (mapTransaction C)).map (PostgresTransactionStore.tuple userId))
        db.transactions = .ok table ∧
      ({ db with transactions := table } : Database).ledger userId =
        (InMemoryTransactionStore.upsertMany (db.ledger userId) (raws.map (mapTransaction C))).2 ∧
      (((db.ledger userId).map Transaction.id).Nodup →
        ((({ db with transactions := table } : Database).ledger userId).map
          Transaction.id).Nodup) := by
  induction raws generalizing db with
  | nil => exact ⟨db.transactions, rfl, rfl, id⟩
  | cons raw raws ih =>
    obtain ⟨first, rest⟩ := fits
    obtain ⟨between, outcomes, inserted, ledger⟩ := upsertOne_fits first
    rw [upsertOne_of_insert inserted] at rest
    obtain ⟨table, each, ledger', ids⟩ := ih rest
    refine ⟨table, ?_, ?_, fun distinct => ids ?_⟩
    · simp only [List.map_cons, insertEach, inserted]
      exact each
    · rw [List.map_cons, InMemoryTransactionStore.upsertMany_rows, List.foldl_cons, ← ledger,
        ← InMemoryTransactionStore.upsertMany_rows]
      exact ledger'
    · rw [ledger]
      exact nodup_ids_upsertRow (ledger_unique db userId) distinct fun fresh =>
        (first.adds fresh).1

theorem accepts_of_eachFits (fits : EachFits userId db (raws.map (mapTransaction C))) :
    List.Forall₂ (fun tuple new => TransactionTuple.accept tuple = .ok new)
      ((raws.map (mapTransaction C)).map (PostgresTransactionStore.tuple userId))
      (raws.map fun raw => providerRow userId (mapTransaction C raw) raw.currency) := by
  induction raws generalizing db with
  | nil => exact .nil
  | cons raw raws ih => exact .cons (accept_of_fits fits.1) (ih fits.2)

/-- A batch that is storable leaves both stores with the same ledger. -/
theorem upsertMany_storable (storable : Storable userId db (raws.map (mapTransaction C))) :
    (PostgresTransactionStore.upsertMany userId (raws.map (mapTransaction C)) db).2.ledger userId =
        (InMemoryTransactionStore.upsertMany (db.ledger userId) (raws.map (mapTransaction C))).2 ∧
      (((db.ledger userId).map Transaction.id).Nodup →
        (((PostgresTransactionStore.upsertMany userId (raws.map (mapTransaction C)) db).2.ledger
          userId).map Transaction.id).Nodup) := by
  by_cases empty : raws = []
  · subst empty
    exact ⟨rfl, id⟩
  · obtain ⟨table, each, ledger, ids⟩ := upsertEach_fits storable.fits
    have slices : ((chunk (raws.map (mapTransaction C)) 500).map
        (·.map (PostgresTransactionStore.tuple userId))).flatten =
          (raws.map (mapTransaction C)).map (PostgresTransactionStore.tuple userId) := by
      rw [← List.map_flatten, flatten_chunk (by decide)]
    have distinct : ((raws.map fun raw => providerRow userId (mapTransaction C raw)
        raw.currency).map TransactionRow.arbiter).Nodup := by
      refine List.Nodup.of_map Prod.snd ?_
      convert storable.once using 1
      simp only [List.map_map]
      rfl
    have taken := accepts_of_eachFits storable.fits
    rw [← slices] at taken each
    obtain ⟨outcomes, inserted⟩ := insertBatches_each taken distinct each
    rw [upsertMany_of_batches inserted (by simpa using empty)]
    exact ⟨ledger, ids⟩

end Batch

end Finverse.Ledger
