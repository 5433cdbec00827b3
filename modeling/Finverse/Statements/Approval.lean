import Finverse.Statements.SplitMerge

/-! What an approval writes to the ledger. -/

namespace Finverse.Statements

open Interleave Ledger

/-- What a transaction has to carry over from its row. -/
structure Carried where
  postedAt : Option IsoDate
  amount : Option Int
  currency : String
  categorySlug : String
  deriving DecidableEq, Repr

def carriedBy (t : Transaction) : Carried := ⟨some t.postedAt, some t.amount, t.currency, t.categorySlug⟩

def carriedBefore (row : StatementRowRecord) : Carried :=
  ⟨row.postedAt, row.amount, row.currency, row.categorySlug⟩

def included (rows : List StatementRowRecord) : List StatementRowRecord :=
  rows.filter fun row => row.decision = .include

/-- One new transaction for each included row, and no other change of any ledger. -/
def ImportedExactly (userId : String) (rows : List StatementRowRecord) (w w' : Imports) : Prop :=
  (∃ new, w'.ledgerOf userId = w.ledgerOf userId ++ new ∧
    (new.map carriedBy).Perm ((included rows).map carriedBefore)) ∧
  ∀ other, other ≠ userId → w'.ledgerOf other = w.ledgerOf other

/-- Every included row has an amount and a date, and a fingerprint of its own. -/
def Complete (rows : List StatementRowRecord) : Prop :=
  (∀ row ∈ included rows, row.amount.isSome ∧ row.postedAt.any (· ≠ "")) ∧
    ((included rows).map StatementRowRecord.fingerprint).Nodup

variable {P : Primitives} {A : Adapter} {userId importId : String} {draw : Draw}

/-! ### The ledger -/

/-- A ledger after writing transactions none of whose keys it had. -/
structure Written (before new after : List Transaction) : Prop where
  bound : after.length ≤ before.length + new.length
  distinct : after.length = before.length + new.length → (new.map Transaction.key).Nodup
  appended : (new.map Transaction.key).Nodup → after = before ++ new

theorem key_resync (t t' : Transaction) :
    (InMemoryTransactionStore.resync t' t).key = t.key := by
  rw [InMemoryTransactionStore.resync]
  split <;> rfl

theorem written_upsertMany {before new : List Transaction}
    (absent : ∀ t ∈ new, t.key ∉ before.map Transaction.key) :
    Written before new (InMemoryTransactionStore.upsertMany before new).2 := by
  rw [InMemoryTransactionStore.upsertMany_rows]
  constructor
  · exact Table.length_foldl_upsert_le
  · exact fun length => (Table.nodup_of_length_foldl_upsert (fun t t' _ => key_resync t t') length).1
  · exact fun distinct => Table.foldl_upsert_absent distinct absent

/-- Postgres inserts all transactions only if their keys are distinct. -/
theorem insertTransactions_all {before new after : List Transaction} {inserted : Nat}
    (ok : PostgresStatementImportStore.insertTransactions before new = .ok (inserted, after)) :
    inserted ≤ new.length ∧ (inserted = new.length →
      after = before ++ new ∧ (new.map Transaction.key).Nodup ∧
        ∀ t ∈ new, t.key ∉ before.map Transaction.key) := by
  induction new generalizing before after inserted with
  | nil =>
    obtain ⟨rfl, rfl⟩ := Prod.mk.inj (Except.ok.inj ok)
    simp
  | cons t new ih =>
    rw [PostgresStatementImportStore.insertTransactions] at ok
    split at ok
    · have bound := (ih ok).1
      rw [List.length_cons]
      exact ⟨by omega, fun all => by omega⟩
    · rename_i fresh
      split at ok
      · cases ok
      · cases rest : PostgresStatementImportStore.insertTransactions (before ++ [t]) new with
        | error e =>
          rw [rest] at ok
          cases ok
        | ok result =>
          obtain ⟨count, rows⟩ := result
          rw [rest] at ok
          obtain ⟨rfl, rfl⟩ := Prod.mk.inj (Except.ok.inj ok)
          obtain ⟨bound, all⟩ := ih rest
          rw [List.length_cons]
          refine ⟨by omega, fun length => ?_⟩
          obtain ⟨appended, distinct, absent⟩ := all (by omega)
          simp only [List.map_append, List.map_cons, List.map_nil, List.mem_append,
            List.mem_singleton, not_or] at absent
          refine ⟨by simp [appended], ?_, ?_⟩
          · rw [List.map_cons, List.nodup_cons]
            refine ⟨fun repeated => ?_, distinct⟩
            obtain ⟨later, stored, same⟩ := List.mem_map.mp repeated
            exact (absent later stored).2 same
          · intro other stored
            rcases List.mem_cons.mp stored with rfl | later
            · exact fresh
            · exact (absent other later).1

/-! ### Finalizing -/

variable {w w' : Imports}

theorem ledgerOf_set (st : InMemoryStatementImportStore) (ledger : List Transaction)
    (batches : List ImportBatch) (other : String) :
    Imports.ledgerOf ⟨st, w.ledger.set userId ledger, batches⟩ other =
      if userId = other then ledger else w.ledgerOf other := by
  rw [Imports.ledgerOf, OrdMap.get?_set]
  split <;> rfl

theorem finalize_some {s t : StoredStatement} {now : Instant} {result : StatementImport}
    (h : s.finalize now = some (result, t)) :
    s.status = .ready ∧ t = { s with
      status := .approved
      processingStartedAt := none
      approvedAt := some now
      ledgerWrites := s.ledgerWrites + 1 } := by
  rw [StoredStatement.finalize] at h
  split at h
  · cases h
  · rename_i ready
    obtain ⟨-, rfl⟩ := Prod.mk.inj (Option.some.inj h)
    exact ⟨not_not.mp ready, rfl⟩

theorem finalizePg_some {st st' : InMemoryStatementImportStore} {new before after : List Transaction}
    {now : Instant} {result : StatementImport}
    (ok : PostgresStatementImportStore.finalize st userId importId new now before =
      .ok (some (result, st', after))) :
    (∃ s, st.find userId importId = some s ∧ s.status = .ready ∧
      st' = st.set userId
        (Table.modify (·.id) importId (fun _ => s.finalizePg now) (st.bucket userId))) ∧
      after = before ++ new ∧ (new.map Transaction.key).Nodup := by
  rw [PostgresStatementImportStore.finalize] at ok
  split at ok
  · cases ok
  rename_i s found
  obtain ⟨found, ready⟩ := Option.filter_eq_some_iff.mp found
  split at ok
  · cases ok
  split at ok
  · cases ok
  rename_i inserted rows inserts
  split at ok
  · cases ok
  rename_i all
  obtain ⟨-, complete⟩ := insertTransactions_all inserts
  obtain ⟨appended, distinct, -⟩ := complete (not_not.mp all)
  injection ok with ok
  obtain ⟨-, rest⟩ := Prod.mk.inj (Option.some.inj ok)
  obtain ⟨rfl, rfl⟩ := Prod.mk.inj rest
  exact ⟨⟨s, found, by simpa using ready, rfl⟩, appended, distinct⟩

section Finalize

variable {batch : ImportBatch} {new : List Transaction} {now : Instant} {edits : Nat}
  {result : StatementImport}

/-- A finalized statement was ready. -/
theorem ready_of_finalize
    (ok : (A.exec (.finalize userId importId batch new now edits) w).1 = .ok (some result)) :
    ∃ s, w.statements.find userId importId = some s ∧ s.status = .ready := by
  cases A with
  | memory =>
    simp only [Adapter.exec, finalizeInMemory] at ok
    split at ok
    · cases ok
    · rename_i result' statements revised
      have applied := congrArg Prod.fst revised
      obtain ⟨s, t, found, changed, -⟩ := InMemoryStatementImportStore.revise_some applied
      exact ⟨s, found, (finalize_some changed).1⟩
  | postgres =>
    simp only [Adapter.exec, finalizeInPostgres] at ok
    split at ok
    · cases ok
    · cases ok
    · rename_i result' statements after finalized
      obtain ⟨⟨s, found, ready, -⟩, -⟩ := finalizePg_some finalized
      exact ⟨s, found, ready⟩

/-- The transactions were written to the user's ledger, and to no other. -/
theorem written_of_finalize
    (ok : (A.exec (.finalize userId importId batch new now edits) w).1 = .ok (some result))
    (absent : ∀ t ∈ new, t.key ∉ (w.ledgerOf userId).map Transaction.key) :
    let after := (A.exec (.finalize userId importId batch new now edits) w).2
    Written (w.ledgerOf userId) new (after.ledgerOf userId) ∧
      ∀ other, other ≠ userId → after.ledgerOf other = w.ledgerOf other := by
  cases A with
  | memory =>
    simp only [Adapter.exec, finalizeInMemory] at ok ⊢
    split at ok
    · cases ok
    · refine ⟨?_, fun other apart => ?_⟩
      · rw [ledgerOf_set, if_pos rfl]
        exact written_upsertMany absent
      · rw [ledgerOf_set, if_neg apart.symm]
  | postgres =>
    simp only [Adapter.exec, finalizeInPostgres] at ok ⊢
    split at ok
    · cases ok
    · cases ok
    · rename_i result' statements after finalized
      obtain ⟨-, appended, distinct⟩ := finalizePg_some finalized
      refine ⟨?_, fun other apart => ?_⟩
      · rw [ledgerOf_set, if_pos rfl, appended]
        exact ⟨by simp, fun _ => distinct, fun _ => rfl⟩
      · rw [ledgerOf_set, if_neg apart.symm]

end Finalize

/-! ### Approving -/

theorem approved_ok {reply : StoreReply (Option StatementImport)} {result : StatementImport}
    (ok : approved reply = .ok result) : reply = .ok (some result) := by
  unfold approved at ok
  split at ok
  · cases ok
  · cases ok
  · rw [orThrow_ok ok]

theorem approvable_ok {status : StatementStatus} {rows new : List StatementRowRecord}
    (ok : approvable status rows = .ok new) : new = rows.filter importable := by
  obtain ⟨_, -, ok⟩ := bind_ok ok
  obtain ⟨_, -, ok⟩ := bind_ok ok
  obtain ⟨_, -, ok⟩ := bind_ok ok
  exact (Except.ok.inj ok).symm

/-- What is checked to be new has no key of the account. -/
theorem absent_of_checkNew {accountId batchId : String} {ledger : List Transaction}
    {rows : List StatementRowRecord} {u : Unit}
    (ok : checkNew P (ledger.filter fun t => t.accountId == accountId) rows = .ok u) :
    ∀ t ∈ rows.map (transactionOf P importId accountId batchId),
      t.key ∉ ledger.map Transaction.key := by
  obtain ⟨_, unseen, -⟩ := bind_ok ok
  rintro t written stored
  obtain ⟨row, wanted, rfl⟩ := List.mem_map.mp written
  obtain ⟨t', stored, same⟩ := List.mem_map.mp stored
  obtain ⟨account, provider⟩ := Prod.mk.inj same
  refine throwIf_ok unseen ⟨row, wanted, List.mem_map.mpr ⟨t', ?_, provider⟩⟩
  exact List.mem_filter.mpr ⟨stored, beq_iff_eq.mpr account⟩

/-- What an approval that succeeds has read and written. -/
theorem approve_ok {result : StatementImport}
    (ok : A.run (approve P userId importId draw) w = (.ok result, w')) :
    ∃ s accountId, w.statements.find userId importId = some s ∧ s.status = .ready ∧
      Written (w.ledgerOf userId)
        (((A.read w userId importId).filter importable).map
          (transactionOf P importId accountId draw.uuid)) (w'.ledgerOf userId) ∧
      ∀ other, other ≠ userId → w'.ledgerOf other = w.ledgerOf other := by
  rw [approve] at ok
  obtain ⟨found, w₁, called, ok⟩ := Adapter.run_call_ok ok
  obtain ⟨rfl, same₁⟩ := exec_get A called
  obtain ⟨statement, -, ok⟩ := Adapter.run_check_ok ok
  obtain ⟨read, w₂, called, ok⟩ := Adapter.run_call_ok ok
  obtain ⟨seen, same₂⟩ := exec_rows A called
  rw [same₁.rows A] at seen
  subst seen
  obtain ⟨rows, admitted, ok⟩ := Adapter.run_check_ok ok
  obtain ⟨existing, w₃, called, ok⟩ := Adapter.run_call_ok ok
  obtain ⟨rfl, rfl⟩ := exec_listTransactions A called
  obtain ⟨_, unseen, ok⟩ := Adapter.run_check_ok ok
  obtain ⟨reply, w₄, called, ok⟩ := Adapter.run_call_ok ok
  obtain ⟨rfl, rfl⟩ := Prod.mk.inj called
  obtain ⟨answered, rfl⟩ := Adapter.run_last_ok ok
  obtain rfl := approvable_ok admitted
  have ledger : ∀ other, w₃.ledgerOf other = w.ledgerOf other := fun other =>
    same₂.ledgerOf.trans same₁.ledgerOf
  obtain ⟨s, stored, ready⟩ := ready_of_finalize (approved_ok answered)
  obtain ⟨written, others⟩ := written_of_finalize (approved_ok answered) (absent_of_checkNew unseen)
  rw [ledger] at written
  refine ⟨s, statement.accountId, ?_, ready, written, fun other apart => ?_⟩
  · rw [← same₁.find, ← same₂.find]
    exact stored
  · exact (others other apart).trans (ledger other)

/-! ### The ledger against the rows -/

section Exactly

variable {rows read : List StatementRowRecord} {before after : List Transaction}
  {accountId batchId : String}

def complete (row : StatementRowRecord) : Bool := row.amount.isSome && row.postedAt.any (· ≠ "")

theorem filter_importable (rows : List StatementRowRecord) :
    rows.filter importable = (included rows).filter complete := by
  rw [included, List.filter_filter]
  congr 1
  funext row
  rw [importable, complete, Bool.and_assoc]
  exact Bool.and_comm _ _

theorem carriedBy_transactionOf {row : StatementRowRecord} (ready : complete row = true) :
    carriedBy (transactionOf P importId accountId batchId row) = carriedBefore row := by
  rw [complete, Bool.and_eq_true] at ready
  obtain ⟨amount, given⟩ := Option.isSome_iff_exists.mp ready.1
  cases dated : row.postedAt with
  | none => simp [dated] at ready
  | some postedAt => simp [carriedBy, carriedBefore, transactionOf, amountOf, given, dated]

/-- The keys of the transactions are distinct exactly when the fingerprints are. -/
theorem nodup_keys_iff :
    ((rows.map (transactionOf P importId accountId batchId)).map Transaction.key).Nodup ↔
      (rows.map StatementRowRecord.fingerprint).Nodup := by
  let keyOf : String → String × String := fun print => (accountId, "manual_" ++ print)
  have keys : (rows.map (transactionOf P importId accountId batchId)).map Transaction.key =
      (rows.map StatementRowRecord.fingerprint).map keyOf := by
    rw [List.map_map, List.map_map]
    rfl
  have injective : Function.Injective keyOf := by
    intro print print' same
    exact (String.append_right_inj "manual_").mp (Prod.mk.inj same).2
  rw [keys, List.nodup_map_iff injective]

theorem imported_iff (perm : read.Perm rows)
    (written : Written before
      ((read.filter importable).map (transactionOf P importId accountId batchId)) after) :
    (∃ new, after = before ++ new ∧
        (new.map carriedBy).Perm ((included rows).map carriedBefore)) ↔ Complete rows := by
  have wanted : (read.filter importable).Perm ((included rows).filter complete) := by
    rw [← filter_importable]
    exact perm.filter importable
  have all_complete : ((included rows).filter complete).length = (included rows).length ↔
      ∀ row ∈ included rows, complete row = true := List.length_filter_eq_length_iff
  constructor
  · rintro ⟨new, appended, carried⟩
    have length := carried.length_eq
    rw [List.length_map, List.length_map] at length
    have bound := written.bound
    rw [appended, List.length_append, List.length_map, wanted.length_eq] at bound
    have fewer := List.length_filter_le complete (included rows)
    have every := all_complete.mp (by omega)
    have distinct := written.distinct (by
      rw [appended, List.length_append, List.length_map, wanted.length_eq]
      omega)
    rw [nodup_keys_iff, (wanted.map _).nodup_iff, List.filter_eq_self.mpr every] at distinct
    refine ⟨fun row stored => ?_, distinct⟩
    rw [← Bool.and_eq_true]
    exact every row stored
  · rintro ⟨every, distinct⟩
    have kept : (included rows).filter complete = included rows := by
      refine List.filter_eq_self.mpr fun row stored => ?_
      rw [complete, Bool.and_eq_true]
      exact every row stored
    rw [kept] at wanted
    refine ⟨_, written.appended ?_, ?_⟩
    · rw [nodup_keys_iff, (wanted.map _).nodup_iff]
      exact distinct
    · rw [List.map_map]
      refine (wanted.map _).trans (List.Perm.of_eq (List.map_congr_left fun row stored => ?_))
      apply carriedBy_transactionOf
      rw [complete, Bool.and_eq_true]
      exact every row stored

end Exactly

/-- An approval that succeeds imports exactly the included rows, if and only if each of them has an
amount and a date, and no two have one fingerprint. -/
theorem approve_imports_iff (P : Primitives) (A : Adapter) (userId importId : String) (draw : Draw)
    (w w' : Imports) (result : StatementImport)
    (ok : A.run (approve P userId importId draw) w = (.ok result, w')) :
    ImportedExactly userId (w.rowsOf userId importId) w w' ↔
      Complete (w.rowsOf userId importId) := by
  obtain ⟨s, accountId, found, ready, written, others⟩ := approve_ok ok
  have kept : s.status ≠ .deleted := by simp [ready]
  rw [ImportedExactly, rowsOf_find found, imported_iff (read_perm found kept) written]
  exact and_iff_left others

/-! ### Two approvals -/

def approval (w : Imports) : Except HttpError StatementImport × Imports :=
  Adapter.memory.run (approve plain "sam" "stmt" ⟨"batch_1", 2⟩) w

theorem purchase_imported :
    ImportedExactly "sam" [purchase] (uploaded .memory [purchase])
      (approval (uploaded .memory [purchase])).2 := by
  have succeeds : (approval (uploaded .memory [purchase])).1.isOk = true := by decide +kernel
  rcases run : approval (uploaded .memory [purchase]) with ⟨e | result, w'⟩
  · rw [run] at succeeds
    cases succeeds
  · exact (approve_imports_iff plain .memory "sam" "stmt" ⟨"batch_1", 2⟩ _ w' result run).mpr
      (by constructor <;> decide +kernel)

/-- The purchase, split into two equal parts. -/
def halved : Imports :=
  (reshape plain .memory "sam" "stmt"
    (.split "stmt_row_1" (some [half "bread", half "bread"]), ⟨"u1", 1⟩)
    (uploaded .memory [purchase])).2

theorem equal_parts_collapse :
    (approval halved).1.isOk = true ∧
      ((approval halved).2.ledgerOf "sam").map Transaction.amount = [-1000] ∧
      ¬ImportedExactly "sam" (halved.rowsOf "sam" "stmt") halved (approval halved).2 := by
  refine ⟨by decide +kernel, by decide +kernel, ?_⟩
  rintro ⟨⟨new, appended, carried⟩, -⟩
  have before : (halved.ledgerOf "sam").length = 0 := by decide +kernel
  have after : ((approval halved).2.ledgerOf "sam").length = 1 := by decide +kernel
  have wanted : (included (halved.rowsOf "sam" "stmt")).length = 2 := by decide +kernel
  have lengths := carried.length_eq
  rw [List.length_map, List.length_map, wanted] at lengths
  rw [appended, List.length_append, before, lengths] at after
  omega

end Finverse.Statements
