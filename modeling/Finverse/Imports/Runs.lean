import Finverse.Imports.Days
import Finverse.Imports.Service
import Finverse.Statements.Service

/-! The ledgers that syncs, imports, statements and the user's own changes lead to. -/

namespace Finverse.Imports

open Categorization (CategorizationRule normalizeDescriptor)
open Ledger

/-- The id of a transaction that came out of a file. -/
def isCsvId (providerTxnId : String) : Prop := "csv_".toList <+: providerTxnId.toList

instance (providerTxnId : String) : Decidable (isCsvId providerTxnId) :=
  inferInstanceAs (Decidable (_ <+: _))

/-- The id that is derived from the facts of a row. -/
def csvId (sha256Hex : String → String) (accountId : String) (postedAt : IsoDate) (amount : Int)
    (descriptor : String) : String :=
  "csv_" ++ String.ofList ((sha256Hex (accountId ++ "|" ++ postedAt ++ "|" ++ toString amount ++
    "|" ++ descriptor)).toList.take 32)

/-- The id of a transaction that came out of a statement. -/
def isManualId (providerTxnId : String) : Prop := "manual_".toList <+: providerTxnId.toList

/-- The writes of the services to a ledger. -/
inductive Operation
  | sync (C : Categorizer) (raws : List RawTransaction)
  | removeByProviderIds (ids : List String)
  | update (id : String) (patch : TransactionPatch)
  | commit (rules : List CategorizationRule) (accounts : List Account) (draw : Draw)
      (input : CommitInput) (read : List Transaction)
  | finalize (P : Statements.Primitives) (importId accountId batchId : String)
      (included : List Statements.StatementRowRecord)
  | revert (id now : String)

variable (X : ImportsContext)

def Operation.exec (st : InMemoryImports) : Operation → InMemoryImports
  | .sync C raws =>
    { st with transactions := (InMemoryTransactionStore.upsertMany st.transactions
        (raws.map (mapTransaction C))).2 }
  | .removeByProviderIds ids =>
    { st with transactions :=
        (InMemoryTransactionStore.removeByProviderIds st.transactions ids).2 }
  | .update id patch =>
    { st with transactions := (InMemoryTransactionStore.update st.transactions id patch).2 }
  | .commit rules accounts draw input read =>
    (ImportsService.commit X rules accounts draw input read st).2
  | .finalize P importId accountId batchId included =>
    { st with transactions := (InMemoryTransactionStore.upsertMany st.transactions
        (included.map (Statements.transactionOf P importId accountId batchId))).2 }
  | .revert id now => (ImportsService.revert id now st).2

/-- A random id is one that nothing has. -/
def Fresh (id : String) (st : InMemoryImports) : Prop :=
  id ∉ st.byUser.map ImportBatch.id ∧ ∀ t ∈ st.transactions, t.importBatchId ≠ some id

/-- The ids of the aggregator are not of the forms that are made up here. -/
def Operation.Genuine : Operation → Prop
  | .sync _ raws => ∀ raw ∈ raws, ¬isCsvId raw.providerTxnId ∧ ¬isManualId raw.providerTxnId
  | _ => True

inductive Reachable : InMemoryImports → Prop
  | empty : Reachable ⟨[], []⟩
  | step {st : InMemoryImports} (reachable : Reachable st) (op : Operation)
    (genuine : op.Genuine) : Reachable (op.exec X st)

/-! ### Where a row came from -/

/-- The row came out of a file, and has the id of its own facts. -/
structure Imported (t : Transaction) : Prop where
  facts : t.providerTxnId =
    csvId X.sha256Hex t.accountId t.postedAt t.amount t.rawDescriptor
  dated : ∃ year month day, Parts t.postedAt year month day
  normalized : t.normalizedDescriptor = normalizeDescriptor X.text.toLowerCase t.rawDescriptor
  id : "imp_".toList <+: t.id.toList

/-- The row came out of a statement. -/
structure Approved (t : Transaction) : Prop where
  manual : isManualId t.providerTxnId
  id : "stmt_".toList <+: t.id.toList

/-- The id that a bank sync gives the rows it creates. -/
def SyncCreated (t : Transaction) : Prop := "txn_".toList <+: t.id.toList

/-- The row came from the aggregator, and is of no batch. -/
structure Synced (t : Transaction) : Prop where
  foreign : ¬isCsvId t.providerTxnId ∧ ¬isManualId t.providerTxnId
  id : SyncCreated t
  mark : t.importBatchId = none

def Known (t : Transaction) : Prop := Imported X t ∨ Approved t ∨ Synced t

section Rows

variable {X} {t row : Transaction}

theorem isCsvId_csvId (sha256Hex : String → String) (accountId : String) (postedAt : IsoDate)
    (amount : Int) (descriptor : String) :
    isCsvId (csvId sha256Hex accountId postedAt amount descriptor) := by
  rw [isCsvId, csvId, String.toList_append]
  exact List.prefix_append _ _

theorem Imported.isCsvId (h : Imported X t) : isCsvId t.providerTxnId := by
  rw [h.facts]
  exact isCsvId_csvId ..

/-- No text begins with two of which neither begins the other. -/
theorem not_both {p q text : List Char} (apart : ¬p <+: q ∧ ¬q <+: p) (hp : p <+: text) :
    ¬q <+: text := by
  intro hq
  rcases le_total p.length q.length with shorter | shorter
  · exact apart.1 (List.prefix_of_prefix_length_le hp hq shorter)
  · exact apart.2 (List.prefix_of_prefix_length_le hq hp shorter)

theorem not_manual_of_csv {id : String} (csv : Imports.isCsvId id) : ¬isManualId id :=
  not_both (by decide) csv

/-- No row of a file or of a statement is one that a sync created. -/
theorem Known.mark_of_syncCreated (h : Known X t) (created : SyncCreated t) :
    t.importBatchId = none := by
  rcases h with imported | approved | synced
  · exact absurd created (not_both (by decide) imported.id)
  · exact absurd created (not_both (by decide) approved.id)
  · exact synced.mark

theorem mapTransaction_synced (C : Categorizer) {raw : RawTransaction}
    (foreign : ¬Imports.isCsvId raw.providerTxnId ∧ ¬isManualId raw.providerTxnId) :
    Synced (mapTransaction C raw) := by
  refine ⟨foreign, ?_, rfl⟩
  simp only [SyncCreated, mapTransaction, String.toList_append, List.append_assoc]
  exact List.prefix_append _ _

theorem transactionOf_approved (P : Statements.Primitives) (importId accountId batchId : String)
    (record : Statements.StatementRowRecord) :
    Approved (Statements.transactionOf P importId accountId batchId record) := by
  constructor
  · simp only [isManualId, Statements.transactionOf, Statements.providerTxnIdOf,
      String.toList_append]
    exact List.prefix_append _ _
  · simp only [Statements.transactionOf, String.toList_append, List.append_assoc]
    exact List.prefix_append _ _

/-- A row sent again keeps its id and takes the facts and the mark of what is sent. -/
theorem resync_fields (existing txn : Transaction) :
    let row := InMemoryTransactionStore.resync existing txn
    row.id = existing.id ∧ row.key = txn.key ∧ row.postedAt = txn.postedAt ∧
      row.amount = txn.amount ∧ row.rawDescriptor = txn.rawDescriptor ∧
      row.normalizedDescriptor = txn.normalizedDescriptor ∧
      row.importBatchId = txn.importBatchId := by
  dsimp only [InMemoryTransactionStore.resync]
  split <;> exact ⟨rfl, rfl, rfl, rfl, rfl, rfl, rfl⟩

theorem resync_key (existing txn : Transaction) :
    (InMemoryTransactionStore.resync existing txn).key = txn.key :=
  (resync_fields existing txn).2.1

/-- The facts by which rows are told apart. -/
theorem Imported.congr (h : Imported X t) (id : "imp_".toList <+: row.id.toList)
    (key : row.key = t.key) (postedAt : row.postedAt = t.postedAt) (amount : row.amount = t.amount)
    (raw : row.rawDescriptor = t.rawDescriptor)
    (normalized : row.normalizedDescriptor = t.normalizedDescriptor) : Imported X row := by
  obtain ⟨hacc, hprov⟩ := Prod.mk.inj key
  refine ⟨?_, postedAt ▸ h.dated, ?_, id⟩
  · rw [hacc, hprov, postedAt, amount, raw]
    exact h.facts
  · rw [normalized, raw]
    exact h.normalized

/-- Whichever kind is sent, the stored row of the same key is of that kind too. -/
theorem resync_kind {existing txn : Transaction} (key : existing.key = txn.key)
    (he : Known X existing) (ht : Known X txn) :
    Known X (InMemoryTransactionStore.resync existing txn) := by
  obtain ⟨hid, hkey, hposted, hamount, hraw, hnorm, hmark⟩ := resync_fields existing txn
  have stored : existing.providerTxnId = txn.providerTxnId := (Prod.mk.inj key).2
  have kept : (InMemoryTransactionStore.resync existing txn).providerTxnId = txn.providerTxnId :=
    (Prod.mk.inj hkey).2
  rcases ht with imported | approved | synced
  · have csv : isCsvId existing.providerTxnId := stored ▸ imported.isCsvId
    rcases he with he | he | he
    · exact .inl (imported.congr (hid ▸ he.id) hkey hposted hamount hraw hnorm)
    · exact absurd he.manual (not_manual_of_csv csv)
    · exact absurd csv he.foreign.1
  · have manual : isManualId existing.providerTxnId := stored ▸ approved.manual
    rcases he with he | he | he
    · exact absurd manual (not_manual_of_csv he.isCsvId)
    · exact .inr (.inl ⟨kept ▸ approved.manual, hid ▸ he.id⟩)
    · exact absurd manual he.foreign.2
  · have foreign := synced.foreign
    rw [← stored] at foreign
    rcases he with he | he | he
    · exact absurd he.isCsvId foreign.1
    · exact absurd he.manual foreign.2
    · refine .inr (.inr ⟨kept ▸ synced.foreign, ?_, hmark.trans synced.mark⟩)
      rw [SyncCreated, hid]
      exact he.id

end Rows

/-! ### What a commit writes -/

section Review

variable {R : ReviewContext} {input : ReviewInput} {accepted : List Transaction} {line : Nat}
  {rows : List (List String)} {row : ReviewedRow}

/-- A row to be imported is one that could be read. -/
theorem mem_reviewFrom (h : row ∈ reviewFrom R input accepted line rows)
    (imported : row.decision = .importRow) :
    ∃ line raw c, readRow R input line raw = .ok c ∧ row = importRow line raw c := by
  induction rows generalizing accepted line with
  | nil => simp [reviewFrom] at h
  | cons raw rows ih =>
    rw [reviewFrom] at h
    cases hread : readRow R input line raw with
    | error reason =>
      rw [hread] at h
      rcases List.mem_cons.mp h with rfl | h
      · cases imported
      · exact ih h
    | ok c =>
      rw [hread] at h
      dsimp only at h
      split at h
      · rcases List.mem_cons.mp h with rfl | h
        · cases imported
        · exact ih h
      · rcases List.mem_cons.mp h with rfl | h
        · exact ⟨line, raw, c, hread, rfl⟩
        · exact ih h

/-- What is known of a row that could be read. -/
theorem readRow_ok {raw : List String} {c : Candidate} (h : readRow R input line raw = .ok c) :
    (∃ year month day, Parts c.postedAt year month day) ∧
      c.normalizedDescriptor = normalizeDescriptor R.text.toLowerCase c.descriptor := by
  obtain ⟨-, -, h⟩ := bind_ok h
  obtain ⟨postedAt, dated, h⟩ := bind_ok h
  obtain ⟨amount, -, h⟩ := bind_ok h
  obtain ⟨-, -, h⟩ := bind_ok h
  obtain ⟨-, -, h⟩ := bind_ok h
  obtain rfl := Except.ok.inj h
  exact ⟨parts_of_parseDate (orThrow_ok dated), rfl⟩

end Review

section Commit

variable {X} {rules : List CategorizationRule} {draw : Draw}

/-- The transactions of the rows to be imported are imported rows. -/
theorem transactions_imported {account : Account} {R : ReviewInput} {t : Transaction}
    (h : t ∈ Ledger.ImportsService.transactions (ImportsService.importContext X rules draw) account
      (reviewImport X.toReviewContext R).rows) : Imported X t := by
  obtain ⟨row, hrow, ht⟩ := List.mem_filterMap.mp h
  split at ht
  · rename_i himport
    obtain ⟨line, raw, c, hread, rfl⟩ := mem_reviewFrom hrow himport
    obtain rfl := Option.some.inj ht
    obtain ⟨dated, normalized⟩ := readRow_ok hread
    refine ⟨rfl, dated, normalized, ?_⟩
    simp only [Ledger.ImportsService.toLedger, String.toList_append, List.append_assoc]
    exact List.prefix_append _ _
  · cases ht

/-- A commit changes nothing, or it upserts the rows to be imported and adds the batch. -/
theorem commit_cases (X : ImportsContext) (rules : List CategorizationRule)
    (accounts : List Account) (draw : Draw) (input : CommitInput) (read : List Transaction)
    (st : InMemoryImports) : (ImportsService.commit X rules accounts draw input read st).2 = st ∨
    ∃ account parsed, ImportsService.openFile accounts input = .ok (account, parsed) ∧
      let rows := (ImportsService.reviewFile X account input.mapping parsed read).rows
      let C := ImportsService.importContext X rules draw
      (ImportsService.commit X rules accounts draw input read st).2 =
        ⟨(InMemoryTransactionStore.upsertMany st.transactions
            (Ledger.ImportsService.transactions C account rows)).2,
          st.byUser ++ [Ledger.ImportsService.batch C account input.filename rows]⟩ := by
  cases hopen : ImportsService.openFile accounts input with
  | error e =>
    refine .inl ?_
    simp [ImportsService.commit, hopen]
  | ok opened =>
    obtain ⟨account, parsed⟩ := opened
    simp only [ImportsService.commit, hopen, Ledger.ImportsService.commit]
    split
    · exact .inl rfl
    · exact .inr ⟨account, parsed, rfl, rfl⟩

end Commit

/-! ### The invariant -/

section Invariant

variable {X} {rows txns : List Transaction} {st : InMemoryImports}

/-- Rows under distinct keys, each of one of the three kinds. -/
def Traceable (X : ImportsContext) (rows : List Transaction) : Prop :=
  (rows.map Transaction.key).Nodup ∧ ∀ t ∈ rows, Known X t

theorem Traceable.upsertRow (h : Traceable X rows) {txn : Transaction} (ht : Known X txn) :
    Traceable X (InMemoryTransactionStore.upsertRow rows txn) := by
  refine ⟨Table.nodup_upsert (fun row _ => resync_key row txn) h.1, ?_⟩
  intro t stored
  rcases Table.mem_upsert stored with stored | rfl | ⟨old, held, same, rfl⟩
  · exact h.2 t stored
  · exact ht
  · exact resync_kind same (h.2 old held) ht

theorem Traceable.upsertMany (h : Traceable X rows) (ht : ∀ txn ∈ txns, Known X txn) :
    Traceable X (InMemoryTransactionStore.upsertMany rows txns).2 := by
  rw [InMemoryTransactionStore.upsertMany_rows]
  induction txns generalizing rows with
  | nil => exact h
  | cons txn txns ih =>
    exact ih (h.upsertRow (ht txn List.mem_cons_self))
      fun other later => ht other (List.mem_cons_of_mem _ later)

theorem Traceable.filter (h : Traceable X rows) (p : Transaction → Bool) :
    Traceable X (rows.filter p) :=
  ⟨h.1.sublist (List.filter_sublist.map _), fun t stored => h.2 t (List.mem_of_mem_filter stored)⟩

theorem Known.apply {t : Transaction} (h : Known X t) (patch : TransactionPatch) :
    Known X (patch.apply t) := by
  rcases h with imported | approved | synced
  · exact .inl (imported.congr imported.id rfl rfl rfl rfl rfl)
  · exact .inr (.inl ⟨approved.manual, approved.id⟩)
  · exact .inr (.inr ⟨synced.foreign, synced.id, synced.mark⟩)

theorem Traceable.modify (h : Traceable X rows) (id : String) (patch : TransactionPatch) :
    Traceable X (Table.modify Transaction.id id patch.apply rows) := by
  have keeps : (Table.modify Transaction.id id patch.apply rows).map Transaction.key =
      rows.map Transaction.key := by
    have same : List.Forall₂ (fun row row' : Transaction => row'.key = row.key) rows
        (Table.modify Transaction.id id patch.apply rows) :=
      Table.forall₂_modify (fun _ => rfl) fun _ _ => rfl
    have mapped := List.forall₂_map_left_iff.mpr (List.forall₂_map_right_iff.mpr
      (same.imp fun _ _ h => h.symm))
    exact (List.forall₂_eq_eq_eq ▸ mapped : rows.map Transaction.key = _).symm
  refine ⟨keeps ▸ h.1, ?_⟩
  intro t stored
  rcases Table.mem_modify stored with stored | ⟨old, held, -, rfl⟩
  · exact h.2 t stored
  · exact (h.2 old held).apply patch

/-- What an operation makes of the invariant. -/
theorem Traceable.exec (h : Traceable X st.transactions) (op : Operation) (genuine : op.Genuine) :
    Traceable X (op.exec X st).transactions := by
  cases op with
  | sync C raws =>
    refine h.upsertMany fun txn sent => .inr (.inr ?_)
    obtain ⟨raw, hraw, rfl⟩ := List.mem_map.mp sent
    exact mapTransaction_synced C (genuine raw hraw)
  | removeByProviderIds ids => exact h.filter _
  | update id patch => exact h.modify id patch
  | commit rules accounts draw input read =>
    rcases commit_cases X rules accounts draw input read st with
      unchanged | ⟨account, parsed, -, committed⟩
    · rw [Operation.exec, unchanged]
      exact h
    · rw [Operation.exec, committed]
      exact h.upsertMany fun txn sent => .inl (transactions_imported sent)
  | finalize P importId accountId batchId included =>
    refine h.upsertMany fun txn sent => .inr (.inl ?_)
    obtain ⟨row, -, rfl⟩ := List.mem_map.mp sent
    exact transactionOf_approved P importId accountId batchId row
  | revert id now =>
    simp only [Operation.exec, ImportsService.revert, InMemoryImports.revert]
    split
    · exact h
    · split
      · exact h
      · exact h.filter _

/-- The invariant of every ledger that can be reached. -/
theorem Reachable.traceable (reachable : Reachable X st) : Traceable X st.transactions := by
  induction reachable with
  | empty => exact ⟨List.nodup_nil, by simp⟩
  | step _ op genuine ih => exact ih.exec op genuine

end Invariant

end Finverse.Imports
