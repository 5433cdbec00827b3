import Finverse.Imports.Runs

/-! Undoing an import. -/

namespace Finverse.Imports

open Categorization (CategorizationRule)
open Ledger

/-- A write to the transactions of a user. -/
inductive Write
  | upsertMany (txns : List Transaction)
  | update (id : String) (patch : TransactionPatch)
  | removeByProviderIds (ids : List String)
  | removeByImportBatch (id : String)

def Write.exec (rows : List Transaction) : Write → List Transaction
  | .upsertMany txns => (InMemoryTransactionStore.upsertMany rows txns).2
  | .update id patch => (InMemoryTransactionStore.update rows id patch).2
  | .removeByProviderIds ids => (InMemoryTransactionStore.removeByProviderIds rows ids).2
  | .removeByImportBatch id => (InMemoryTransactionStore.removeByImportBatch rows id).2

/-- The write is none on the rows of a batch. -/
def Write.Spares (batchId : String) (imported : List Transaction) : Write → Prop
  | .upsertMany txns => ∀ txn ∈ txns,
      txn.importBatchId ≠ some batchId ∧ txn.key ∉ imported.map Transaction.key
  | .update id _ => id ∉ imported.map Transaction.id
  | .removeByProviderIds ids => ∀ t ∈ imported, t.providerTxnId ∉ ids
  | .removeByImportBatch id => id ≠ batchId

/-- The transactions that do not carry the mark of a batch. -/
def unmarked (batchId : String) (rows : List Transaction) : List Transaction :=
  rows.filter fun t => t.importBatchId ≠ some batchId

/-- The ledger holds `others`, and besides them only rows of the batch. -/
structure Besides (batchId : String) (imported others rows : List Transaction) : Prop where
  others : unmarked batchId rows = others
  mine : ∀ t ∈ rows, t.importBatchId = some batchId → t ∈ imported

section Besides

variable {batchId : String} {imported others rows : List Transaction}

theorem Besides.upsertRow (h : Besides batchId imported others rows) {txn : Transaction}
    (unmarked : txn.importBatchId ≠ some batchId) (other : txn.key ∉ imported.map Transaction.key) :
    Besides batchId imported (InMemoryTransactionStore.upsertRow others txn)
      (InMemoryTransactionStore.upsertRow rows txn) := by
  have resynced : ∀ row, (InMemoryTransactionStore.resync row txn).importBatchId ≠ some batchId := by
    intro row
    rw [(resync_fields row txn).2.2.2.2.2.2]
    exact unmarked
  constructor
  · rw [← h.others]
    refine Table.filter_upsert (by simpa using unmarked) fun row stored same => ⟨?_, ?_⟩
    · have notMine : row.importBatchId ≠ some batchId := by
        intro marked
        exact other (same ▸ List.mem_map_of_mem (h.mine row stored marked))
      simpa using notMine
    · simpa using resynced row
  · intro t stored marked
    rcases Table.mem_upsert stored with stored | rfl | ⟨old, held, -, rfl⟩
    · exact h.mine t stored marked
    · exact absurd marked unmarked
    · exact absurd marked (resynced old)

theorem filter_modify {p : Transaction → Bool} {id : String} {change : Transaction → Transaction}
    (kept : ∀ t, p (change t) = p t) (found : ∀ t ∈ rows, t.id = id → p t = true) :
    (Table.modify Transaction.id id change rows).filter p =
      Table.modify Transaction.id id change (rows.filter p) := by
  induction rows with
  | nil => rfl
  | cons r rs ih =>
    rw [Table.modify]
    by_cases hr : r.id = id
    · have hp := found r List.mem_cons_self hr
      rw [if_pos hr, List.filter_cons_of_pos (by rw [kept, hp]), List.filter_cons_of_pos hp,
        Table.modify, if_pos hr]
    · have rest := ih fun t stored => found t (List.mem_cons_of_mem _ stored)
      rw [if_neg hr]
      by_cases hp : p r = true
      · rw [List.filter_cons_of_pos hp, List.filter_cons_of_pos hp, Table.modify, if_neg hr, rest]
      · rw [List.filter_cons_of_neg hp, List.filter_cons_of_neg hp, rest]

theorem Besides.modify (h : Besides batchId imported others rows) {id : String}
    (other : id ∉ imported.map Transaction.id) (patch : TransactionPatch) :
    Besides batchId imported (Table.modify Transaction.id id patch.apply others)
      (Table.modify Transaction.id id patch.apply rows) := by
  have notMine : ∀ t ∈ rows, t.id = id → t.importBatchId ≠ some batchId := by
    intro t stored same marked
    exact other (same ▸ List.mem_map_of_mem (h.mine t stored marked))
  constructor
  · rw [← h.others]
    exact filter_modify (fun _ => rfl) fun t stored same => by simpa using notMine t stored same
  · intro t stored marked
    rcases Table.mem_modify stored with stored | ⟨old, held, same, rfl⟩
    · exact h.mine t stored marked
    · exact absurd marked (notMine old held same)

theorem Besides.filter (h : Besides batchId imported others rows) (p : Transaction → Bool) :
    Besides batchId imported (others.filter p) (rows.filter p) where
  others := by
    rw [← h.others, unmarked, unmarked, List.filter_filter, List.filter_filter]
    simp only [Bool.and_comm]
  mine := fun t stored => h.mine t (List.mem_of_mem_filter stored)

/-- A write that spares the rows of the batch does to the other rows what it does without them. -/
theorem Besides.exec (h : Besides batchId imported others rows) {write : Write}
    (spares : write.Spares batchId imported) :
    Besides batchId imported (write.exec others) (write.exec rows) := by
  cases write with
  | upsertMany txns =>
    rw [Write.exec, Write.exec, InMemoryTransactionStore.upsertMany_rows,
      InMemoryTransactionStore.upsertMany_rows]
    induction txns generalizing others rows with
    | nil => exact h
    | cons txn txns ih =>
      obtain ⟨notMarked, other⟩ := spares txn List.mem_cons_self
      exact ih (h.upsertRow notMarked other) fun later sent => spares later (List.mem_cons_of_mem _ sent)
  | update id patch => exact h.modify spares patch
  | removeByProviderIds ids => exact h.filter _
  | removeByImportBatch id => exact h.filter _

theorem Besides.run (h : Besides batchId imported others rows) {writes : List Write}
    (spare : ∀ write ∈ writes, write.Spares batchId imported) :
    Besides batchId imported (writes.foldl Write.exec others) (writes.foldl Write.exec rows) := by
  induction writes generalizing others rows with
  | nil => exact h
  | cons write writes ih =>
    exact ih (h.exec (spare write List.mem_cons_self))
      fun later sent => spare later (List.mem_cons_of_mem _ sent)

end Besides

/-! ### A commit and its undoing -/

section Undo

variable {X : ImportsContext} {st : InMemoryImports}

/-- Rows of new fingerprints are appended, and stand besides what was there. -/
theorem besides_of_upsertMany {batchId : String} {imported rows : List Transaction}
    (noMark : ∀ t ∈ rows, t.importBatchId ≠ some batchId)
    (marked : ∀ t ∈ imported, t.importBatchId = some batchId)
    (distinct : (imported.map Transaction.key).Nodup)
    (absent : ∀ t ∈ imported, t.key ∉ rows.map Transaction.key) :
    Besides batchId imported rows (InMemoryTransactionStore.upsertMany rows imported).2 := by
  have appended : (InMemoryTransactionStore.upsertMany rows imported).2 = rows ++ imported := by
    rw [InMemoryTransactionStore.upsertMany_rows]
    exact Table.foldl_upsert_absent distinct absent
  have old : unmarked batchId rows = rows :=
    List.filter_eq_self.mpr fun t stored => by simpa using noMark t stored
  have new : unmarked batchId imported = [] :=
    List.filter_eq_nil_iff.mpr fun t stored => by simpa using marked t stored
  rw [appended]
  constructor
  · rw [unmarked, List.filter_append]
    exact (congrArg₂ (· ++ ·) old new).trans (List.append_nil rows)
  · intro t stored mark
    rcases List.mem_append.mp stored with stored | stored
    · exact absurd mark (noMark t stored)
    · exact stored

/-- The transactions of one account differ in their keys when their provider ids differ. -/
theorem keys_of_providerTxnIds {accountId : String} {imported : List Transaction}
    (account : ∀ t ∈ imported, t.accountId = accountId)
    (distinct : (imported.map Transaction.providerTxnId).Nodup) :
    (imported.map Transaction.key).Nodup := by
  have keys : imported.map Transaction.key =
      (imported.map Transaction.providerTxnId).map (accountId, ·) := by
    rw [List.map_map]
    exact List.map_congr_left fun t stored => congrArg (·, t.providerTxnId) (account t stored)
  rw [keys]
  exact distinct.map fun _ _ same => (Prod.mk.inj same).2

theorem mem_transactions {C : ImportContext} {account : Account} {rows : List ReviewedRow}
    {t : Transaction} (h : t ∈ Ledger.ImportsService.transactions C account rows) :
    t.accountId = account.id ∧ t.importBatchId = some C.batchId := by
  obtain ⟨row, -, ht⟩ := List.mem_filterMap.mp h
  split at ht
  · obtain rfl := Option.some.inj ht
    exact ⟨rfl, rfl⟩
  · cases ht

/-- What a successful commit leaves. -/
theorem commit_ok {rules : List CategorizationRule} {accounts : List Account} {draw : Draw}
    {input : CommitInput} {account : Account} {parsed : ParsedCsv} {batch : ImportBatch}
    {read : List Transaction} {st' : InMemoryImports}
    (opened : ImportsService.openFile accounts input = .ok (account, parsed))
    (committed : ImportsService.commit X rules accounts draw input read st = (.ok batch, st')) :
    let rows := (ImportsService.reviewFile X account input.mapping parsed read).rows
    let C := ImportsService.importContext X rules draw
    batch = Ledger.ImportsService.batch C account input.filename rows ∧
      st' = ⟨(InMemoryTransactionStore.upsertMany st.transactions
        (Ledger.ImportsService.transactions C account rows)).2, st.byUser ++ [batch]⟩ := by
  simp only [ImportsService.commit, opened, Ledger.ImportsService.commit] at committed
  split at committed
  · cases (Prod.mk.inj committed).1
  · obtain ⟨hbatch, rfl⟩ := Prod.mk.inj committed
    obtain rfl := Except.ok.inj hbatch
    exact ⟨rfl, rfl⟩

theorem lookup_last {batches : List ImportBatch} {batch : ImportBatch}
    (fresh : batch.id ∉ batches.map ImportBatch.id) :
    Table.lookup ImportBatch.id batch.id (batches ++ [batch]) = some batch := by
  have absent : Table.lookup ImportBatch.id batch.id batches = none :=
    Table.lookup_eq_none.mpr fresh
  rw [Table.lookup, List.find?_append, ← Table.lookup, absent]
  simp

/-- The revert of a committed batch removes what carries its mark. -/
theorem revert_committed (st : InMemoryImports) {id : String} (now : String) {batch : ImportBatch}
    (found : Table.lookup ImportBatch.id id st.byUser = some batch)
    (committed : batch.status = .committed) :
    ∃ removed, (ImportsService.revert id now st).1 = .ok removed ∧
      (ImportsService.revert id now st).2.transactions = unmarked id st.transactions := by
  have open_ : batch.status ≠ .reverted := by
    rw [committed]
    exact nofun
  simp only [ImportsService.revert, InMemoryImports.revert, found, if_neg open_]
  exact ⟨_, rfl, rfl⟩

theorem revert_transactions (st : InMemoryImports) (id now : String) :
    (ImportsService.revert id now st).2.transactions = st.transactions ∨
      (ImportsService.revert id now st).2.transactions = unmarked id st.transactions := by
  simp only [ImportsService.revert, InMemoryImports.revert]
  split
  · exact .inl rfl
  · split
    · exact .inl rfl
    · exact .inr rfl

/-- The transactions that a file is imported as. -/
def importedBy (X : ImportsContext) (rules : List CategorizationRule) (draw : Draw)
    (account : Account) (mapping : ColumnMapping) (parsed : ParsedCsv) (read : List Transaction) :
    List Transaction :=
  Ledger.ImportsService.transactions (ImportsService.importContext X rules draw) account
    (ImportsService.reviewFile X account mapping parsed read).rows

/-- What is committed under new fingerprints stands besides the ledger it is committed to. -/
theorem commit_besides {rules : List CategorizationRule} {accounts : List Account} {draw : Draw}
    {input : CommitInput} {account : Account} {parsed : ParsedCsv} {batch : ImportBatch}
    {read : List Transaction} {st' : InMemoryImports} (fresh : Fresh draw.batchId st)
    (opened : ImportsService.openFile accounts input = .ok (account, parsed))
    (distinct : ((importedBy X rules draw account input.mapping parsed read).map
      Transaction.providerTxnId).Nodup)
    (absent : ∀ t ∈ st.transactions, t.accountId = account.id → t.providerTxnId ∉
      (importedBy X rules draw account input.mapping parsed read).map Transaction.providerTxnId)
    (committed : ImportsService.commit X rules accounts draw input read st = (.ok batch, st')) :
    batch.id = draw.batchId ∧ batch.status = .committed ∧ st'.byUser = st.byUser ++ [batch] ∧
      Besides draw.batchId (importedBy X rules draw account input.mapping parsed read)
        st.transactions st'.transactions := by
  obtain ⟨rfl, rfl⟩ := commit_ok opened committed
  refine ⟨rfl, rfl, rfl, ?_⟩
  refine besides_of_upsertMany fresh.2 (fun t imported => (mem_transactions imported).2)
    (keys_of_providerTxnIds (fun t imported => (mem_transactions imported).1) distinct) ?_
  intro t imported present
  obtain ⟨held, stored, same⟩ := List.mem_map.mp present
  obtain ⟨haccount, hprovider⟩ := Prod.mk.inj same
  refine absent held stored (haccount.trans (mem_transactions imported).1) ?_
  rw [hprovider]
  exact List.mem_map_of_mem imported

theorem removed_marked {id now : String} {t : Transaction} (stored : t ∈ st.transactions)
    (removed : t ∉ (ImportsService.revert id now st).2.transactions) : t.importBatchId = some id := by
  rcases revert_transactions st id now with unchanged | rest
  · rw [unchanged] at removed
    exact absurd stored removed
  · rw [rest, unmarked, List.mem_filter] at removed
    by_contra other
    exact removed ⟨stored, by simpa using other⟩

/-- Undoing an import of new fingerprints gives back the ledger, with the other changes made since;
and no undoing removes anything but rows of its batch, none of which a sync created. -/
theorem import_undo (reachable : Reachable X st) :
    (∀ (rules : List CategorizationRule) (accounts : List Account) (draw : Draw)
      (input : CommitInput) (account : Account) (parsed : ParsedCsv) (read : List Transaction)
      (batch : ImportBatch) (st' : InMemoryImports), Fresh draw.batchId st →
      ImportsService.openFile accounts input = .ok (account, parsed) →
      let imported := importedBy X rules draw account input.mapping parsed read
      (imported.map Transaction.providerTxnId).Nodup →
      (∀ t ∈ st.transactions, t.accountId = account.id →
        t.providerTxnId ∉ imported.map Transaction.providerTxnId) →
      ImportsService.commit X rules accounts draw input read st = (.ok batch, st') →
      Table.lookup ImportBatch.id batch.id st'.byUser = some batch ∧
      ∀ (writes : List Write) (batches : List ImportBatch) (now : String),
        (∀ write ∈ writes, write.Spares batch.id imported) →
        Table.lookup ImportBatch.id batch.id batches = some batch →
        ∃ removed after, ImportsService.revert batch.id now
            ⟨writes.foldl Write.exec st'.transactions, batches⟩ = (.ok removed, after) ∧
          after.transactions = writes.foldl Write.exec st.transactions) ∧
    ∀ (id now : String), ∀ t ∈ st.transactions, t ∉ (ImportsService.revert id now st).2.transactions →
      t.importBatchId = some id ∧ ¬SyncCreated t := by
  constructor
  · intro rules accounts draw input account parsed read batch st' fresh opened imported distinct
      absent committed
    obtain ⟨hid, hstatus, hbatches, besides⟩ :=
      commit_besides fresh opened distinct absent committed
    have newest : batch.id ∉ st.byUser.map ImportBatch.id := hid ▸ fresh.1
    refine ⟨hbatches ▸ lookup_last newest, ?_⟩
    intro writes batches now spare found
    rw [hid] at spare found
    obtain ⟨removed, answered, rest⟩ := revert_committed
      ⟨writes.foldl Write.exec st'.transactions, batches⟩ now found hstatus
    refine ⟨removed, _, Prod.ext (hid ▸ answered) rfl, ?_⟩
    rw [hid, rest]
    exact (besides.run spare).others
  · intro id now t stored removed
    have marked := removed_marked stored removed
    refine ⟨marked, fun created => ?_⟩
    rw [(reachable.traceable.2 t stored).mark_of_syncCreated created] at marked
    cases marked

end Undo

/-! A file of one row, for an account that was synced before. -/

def paper : ImportsContext where
  text := Categorization.ascii
  numberToMinor := fun text _ => some (decimal text.toList)
  lexicon := []
  sha256Hex := id

def checking : Account := ⟨"a1", "USD"⟩

def tea : RawTransaction := ⟨"p1", "a1", "2026-05-01", -7, "USD", "TEA", false⟩

def synced : InMemoryImports :=
  (Operation.sync (ImportsService.categorizer paper []) [tea]).exec paper ⟨[], []⟩

def cafeFile : CommitInput where
  accountId := "a1"
  filename := "may.csv"
  content := "Day,Memo,Sum\n2026-05-30,CAFE,-4\n"
  mapping :=
    { date := "Day"
      description := "Memo"
      amount := some "Sum"
      convention := .signed
      dateOrder := .ymd }

def cafeParsed : ParsedCsv := ⟨["Day", "Memo", "Sum"], [["2026-05-30", "CAFE", "-4"]], ',', []⟩

def cafeBatch : ImportBatch where
  id := "b1"
  accountId := "a1"
  filename := "may.csv"
  status := .committed
  rowsTotal := 1
  rowsImported := 1
  rowsDuplicate := 0
  rowsInvalid := 0
  createdAt := "2026-06-01"
  revertedAt := none

/-- The ledger after the import of the file. -/
def cafeImported : InMemoryImports :=
  (ImportsService.commit paper [] [checking] ⟨"b1", "2026-06-01"⟩ cafeFile synced.transactions
    synced).2

theorem synced_reachable : Reachable paper synced :=
  .step .empty _ (by simp [Operation.Genuine, tea, isCsvId, isManualId])

/-- An import between a sync and a correction of the synced row. -/
theorem import_undo_cafe :
    Reachable paper synced ∧
    ImportsService.openFile [checking] cafeFile = .ok (checking, cafeParsed) ∧
    ImportsService.commit paper [] [checking] ⟨"b1", "2026-06-01"⟩ cafeFile synced.transactions
      synced = (.ok cafeBatch, cafeImported) ∧
    cafeImported.transactions.map Transaction.providerTxnId = ["p1", "csv_a1|2026-05-30|-4|CAFE"] ∧
    (∃ removed after, ImportsService.revert "b1" "2026-06-02"
        ⟨[Write.update "txn_a1_p1" { isRecurring := some true }].foldl Write.exec
          cafeImported.transactions, cafeImported.byUser⟩ = (.ok removed, after) ∧
      after.transactions = [Write.update "txn_a1_p1" { isRecurring := some true }].foldl Write.exec
        synced.transactions) := by
  have opened : ImportsService.openFile [checking] cafeFile = .ok (checking, cafeParsed) := by
    decide +kernel
  have committed : ImportsService.commit paper [] [checking] ⟨"b1", "2026-06-01"⟩ cafeFile
      synced.transactions synced = (.ok cafeBatch, cafeImported) :=
    Prod.ext (by decide +kernel) rfl
  have ids : (importedBy paper [] ⟨"b1", "2026-06-01"⟩ checking cafeFile.mapping cafeParsed
      synced.transactions).map Transaction.id = ["imp_b1_2"] := by decide +kernel
  have undone := (import_undo synced_reachable).1 [] [checking] ⟨"b1", "2026-06-01"⟩ cafeFile
    checking cafeParsed synced.transactions cafeBatch cafeImported
    ⟨by decide +kernel, by decide +kernel⟩ opened (by decide +kernel) (by decide +kernel) committed
  refine ⟨synced_reachable, opened, committed, by decide +kernel, ?_⟩
  refine undone.2 _ _ _ ?_ undone.1
  simp [Write.Spares, ids]

end Finverse.Imports
