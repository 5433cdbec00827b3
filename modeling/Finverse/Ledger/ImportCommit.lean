import Finverse.Ledger.MemoryStore
import Finverse.Ledger.PostgresStore

/-! Committing a reviewed file, on either import store. -/

namespace Finverse.Ledger

open Sql

/-! ### The service -/

inductive RowDecision
  | importRow
  | duplicate
  | invalid
  deriving DecidableEq, Repr

/-- One line of a reviewed file. The facts of a transaction are populated when it is importable. -/
structure ReviewedRow where
  line : Nat
  decision : RowDecision
  postedAt : Option IsoDate := none
  amount : Option Int := none
  descriptor : Option String := none
  normalizedDescriptor : Option String := none
  reason : Option String := none
  duplicateConfidence : Option Rat := none
  duplicateOfId : Option String := none
  raw : List String
  populated : decision = .importRow →
    postedAt.isSome ∧ amount.isSome ∧ descriptor.isSome ∧ normalizedDescriptor.isSome

structure Account where
  id : String
  currency : String
  deriving DecidableEq, Repr

/-- What a commit draws on besides the file: the descriptor rules, a digest, a fresh id and the
clock. -/
structure ImportContext where
  categorizer : Categorizer
  sha256Hex : String → String
  batchId : String
  now : String

namespace ImportsService

def fingerprint (X : ImportContext) (accountId : String) (postedAt : IsoDate) (amount : Int)
    (descriptor : String) : String :=
  String.ofList ((X.sha256Hex (accountId ++ "|" ++ postedAt ++ "|" ++ toString amount ++ "|" ++
    descriptor)).toList.take 32)

def toLedger (X : ImportContext) (account : Account) (row : ReviewedRow)
    (h : row.decision = .importRow) : Transaction :=
  let postedAt := row.postedAt.get (row.populated h).1
  let amount := row.amount.get (row.populated h).2.1
  let descriptor := row.descriptor.get (row.populated h).2.2.1
  let categorization := X.categorizer.categorizeDescriptor descriptor
  { id := "imp_" ++ X.batchId ++ "_" ++ toString row.line
    accountId := account.id
    providerTxnId := "csv_" ++ fingerprint X account.id postedAt amount descriptor
    postedAt
    amount
    currency := account.currency
    rawDescriptor := descriptor
    normalizedDescriptor := row.normalizedDescriptor.get (row.populated h).2.2.2
    merchant := categorization.merchant
    categorySlug := categorization.categorySlug
    categorySource := categorization.source
    categoryConfidence := categorization.confidence
    isRecurring := false
    pending := false
    importBatchId := some X.batchId }

/-- The transactions of the importable rows. -/
def transactions (X : ImportContext) (account : Account) (rows : List ReviewedRow) :
    List Transaction :=
  rows.filterMap fun row =>
    if h : row.decision = .importRow then some (toLedger X account row h) else none

/-- The longest prefix of at most `n` UTF-16 units. -/
def sliceUtf16 : Nat → List Char → List Char
  | _, [] => []
  | n, c :: cs =>
    let units := if c.val < 0x10000 then 1 else 2
    if units ≤ n then c :: sliceUtf16 (n - units) cs else []

def batch (X : ImportContext) (account : Account) (filename : String) (rows : List ReviewedRow) :
    ImportBatch where
  id := X.batchId
  accountId := account.id
  filename := String.ofList (sliceUtf16 260 filename.toList)
  status := .committed
  rowsTotal := rows.length
  rowsImported := rows.countP (·.decision = .importRow)
  rowsDuplicate := rows.countP (·.decision = .duplicate)
  rowsInvalid := rows.countP (·.decision = .invalid)
  createdAt := X.now
  revertedAt := none

inductive CommitError
  | badRequest (message : String)
  | store (violation : Violation)
  deriving DecidableEq, Repr

/-- Imports the rows that the review marked importable, through the commit of some store. -/
def commit {σ : Type} (X : ImportContext) (account : Account) (filename : String)
    (rows : List ReviewedRow)
    (store : ImportBatch → List Transaction → σ → Except Violation ImportBatch × σ) (s : σ) :
    Except CommitError ImportBatch × σ :=
  if rows.all (·.decision ≠ .importRow) then
    (.error (.badRequest "Nothing in this file is importable."), s)
  else
    let (result, s') := store (batch X account filename rows) (transactions X account rows) s
    (result.mapError .store, s')

end ImportsService

/-- The in-memory commit never fails. -/
def memoryCommit (batch : ImportBatch) (transactions : List Transaction) (st : InMemoryImports) :
    Except Violation ImportBatch × InMemoryImports :=
  let (result, st') := st.commit batch transactions
  (.ok result, st')

/-! ### Agreement -/

/-- Both commits fail and change nothing, or both succeed and leave the same ledger. -/
def CommitsAgree (userId : Nat) (db : Database) (st : InMemoryImports)
    (postgres : Except ImportsService.CommitError ImportBatch × Database)
    (memory : Except ImportsService.CommitError ImportBatch × InMemoryImports) : Prop :=
  (postgres.1.isOk = false ∧ memory.1.isOk = false ∧ postgres.2 = db ∧ memory.2 = st) ∨
    (postgres.1.isOk = true ∧ memory.1.isOk = true ∧
      (postgres.2.ledger userId).Perm memory.2.transactions)

section Commit

variable {X : ImportContext} {account : Account} {filename : String} {rows : List ReviewedRow}

/-- An import names no category source, and the column takes no null. -/
theorem import_tuple_refused (userId : Nat) (batch : ImportBatch) (txn : Transaction) :
    ∃ violation, (PostgresImportBatchStore.tuple userId batch txn).accept = .error violation := by
  simp only [TransactionTuple.accept, PostgresImportBatchStore.tuple, notNull, pure_bind]
  cases bigint "amount" txn.amount with
  | error violation => exact ⟨violation, rfl⟩
  | ok amount =>
    cases char3 "currency" txn.currency with
    | error violation => exact ⟨violation, rfl⟩
    | ok currency => exact ⟨.notNull "category_source", rfl⟩

/-- No import with a transaction in it is ever committed. -/
theorem postgres_commit_fails (userId : Nat) (batch : ImportBatch) (txn : Transaction)
    (txns : List Transaction) (db : Database) :
    ∃ violation, PostgresImportBatchStore.commit userId batch (txn :: txns) db =
      (.error violation, db) := by
  obtain ⟨ys, rest, hchunk⟩ := chunk_cons (by decide : 0 < 500) txn txns
  obtain ⟨violation, hrefused⟩ := import_tuple_refused userId batch txn
  cases hb : Sql.insert db.importBatchesTarget .abort
      [⟨userId, { batch with revertedAt := none }⟩] db.importBatches with
  | error earlier =>
    refine ⟨earlier, withTransaction_error ?_⟩
    simp only [hb]
    rfl
  | ok batches =>
    let tuple := PostgresImportBatchStore.tuple userId batch
    have refused : insertBatches db.transactionsTarget .doNothing
        ((tuple txn :: ys.map tuple) :: rest.map (·.map tuple)) db.transactions =
          .error violation := insertBatches_refused hrefused
    refine ⟨violation, withTransaction_error ?_⟩
    simp only [hb, hchunk, List.map_cons]
    change (insertBatches _ _ _ _ >>= _) = _
    rw [refused]
    rfl

theorem transactions_cons (X : ImportContext) (account : Account)
    (h : ∃ row ∈ rows, row.decision = .importRow) :
    ∃ txn txns, ImportsService.transactions X account rows = txn :: txns := by
  obtain ⟨row, hrow, hd⟩ := h
  have hmem : ImportsService.toLedger X account row hd ∈
      ImportsService.transactions X account rows :=
    List.mem_filterMap.mpr ⟨row, hrow, by simp [hd]⟩
  exact List.exists_cons_of_ne_nil (List.ne_nil_of_mem hmem)

/-- The two stores agree on a commit, whatever they hold, exactly when no reviewed row is to be
imported and the service refuses. -/
theorem commit_agrees_iff (X : ImportContext) (account : Account) (filename : String)
    (rows : List ReviewedRow) (userId : Nat) (db : Database) (st : InMemoryImports) :
    CommitsAgree userId db st
      (ImportsService.commit X account filename rows (PostgresImportBatchStore.commit userId) db)
      (ImportsService.commit X account filename rows memoryCommit st) ↔
    ∀ row ∈ rows, row.decision ≠ .importRow := by
  constructor
  · intro agree row hrow hd
    have some : ¬rows.all (·.decision ≠ .importRow) = true := by
      intro hall
      simpa [hd] using List.all_eq_true.mp hall row hrow
    obtain ⟨txn, txns, htxns⟩ := transactions_cons X account ⟨row, hrow, hd⟩
    obtain ⟨violation, hfails⟩ := postgres_commit_fails userId
      (ImportsService.batch X account filename rows) txn txns db
    simp only [ImportsService.commit, if_neg some, htxns, hfails] at agree
    rcases agree with ⟨-, hmemory, -, -⟩ | ⟨hpostgres, -, -⟩
    · simp [memoryCommit, Except.mapError, Except.isOk, Except.toBool] at hmemory
    · simp [Except.mapError, Except.isOk, Except.toBool] at hpostgres
  · intro none
    have all : rows.all (·.decision ≠ .importRow) = true := by
      simpa using none
    refine .inl ?_
    simp only [ImportsService.commit, if_pos all]
    simp [Except.isOk, Except.toBool]

end Commit

/-! ### One line -/

/-- Every descriptor is a known merchant. -/
def sampleCategorizer : Categorizer where
  normalizeDescriptor := id
  categorizeDescriptor := fun descriptor => ⟨"groceries", .lexicon, 9 / 10, some descriptor⟩

def sampleContext : ImportContext := ⟨sampleCategorizer, id, "batch", "2026-05-31T12:00:00.000Z"⟩

def statementLine : ReviewedRow where
  line := 2
  decision := .importRow
  postedAt := some "2026-05-30"
  amount := some (-450)
  descriptor := some "corner shop"
  normalizedDescriptor := some "corner shop"
  raw := ["2026-05-30", "corner shop", "-4.50"]
  populated := fun _ => by simp

def emptyDatabase : Database := ⟨[(1, "checking")], .empty, .empty⟩

/-- The line reaches the in-memory ledger, and Postgres refuses it. -/
theorem import_stored_in_memory_only :
    let postgres := ImportsService.commit sampleContext ⟨"checking", "EUR"⟩ "may.csv" [statementLine]
      (PostgresImportBatchStore.commit 1) emptyDatabase
    let memory := ImportsService.commit sampleContext ⟨"checking", "EUR"⟩ "may.csv" [statementLine]
      memoryCommit ⟨[], []⟩
    emptyDatabase.ledger 1 = [] ∧
      postgres.1 = .error (.store (.notNull "category_source")) ∧
      memory.1.isOk = true ∧ memory.2.transactions.length = 1 ∧
      ¬CommitsAgree 1 emptyDatabase ⟨[], []⟩ postgres memory := by
  refine ⟨rfl, by decide +kernel, by decide +kernel, by decide +kernel, ?_⟩
  have refused : (ImportsService.commit sampleContext ⟨"checking", "EUR"⟩ "may.csv" [statementLine]
      (PostgresImportBatchStore.commit 1) emptyDatabase).1.isOk = false := by decide +kernel
  have stored : (ImportsService.commit sampleContext ⟨"checking", "EUR"⟩ "may.csv" [statementLine]
      memoryCommit ⟨[], []⟩).1.isOk = true := by decide +kernel
  rintro (⟨-, hmemory, -, -⟩ | ⟨hpostgres, -, -⟩)
  · rw [stored] at hmemory
    cases hmemory
  · rw [refused] at hpostgres
    cases hpostgres

end Finverse.Ledger
