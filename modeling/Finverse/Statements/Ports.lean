import Finverse.Framework.Pool
import Finverse.Framework.Solo
import Finverse.Statements.PostgresStore

/-! The operations of the statement and transaction stores, and the two adapters behind them. -/

namespace Finverse.Statements

open Interleave Ledger

/-- The statements and the ledger of each user, and the batches written (which are not kept in
memory). -/
structure Imports where
  statements : InMemoryStatementImportStore := ∅
  ledger : OrdMap String (List Transaction) := ∅
  batches : List ImportBatch := []

def Imports.ledgerOf (w : Imports) (userId : String) : List Transaction :=
  (w.ledger.get? userId).getD []

/-- Rows as they are read. How often they were written before is history. -/
structure RowsRead where
  rows : List StatementRowRecord
  edits : Nat

inductive Operation
  | create (userId : String) (statement : StatementImport) (encryptedSource : String)
      (rows : List StatementRowRecord)
  | enqueue (userId : String) (statement : StatementImport) (encryptedSource : String)
  | claim (limit : Int) (now : Instant)
  | source (userId importId : String)
  | completeProcessing (userId importId : String) (rows : List StatementRowRecord)
      (processedAt : Instant)
  | failProcessing (userId importId error : String) (now : Instant)
  | get (userId id : String)
  | rows (userId id : String)
  | updateRow (userId importId rowId : String) (patch : RowPatch) (now : Instant)
  | updateRowsDecision (userId importId : String) (rowIds : List String)
      (decision : StatementRowDecision) (now : Instant)
  | splitRow (userId importId rowId : String) (parts : List StatementRowRecord) (now : Instant)
  | mergeRows (userId importId : String) (rowIds : List String) (merged : StatementRowRecord)
      (now : Instant)
  | listTransactions (userId accountId : String)
  | finalize (userId importId : String) (batch : ImportBatch) (transactions : List Transaction)
      (now : Instant) (readAt : Nat)
  | deleteSource (userId id : String) (now : Instant)
  | delete (userId id : String) (now : Instant)

/-- What a store may throw. -/
abbrev StoreReply (α : Type) : Type := Except String α

abbrev Operation.Reply : Operation → Type
  | .create .. | .enqueue .. => StoreReply StatementImport
  | .claim .. => List StatementImportJob
  | .source .. => Option (StatementImport × String)
  | .completeProcessing .. => StoreReply (Option StatementImport)
  | .failProcessing .. => Option Unit
  | .get .. => Option StatementImport
  | .rows .. => RowsRead
  | .updateRow .. => Option StatementRowRecord
  | .updateRowsDecision .. => Option (List StatementRowRecord)
  | .splitRow .. => StoreReply (Option (List StatementRowRecord))
  | .mergeRows .. => StoreReply (Option StatementRowRecord)
  | .listTransactions .. => List Transaction
  | .finalize .. => StoreReply (Option StatementImport)
  | .deleteSource .. | .delete .. => Option Unit

abbrev ports : Interface := ⟨Operation, Operation.Reply⟩

inductive Adapter
  | memory
  | postgres
  deriving DecidableEq, Repr

variable (w : Imports)

/-- Puts back what an operation made of the statements. -/
def Imports.keep {α : Type} (result : α × InMemoryStatementImportStore) : α × Imports :=
  (result.1, { w with statements := result.2 })

/-- How often the rows of a statement were written. -/
def Imports.edits (userId id : String) : Nat :=
  ((w.statements.find userId id).map (·.edits)).getD 0

def finalizeInMemory (userId importId : String) (transactions : List Transaction) (now : Instant) :
    StoreReply (Option StatementImport) × Imports :=
  match w.statements.revise userId importId (·.finalize now) with
  | (none, statements) => (.ok none, { w with statements })
  | (some result, statements) =>
    let ledger := (InMemoryTransactionStore.upsertMany (w.ledgerOf userId) transactions).2
    (.ok (some result), { w with statements, ledger := w.ledger.set userId ledger })

def finalizeInPostgres (userId importId : String) (batch : ImportBatch)
    (transactions : List Transaction) (now : Instant) :
    StoreReply (Option StatementImport) × Imports :=
  match PostgresStatementImportStore.finalize w.statements userId importId transactions now
    (w.ledgerOf userId) with
  | .error e => (.error e, w)
  | .ok none => (.ok none, w)
  | .ok (some (result, statements, ledger)) =>
    (.ok (some result),
      ⟨statements, w.ledger.set userId ledger, w.batches ++ [batch]⟩)

namespace Adapter

/-- Writes rows of which `new` are added. Postgres refuses ids it already has. -/
def reviseRows {α : Type} (A : Adapter) (st : InMemoryStatementImportStore)
    (userId importId : String) (new : List StatementRowRecord)
    (change : StoredStatement → Option (α × StoredStatement)) :
    StoreReply (Option α) × InMemoryStatementImportStore :=
  match A with
  | .memory =>
    let (result, statements) := st.revise userId importId change
    (.ok result, statements)
  | .postgres => PostgresStatementImportStore.reviseRows st userId importId new change

def exec (A : Adapter) : (op : Operation) → Imports → op.Reply × Imports
  | .create userId statement encryptedSource rows, w =>
    w.keep <| match A with
      | .memory => w.statements.create userId statement encryptedSource rows
      | .postgres =>
        PostgresStatementImportStore.create w.statements userId statement encryptedSource rows
  | .enqueue userId statement encryptedSource, w =>
    w.keep <| match A with
      | .memory => w.statements.enqueue userId statement encryptedSource
      | .postgres =>
        PostgresStatementImportStore.enqueue w.statements userId statement encryptedSource
  | .claim limit now, w =>
    w.keep <| match A with
      | .memory => w.statements.claim limit now
      | .postgres => PostgresStatementImportStore.claim w.statements limit now
  | .source userId importId, w =>
    w.keep (w.statements.source userId importId, w.statements.touch userId)
  | .completeProcessing userId importId rows processedAt, w =>
    w.keep (A.reviseRows w.statements userId importId rows fun s =>
      match A with
      | .memory => s.completeProcessing rows processedAt
      | .postgres => s.completeProcessingPg rows processedAt)
  | .failProcessing userId importId error now, w =>
    w.keep (w.statements.revise userId importId (·.failProcessing error now))
  | .get userId id, w => w.keep (w.statements.get userId id, w.statements.touch userId)
  | .rows userId id, w =>
    let rows := match A with
      | .memory => w.statements.rows userId id
      | .postgres => PostgresStatementImportStore.rows w.statements userId id
    w.keep (⟨rows, w.edits userId id⟩, w.statements.touch userId)
  | .updateRow userId importId rowId patch now, w =>
    w.keep (w.statements.revise userId importId (·.updateRow rowId patch now))
  | .updateRowsDecision userId importId rowIds decision now, w =>
    w.keep <| match A with
      | .memory => w.statements.revise userId importId (·.updateRowsDecision rowIds decision now)
      | .postgres =>
        let (result, statements) :=
          w.statements.revise userId importId (·.updateRowsDecision rowIds.dedup decision now)
        (result.map (·.insertionSort PostgresStatementImportStore.rowOrder), statements)
  | .splitRow userId importId rowId parts now, w =>
    w.keep (A.reviseRows w.statements userId importId parts (·.splitRow rowId parts now))
  | .mergeRows userId importId rowIds merged now, w =>
    w.keep (A.reviseRows w.statements userId importId [merged] (·.mergeRows rowIds merged now))
  | .listTransactions userId accountId, w =>
    ((w.ledgerOf userId).filter fun t => t.accountId == accountId, w)
  | .finalize userId importId batch transactions now _, w =>
    match A with
    | .memory => finalizeInMemory w userId importId transactions now
    | .postgres => finalizeInPostgres w userId importId batch transactions now
  | .deleteSource userId id now, w =>
    w.keep (w.statements.revise userId id fun s =>
      match A with
      | .memory => s.deleteSource now
      | .postgres => s.deleteSourcePg now)
  | .delete userId id now, w =>
    w.keep (w.statements.revise userId id fun s =>
      match A with
      | .memory => s.delete now
      | .postgres => s.deletePg now)

end Adapter

/-- Rows that were written were written as in memory. -/
theorem Adapter.reviseRows_some {α : Type} {A : Adapter} {st : InMemoryStatementImportStore}
    {userId importId : String} {new : List StatementRowRecord} {result : α}
    {change : StoredStatement → Option (α × StoredStatement)}
    (ok : (A.reviseRows st userId importId new change).1 = .ok (some result)) :
    (st.revise userId importId change).1 = some result ∧
      (A.reviseRows st userId importId new change).2 = (st.revise userId importId change).2 := by
  cases A with
  | memory => exact ⟨Except.ok.inj ok, rfl⟩
  | postgres =>
    rw [reviseRows, PostgresStatementImportStore.reviseRows] at ok ⊢
    dsimp only at ok ⊢
    split at ok
    · cases ok
    · rename_i distinct
      rw [if_neg distinct]
      exact ⟨Except.ok.inj ok, rfl⟩

/-- Only places for users were made. -/
structure Imports.Unchanged (w w' : Imports) : Prop where
  bucket : ∀ userId, w'.statements.bucket userId = w.statements.bucket userId
  ledger : w'.ledger = w.ledger

section Unchanged

variable {w w' : Imports} {userId id accountId : String}

theorem Imports.Unchanged.refl (w : Imports) : w.Unchanged w := ⟨fun _ => rfl, rfl⟩

theorem Imports.Unchanged.trans {w'' : Imports} (first : w.Unchanged w')
    (second : w'.Unchanged w'') : w.Unchanged w'' :=
  ⟨fun userId => (second.bucket userId).trans (first.bucket userId),
    second.ledger.trans first.ledger⟩

theorem Imports.Unchanged.find (same : w.Unchanged w') :
    w'.statements.find userId id = w.statements.find userId id := by
  rw [InMemoryStatementImportStore.find, same.bucket, InMemoryStatementImportStore.find]

theorem Imports.Unchanged.ledgerOf (same : w.Unchanged w') :
    w'.ledgerOf userId = w.ledgerOf userId := by
  rw [Imports.ledgerOf, same.ledger, Imports.ledgerOf]

theorem Imports.unchanged_touch (w : Imports) (userId : String) :
    w.Unchanged { w with statements := w.statements.touch userId } :=
  ⟨fun _ => InMemoryStatementImportStore.bucket_touch .., rfl⟩

theorem exec_get {found : Option StatementImport} (A : Adapter)
    (got : A.exec (.get userId id) w = (found, w')) :
    found = w.statements.get userId id ∧ w.Unchanged w' := by
  obtain ⟨rfl, rfl⟩ := Prod.mk.inj got
  exact ⟨rfl, w.unchanged_touch userId⟩

theorem exec_rows {read : RowsRead} (A : Adapter)
    (got : A.exec (.rows userId id) w = (read, w')) :
    read = (A.exec (.rows userId id) w).1 ∧ w.Unchanged w' := by
  obtain ⟨rfl, rfl⟩ := Prod.mk.inj got
  exact ⟨rfl, w.unchanged_touch userId⟩

theorem exec_listTransactions {existing : List Transaction} (A : Adapter)
    (got : A.exec (.listTransactions userId accountId) w = (existing, w')) :
    existing = (w.ledgerOf userId).filter (fun t => t.accountId == accountId) ∧ w' = w := by
  obtain ⟨rfl, rfl⟩ := Prod.mk.inj got
  exact ⟨rfl, rfl⟩

/-- A change that is refused changes nothing. -/
theorem Imports.unchanged_revise {α : Type} {change : StoredStatement → Option (α × StoredStatement)}
    (refused : (w.statements.revise userId id change).1 = none) :
    w.Unchanged { w with statements := (w.statements.revise userId id change).2 } := by
  rw [InMemoryStatementImportStore.revise_none refused]
  exact w.unchanged_touch userId

theorem Imports.unchanged_reviseRows {α : Type} {A : Adapter} {new : List StatementRowRecord}
    {change : StoredStatement → Option (α × StoredStatement)}
    (refused : ∀ result, (A.reviseRows w.statements userId id new change).1 ≠ .ok (some result)) :
    w.Unchanged { w with statements := (A.reviseRows w.statements userId id new change).2 } := by
  cases applied : (w.statements.revise userId id change).1 with
  | none =>
    cases A with
    | memory => exact unchanged_revise applied
    | postgres =>
      rw [Adapter.reviseRows, PostgresStatementImportStore.reviseRows]
      simpa [applied] using unchanged_revise applied
  | some result =>
    cases A with
    | memory => exact absurd (congrArg Except.ok applied) (refused result)
    | postgres =>
      have written := refused result
      rw [Adapter.reviseRows, PostgresStatementImportStore.reviseRows] at written ⊢
      dsimp only at written ⊢
      split
      · exact .refl w
      · rename_i distinct
        rw [if_neg distinct] at written
        exact absurd (congrArg Except.ok applied) written

/-- What is read does not depend on places made for users. -/
theorem Imports.Unchanged.rows (same : w.Unchanged w') (A : Adapter) :
    (A.exec (.rows userId id) w').1 = (A.exec (.rows userId id) w).1 := by
  cases A with
  | memory =>
    simp only [Adapter.exec, Imports.keep, InMemoryStatementImportStore.rows,
      InMemoryStatementImportStore.live, Imports.edits, same.bucket, same.find]
  | postgres =>
    simp only [Adapter.exec, Imports.keep, PostgresStatementImportStore.rows, Imports.edits,
      same.find]

end Unchanged

/-- Every operation is one atomic step. -/
def machine (A : Adapter) : Machine ports Unit Imports where
  ready := fun _ _ _ => true
  exec := fun op _ w => A.exec op w

end Finverse.Statements
