import Finverse.Statements.Approval

/-! What the operations make of the statements that are stored. -/

namespace Finverse.Statements

open Ledger

/-- The operation may turn the one statement into the other. -/
inductive Changes (w : Imports) : Adapter → Operation → StoredStatement → StoredStatement → Prop
  | claim (limit : Int) (now : Instant) (taken : List (String × String)) (userId : String)
      (s : StoredStatement) :
      Changes w .memory (.claim limit now) s
        (InMemoryStatementImportStore.afterClaim taken now userId s)
  | claimPg (limit : Int) (now : Instant) (taken : List (String × String)) (userId : String)
      (s : StoredStatement) :
      Changes w .postgres (.claim limit now) s
        (PostgresStatementImportStore.afterClaim taken now userId s)
  | completeProcessing {userId importId rows processedAt s t result}
      (found : w.statements.find userId importId = some s)
      (h : s.completeProcessing rows processedAt = some (result, t)) :
      Changes w .memory (.completeProcessing userId importId rows processedAt) s t
  | completeProcessingPg {userId importId rows processedAt s t result}
      (found : w.statements.find userId importId = some s)
      (h : s.completeProcessingPg rows processedAt = some (result, t)) :
      Changes w .postgres (.completeProcessing userId importId rows processedAt) s t
  | failProcessing {A userId importId error now s t result}
      (found : w.statements.find userId importId = some s)
      (h : s.failProcessing error now = some (result, t)) :
      Changes w A (.failProcessing userId importId error now) s t
  | updateRow {A userId importId rowId patch now s t result}
      (found : w.statements.find userId importId = some s)
      (h : s.updateRow rowId patch now = some (result, t)) :
      Changes w A (.updateRow userId importId rowId patch now) s t
  | updateRowsDecision {A userId importId rowIds ids decision now s t result}
      (found : w.statements.find userId importId = some s)
      (h : s.updateRowsDecision ids decision now = some (result, t)) :
      Changes w A (.updateRowsDecision userId importId rowIds decision now) s t
  | splitRow {A userId importId rowId parts now s t result}
      (found : w.statements.find userId importId = some s)
      (h : s.splitRow rowId parts now = some (result, t)) :
      Changes w A (.splitRow userId importId rowId parts now) s t
  | mergeRows {A userId importId rowIds merged now s t result}
      (found : w.statements.find userId importId = some s)
      (h : s.mergeRows rowIds merged now = some (result, t)) :
      Changes w A (.mergeRows userId importId rowIds merged now) s t
  | finalize {userId importId batch transactions now readAt s t result}
      (found : w.statements.find userId importId = some s)
      (h : s.finalize now = some (result, t)) :
      Changes w .memory (.finalize userId importId batch transactions now readAt) s t
  | finalizePg {userId importId batch transactions now readAt s}
      (found : w.statements.find userId importId = some s) (ready : s.status = .ready) :
      Changes w .postgres (.finalize userId importId batch transactions now readAt) s
        (s.finalizePg now)
  | deleteSource {userId importId now s t result}
      (found : w.statements.find userId importId = some s) (h : s.deleteSource now = some (result, t)) :
      Changes w .memory (.deleteSource userId importId now) s t
  | deleteSourcePg {userId importId now s t result}
      (found : w.statements.find userId importId = some s) (h : s.deleteSourcePg now = some (result, t)) :
      Changes w .postgres (.deleteSource userId importId now) s t
  | delete {userId importId now s t result}
      (found : w.statements.find userId importId = some s) (h : s.delete now = some (result, t)) :
      Changes w .memory (.delete userId importId now) s t
  | deletePg {userId importId now s t result}
      (found : w.statements.find userId importId = some s) (h : s.deletePg now = some (result, t)) :
      Changes w .postgres (.delete userId importId now) s t

/-- What an operation may make of a statement. -/
def Becomes (A : Adapter) (op : Operation) (w : Imports) (s t : StoredStatement) : Prop :=
  t = s ∨ Changes w A op s t

open InMemoryStatementImportStore (stored)

/-- The operation may add the statement. -/
inductive Creates : Adapter → Operation → StoredStatement → Prop
  | create (userId : String) (statement : StatementImport) (encryptedSource : String)
      (rows : List StatementRowRecord) :
      Creates .memory (.create userId statement encryptedSource rows)
        (stored statement encryptedSource rows)
  | createPg (userId : String) (statement : StatementImport) (encryptedSource : String)
      (rows : List StatementRowRecord) :
      Creates .postgres (.create userId statement encryptedSource rows)
        (stored { statement with
          status := .ready
          processedAt := some statement.createdAt
          approvedAt := none
          sourceDeletedAt := none
          error := none } encryptedSource rows)
  | enqueue (userId : String) (statement : StatementImport) (encryptedSource : String) :
      Creates .memory (.enqueue userId statement encryptedSource)
        (stored statement encryptedSource [])
  | enqueuePg (userId : String) (statement : StatementImport) (encryptedSource : String) :
      Creates .postgres (.enqueue userId statement encryptedSource)
        (stored { statement with
          status := .queued
          rowsTotal := 0
          rowsIncluded := 0
          rowsExcluded := 0
          rowsNeedsReview := 0
          processedAt := none
          approvedAt := none
          sourceDeletedAt := none
          error := none } encryptedSource [])

/-! ### One statement -/

section Inversion

variable {s t : StoredStatement} {now : Instant} {result : Unit}

def StoredStatement.completed (s : StoredStatement) (processedAt : Instant) : StoredStatement :=
  { s with
    status := .ready
    processedAt := some processedAt
    error := none
    processingStartedAt := none
    completions := s.completions + 1 }

@[simp] theorem completed_status (s : StoredStatement) (processedAt : Instant) :
    (s.completed processedAt).status = .ready := rfl

theorem completeProcessing_some {rows : List StatementRowRecord} {processedAt : Instant}
    {result : StatementImport} (h : s.completeProcessing rows processedAt = some (result, t)) :
    s.status = .processing ∧ t = (s.completed processedAt).withRows rows := by
  rw [StoredStatement.completeProcessing] at h
  split at h
  · cases h
  · rename_i processing
    obtain ⟨-, rfl⟩ := Prod.mk.inj (Option.some.inj h)
    exact ⟨not_not.mp processing, rfl⟩

theorem failProcessing_some {error : String}
    (h : s.failProcessing error now = some (result, t)) :
    s.status = .processing ∧ t = { s with
      status := .failed
      error := some (Auth.slice 500 error)
      processingStartedAt := none
      processedAt := some now } := by
  rw [StoredStatement.failProcessing] at h
  split at h
  · cases h
  · rename_i processing
    obtain ⟨-, rfl⟩ := Prod.mk.inj (Option.some.inj h)
    exact ⟨not_not.mp processing, rfl⟩

theorem deleteSource_some (h : s.deleteSource now = some (result, t)) :
    s.status ≠ .deleted ∧ t = { s with encryptedSource := none, sourceDeletedAt := some now } := by
  rw [StoredStatement.deleteSource] at h
  split at h
  · cases h
  · rename_i present
    obtain ⟨-, rfl⟩ := Prod.mk.inj (Option.some.inj h)
    exact ⟨present, rfl⟩

theorem deleteSourcePg_some (h : s.deleteSourcePg now = some (result, t)) :
    s.status ≠ .deleted ∧ s.encryptedSource ≠ none ∧
      t = { s with encryptedSource := none, sourceDeletedAt := some now } := by
  rw [StoredStatement.deleteSourcePg] at h
  split at h
  · cases h
  · rename_i present
    obtain ⟨-, rfl⟩ := Prod.mk.inj (Option.some.inj h)
    rw [not_or] at present
    exact ⟨present.1, present.2, rfl⟩

theorem delete_some (h : s.delete now = some (result, t)) :
    s.status ≠ .deleted ∧ t = { s with
      status := .deleted
      processingStartedAt := none
      sourceDeletedAt := some now } := by
  rw [StoredStatement.delete] at h
  split at h
  · cases h
  · rename_i present
    obtain ⟨-, rfl⟩ := Prod.mk.inj (Option.some.inj h)
    exact ⟨present, rfl⟩

theorem deletePg_some (h : s.deletePg now = some (result, t)) :
    s.status ≠ .deleted ∧ t = { s with
      status := .deleted
      encryptedSource := none
      sourceDeletedAt := some now } := by
  rw [StoredStatement.deletePg] at h
  split at h
  · cases h
  · rename_i present
    obtain ⟨-, rfl⟩ := Prod.mk.inj (Option.some.inj h)
    exact ⟨present, rfl⟩

end Inversion

/-! ### The stores -/

section Stores

variable {st : InMemoryStatementImportStore} {R : StoredStatement → StoredStatement → Prop}
  {N : StoredStatement → Prop} {userId importId : String}

/-- Every user's statements grew. -/
def AllGrow (R : StoredStatement → StoredStatement → Prop) (N : StoredStatement → Prop)
    (st st' : InMemoryStatementImportStore) : Prop :=
  ∀ userId, Table.Grows R N (st.bucket userId) (st'.bucket userId)

theorem allGrow_of_bucket (same : ∀ s, R s s) {st' : InMemoryStatementImportStore}
    (buckets : ∀ userId, st'.bucket userId = st.bucket userId) : AllGrow R N st st' := by
  intro userId
  rw [buckets]
  exact .refl same _

theorem allGrow_replaced (same : ∀ s, R s s) {s t : StoredStatement}
    (found : st.find userId importId = some s) (related : R s t) :
    AllGrow R N st
      (OrdMap.set st userId (Table.modify (·.id) importId (fun _ => t) (st.bucket userId))) := by
  intro other
  rw [InMemoryStatementImportStore.bucket_set]
  split
  · rename_i mine
    rw [← mine]
    refine .of_forall₂ (Table.forall₂_modify same fun s' found' => ?_)
    obtain rfl : s = s' := Option.some.inj (found.symm.trans found')
    exact related
  · exact .refl same _

theorem allGrow_revise {α : Type} {change : StoredStatement → Option (α × StoredStatement)}
    (same : ∀ s, R s s)
    (changes : ∀ s r t, st.find userId importId = some s → change s = some (r, t) → R s t) :
    AllGrow R N st (st.revise userId importId change).2 := by
  cases applied : (st.revise userId importId change).1 with
  | none =>
    rw [InMemoryStatementImportStore.revise_none applied]
    exact allGrow_of_bucket same fun _ => InMemoryStatementImportStore.bucket_touch ..
  | some result =>
    obtain ⟨s, t, found, changed, after⟩ := InMemoryStatementImportStore.revise_some applied
    rw [after]
    exact allGrow_replaced same found (changes s result t found changed)

theorem allGrow_reviseRows {α : Type} {change : StoredStatement → Option (α × StoredStatement)}
    (A : Adapter) (new : List StatementRowRecord) (same : ∀ s, R s s)
    (changes : ∀ s r t, st.find userId importId = some s → change s = some (r, t) → R s t) :
    AllGrow R N st (A.reviseRows st userId importId new change).2 := by
  cases A with
  | memory => exact allGrow_revise same changes
  | postgres =>
    rw [Adapter.reviseRows, PostgresStatementImportStore.reviseRows]
    dsimp only
    split
    · exact allGrow_of_bucket same fun _ => rfl
    · exact allGrow_revise same changes

theorem allGrow_appended (same : ∀ s, R s s) {s : StoredStatement} (fresh : N s) :
    AllGrow R N st (OrdMap.set st userId (st.bucket userId ++ [s])) := by
  intro other
  rw [InMemoryStatementImportStore.bucket_set]
  split
  · rename_i mine
    rw [← mine]
    exact .append same fresh _
  · exact .refl same _

theorem allGrow_add (same : ∀ s, R s s) {s : StoredStatement} (fresh : N s)
    (encryptedSource : String) (countActive : Bool) :
    AllGrow R N st (st.add userId s encryptedSource countActive).2 := by
  have touched : AllGrow R N st (st.touch userId) :=
    allGrow_of_bucket same fun _ => InMemoryStatementImportStore.bucket_touch ..
  rw [InMemoryStatementImportStore.add]
  split
  · exact touched
  · split
    · exact touched
    · exact allGrow_appended same fresh

theorem allGrow_addPg (same : ∀ s, R s s) {s : StoredStatement} (fresh : N s)
    (encryptedSource : String) (countActive : Bool) :
    AllGrow R N st (PostgresStatementImportStore.add st userId s encryptedSource countActive).2 := by
  have kept : AllGrow R N st st := allGrow_of_bucket same fun _ => rfl
  rw [PostgresStatementImportStore.add]
  split
  · exact kept
  split
  · exact kept
  split
  · exact kept
  · exact allGrow_appended same fresh

/-- A change of every statement in its place. -/
theorem allGrow_mapWithKey {change : String → StoredStatement → StoredStatement}
    (changes : ∀ userId s, R s (change userId s)) :
    AllGrow R N st (st.mapWithKey fun userId statements => statements.map (change userId)) := by
  intro userId
  refine .of_forall₂ ?_
  rw [InMemoryStatementImportStore.bucket, InMemoryStatementImportStore.bucket,
    OrdMap.get?_mapWithKey]
  cases st.get? userId with
  | none => exact .nil
  | some statements =>
    rw [Option.map_some, Option.getD_some, Option.getD_some, List.forall₂_map_right_iff]
    exact List.forall₂_same.mpr fun s _ => changes userId s

end Stores

/-- An operation leaves a statement as it is or changes it, and adds statements behind. -/
theorem exec_grows (A : Adapter) (op : Operation) (w : Imports) :
    AllGrow (Becomes A op w) (Creates A op) w.statements (A.exec op w).2.statements := by
  have same : ∀ s, Becomes A op w s s := fun _ => .inl rfl
  have kept : AllGrow (Becomes A op w) (Creates A op) w.statements w.statements :=
    allGrow_of_bucket same fun _ => rfl
  have touched : ∀ userId,
      AllGrow (Becomes A op w) (Creates A op) w.statements (w.statements.touch userId) := fun _ =>
    allGrow_of_bucket same fun _ => InMemoryStatementImportStore.bucket_touch ..
  cases op with
  | get | source => exact touched _
  | rows => exact touched _
  | listTransactions => exact kept
  | create userId statement encryptedSource rows =>
    cases A with
    | memory => exact allGrow_add same (.create ..) encryptedSource false
    | postgres => exact allGrow_addPg same (.createPg ..) encryptedSource false
  | enqueue userId statement encryptedSource =>
    cases A with
    | memory => exact allGrow_add same (.enqueue ..) encryptedSource true
    | postgres => exact allGrow_addPg same (.enqueuePg ..) encryptedSource true
  | claim limit now =>
    cases A with
    | memory => exact allGrow_mapWithKey fun userId s => .inr (.claim ..)
    | postgres => exact allGrow_mapWithKey fun userId s => .inr (.claimPg ..)
  | completeProcessing userId importId rows processedAt =>
    cases A with
    | memory => exact allGrow_reviseRows .memory rows same fun s r t found h => .inr (.completeProcessing found h)
    | postgres =>
      exact allGrow_reviseRows .postgres rows same fun s r t found h => .inr (.completeProcessingPg found h)
  | failProcessing => exact allGrow_revise same fun s r t found h => .inr (.failProcessing found h)
  | updateRow => exact allGrow_revise same fun s r t found h => .inr (.updateRow found h)
  | updateRowsDecision =>
    cases A with
    | memory => exact allGrow_revise same fun s r t found h => .inr (.updateRowsDecision found h)
    | postgres => exact allGrow_revise same fun s r t found h => .inr (.updateRowsDecision found h)
  | splitRow => exact allGrow_reviseRows A _ same fun s r t found h => .inr (.splitRow found h)
  | mergeRows => exact allGrow_reviseRows A _ same fun s r t found h => .inr (.mergeRows found h)
  | finalize userId importId batch transactions now readAt =>
    cases A with
    | memory =>
      have moves : AllGrow
          (Becomes .memory (.finalize userId importId batch transactions now readAt) w)
          (Creates .memory (.finalize userId importId batch transactions now readAt)) w.statements
          (w.statements.revise userId importId (·.finalize now)).2 :=
        allGrow_revise same fun s r t found h => .inr (.finalize found h)
      simp only [Adapter.exec, finalizeInMemory]
      split
      · rename_i revised
        rwa [revised] at moves
      · rename_i revised
        rwa [revised] at moves
    | postgres =>
      simp only [Adapter.exec, finalizeInPostgres]
      split
      · exact kept
      · exact kept
      · rename_i finalized
        obtain ⟨⟨s, found, ready, rfl⟩, -, -⟩ := finalizePg_some finalized
        exact allGrow_replaced same found (.inr (.finalizePg found ready))
  | deleteSource =>
    cases A with
    | memory => exact allGrow_revise same fun s r t found h => .inr (.deleteSource found h)
    | postgres => exact allGrow_revise same fun s r t found h => .inr (.deleteSourcePg found h)
  | delete =>
    cases A with
    | memory => exact allGrow_revise same fun s r t found h => .inr (.delete found h)
    | postgres => exact allGrow_revise same fun s r t found h => .inr (.deletePg found h)

end Finverse.Statements
