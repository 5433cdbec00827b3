import Finverse.Statements.Lifecycle

/-! How long the sources of statements are kept, over every order of store operations. -/

namespace Finverse.Statements

open Ledger

/-- The statement can be claimed, unless its time is over. -/
def Adapter.claimable (A : Adapter) (s : StoredStatement) (now : Instant) : Bool :=
  match A with
  | .memory => s.claimable now
  | .postgres => s.claimablePg now

/-- A source marked as deleted is gone, and a queued statement has its source and can be claimed. -/
def SourceKept (A : Adapter) (s : StoredStatement) : Prop :=
  (s.sourceDeletedAt ≠ none → s.encryptedSource = none) ∧
    (s.status = .queued → s.encryptedSource ≠ none ∧ ∀ now, A.claimable s now = true)

/-- The invariant of a stored statement. -/
structure Retention (s : StoredStatement) : Prop where
  gone : s.sourceDeletedAt ≠ none → s.encryptedSource = none
  source : s.status = .queued → s.encryptedSource ≠ none
  unclaimed : s.status = .queued → s.attempts = 0

/-- New statements come with no deletion mark. A statement is deleted in memory only after its
source, and no queued statement loses its source. -/
def Operation.SparesSources (A : Adapter) (w : Imports) : Operation → Prop
  | .create _ statement _ _ | .enqueue _ statement _ => A = .memory → statement.sourceDeletedAt = none
  | .deleteSource userId id _ =>
    ∀ s, w.statements.find userId id = some s → s.status ≠ .queued
  | .delete userId id _ => A = .memory → ∀ s, w.statements.find userId id = some s →
    s.status = .deleted ∨ s.encryptedSource = none
  | _ => True

section Retention

variable {A : Adapter} {op : Operation} {w : Imports} {s t : StoredStatement} {now : Instant}

theorem Retention.kept (retention : Retention s) : SourceKept A s := by
  refine ⟨retention.gone, fun queued => ⟨retention.source queued, fun now => ?_⟩⟩
  have present := Option.isSome_iff_ne_none.mpr (retention.source queued)
  cases A with
  | memory => simp [Adapter.claimable, StoredStatement.claimable, queued, present]
  | postgres =>
    simp [Adapter.claimable, StoredStatement.claimablePg, queued, present,
      retention.unclaimed queued]

/-- The source is gone, and nobody waits for it. -/
theorem Retention.of_gone (gone : t.encryptedSource = none) (settled : t.status ≠ .queued) :
    Retention t :=
  ⟨fun _ => gone, fun queued => absurd queued settled, fun queued => absurd queued settled⟩

/-- The source is left alone, and the statement is not put back. -/
theorem Retention.of_same (retention : Retention s) (source : t.encryptedSource = s.encryptedSource)
    (marked : t.sourceDeletedAt = s.sourceDeletedAt)
    (status : t.status ≠ .queued ∨ t.status = s.status ∧ t.attempts = s.attempts) :
    Retention t := by
  refine ⟨?_, fun queued => ?_, fun queued => ?_⟩
  · rw [marked, source]
    exact retention.gone
  · rcases status with moved | ⟨same, -⟩
    · exact absurd queued moved
    · rw [source]
      exact retention.source (same ▸ queued)
  · rcases status with moved | ⟨same, attempts⟩
    · exact absurd queued moved
    · rw [attempts]
      exact retention.unclaimed (same ▸ queued)

theorem retention_of_creates (creates : Creates A op s) (spares : op.SparesSources A w) :
    Retention s := by
  cases creates with
  | create userId statement encryptedSource rows =>
    exact ⟨fun marked => absurd (spares rfl) marked, fun _ => Option.some_ne_none _, fun _ => rfl⟩
  | createPg userId statement encryptedSource rows =>
    exact ⟨fun marked => absurd rfl marked, fun _ => Option.some_ne_none _, fun _ => rfl⟩
  | enqueue userId statement encryptedSource =>
    exact ⟨fun marked => absurd (spares rfl) marked, fun _ => Option.some_ne_none _, fun _ => rfl⟩
  | enqueuePg userId statement encryptedSource =>
    exact ⟨fun marked => absurd rfl marked, fun _ => Option.some_ne_none _, fun _ => rfl⟩

theorem Retention.withRows {rows : List StatementRowRecord} (retention : Retention s) :
    Retention (s.withRows rows) := retention.of_same rfl rfl (.inr ⟨rfl, rfl⟩)

/-! ### Claims -/

theorem Retention.afterClaim (retention : Retention s) (taken : List (String × String))
    (userId : String) :
    Retention (InMemoryStatementImportStore.afterClaim taken now userId s) := by
  rw [InMemoryStatementImportStore.afterClaim]
  rcases sweep_cases s now with ⟨live, -⟩ | ⟨t, swept, dropped⟩
  · rw [live]
    dsimp only
    split
    · exact retention.of_same rfl rfl (.inl (by simp [StoredStatement.claimed]))
    · exact retention
  · rw [swept]
    simp only [Bool.false_and, Bool.false_eq_true, if_false]
    apply Retention.of_gone dropped.source
    rcases dropped.status with ⟨same, waiting, -⟩ | ⟨failed, -⟩
    · rw [same]
      exact waiting
    · simp [failed]

theorem Retention.expirePg (retention : Retention s) : Retention (s.expirePg now) := by
  rw [StoredStatement.expirePg]
  split
  · apply Retention.of_gone rfl
    dsimp only
    split
    · simp
    · rename_i idle
      exact (not_or.mp idle).1
  · exact retention

theorem Retention.exhaustPg (retention : Retention s) : Retention (s.exhaustPg now) := by
  rw [StoredStatement.exhaustPg]
  split
  · exact Retention.of_gone rfl (by simp)
  · exact retention

theorem Retention.afterClaimPg (retention : Retention s) (taken : List (String × String))
    (userId : String) :
    Retention (PostgresStatementImportStore.afterClaim taken now userId s) := by
  have swept : Retention (s.sweepPg now) := retention.expirePg.exhaustPg
  rw [PostgresStatementImportStore.afterClaim]
  split
  · exact swept.of_same rfl rfl (.inl (by simp [StoredStatement.claimedPg, StoredStatement.claimed]))
  · exact swept

/-! ### Steps and runs -/

theorem retention_of_becomes (becomes : Becomes A op w s t) (spares : op.SparesSources A w)
    (retention : Retention s) : Retention t := by
  rcases becomes with rfl | changes
  · exact retention
  cases changes with
  | claim limit now taken userId => exact retention.afterClaim taken userId
  | claimPg limit now taken userId => exact retention.afterClaimPg taken userId
  | completeProcessing found h =>
    obtain ⟨-, rfl⟩ := completeProcessing_some h
    exact retention.of_same rfl rfl (.inl (by simp))
  | completeProcessingPg found h =>
    obtain ⟨-, rfl⟩ := completeProcessing_some h
    exact retention.of_same rfl rfl (.inl (by simp))
  | failProcessing found h =>
    obtain ⟨-, rfl⟩ := failProcessing_some h
    exact retention.of_same rfl rfl (.inl (by simp))
  | updateRow found h =>
    obtain ⟨-, row, -, -, rfl⟩ := StoredStatement.updateRow_some h
    exact retention.withRows
  | updateRowsDecision found h =>
    obtain ⟨-, rfl⟩ := StoredStatement.updateRowsDecision_some h
    exact retention.withRows
  | splitRow found h =>
    obtain ⟨-, -, -, rfl⟩ := StoredStatement.splitRow_some h
    exact retention.withRows
  | mergeRows found h =>
    obtain ⟨-, -, rfl⟩ := StoredStatement.mergeRows_some h
    exact retention.withRows
  | finalize found h =>
    obtain ⟨-, rfl⟩ := finalize_some h
    exact retention.of_same rfl rfl (.inl (by simp))
  | finalizePg found ready =>
    exact retention.of_same rfl rfl (.inl (by simp [StoredStatement.finalizePg]))
  | deleteSource found h =>
    obtain ⟨-, rfl⟩ := deleteSource_some h
    exact .of_gone rfl (spares s found)
  | deleteSourcePg found h =>
    obtain ⟨-, -, rfl⟩ := deleteSourcePg_some h
    exact .of_gone rfl (spares s found)
  | delete found h =>
    obtain ⟨present, rfl⟩ := delete_some h
    have gone := (spares rfl s found).resolve_left present
    exact .of_gone gone (by simp)
  | deletePg found h =>
    obtain ⟨-, rfl⟩ := deletePg_some h
    exact .of_gone rfl (by simp)

end Retention

/-- The stores after these operations. -/
def Adapter.after (A : Adapter) (w : Imports) (ops : List Operation) : Imports :=
  ops.foldl (fun w op => (A.exec op w).2) w

/-- Every operation spares the sources in the store it meets. -/
def SparesSources (A : Adapter) : Imports → List Operation → Prop
  | _, [] => True
  | w, op :: ops => op.SparesSources A w ∧ SparesSources A (A.exec op w).2 ops

/-- As long as no source is taken from a queued statement, and no statement is deleted before its
source, the sources are kept as promised. -/
theorem sources_kept (A : Adapter) (ops : List Operation) (spares : SparesSources A {} ops)
    (userId : String) :
    ∀ s ∈ (A.after {} ops).statements.bucket userId, SourceKept A s := by
  suffices kept : ∀ w : Imports, (∀ u, ∀ s ∈ w.statements.bucket u, Retention s) →
      SparesSources A w ops → ∀ s ∈ (A.after w ops).statements.bucket userId, Retention s by
    have start : ∀ u, ∀ s ∈ Imports.statements {} |>.bucket u, Retention s := by
      intro u s stored
      simp [InMemoryStatementImportStore.bucket] at stored
    exact fun s stored => (kept {} start spares s stored).kept
  clear spares
  induction ops with
  | nil => exact fun w retention _ => retention userId
  | cons op ops ih =>
    rintro w retention ⟨spares, later⟩
    refine ih _ (fun u => ?_) later
    exact (exec_grows A op w u).all (fun s t becomes => retention_of_becomes becomes spares)
      (fun s creates => retention_of_creates creates spares) (retention u)

/-! ### Sources that are not kept -/

def queuedUpload : Operation :=
  .enqueue "sam" { readyStatement [] with status := .queued } "ciphertext"

/-- The statement is read, its source deleted, and then the statement. -/
def readAndDeleted : List Operation :=
  [queuedUpload, .claim 1 1, .completeProcessing "sam" "stmt" [purchase] 2,
    .deleteSource "sam" "stmt" 3, .delete "sam" "stmt" 4]

theorem readAndDeleted_spares : SparesSources .memory {} readAndDeleted := by
  let reviewed := Adapter.memory.after {} (readAndDeleted.take 3)
  let emptied := Adapter.memory.after {} (readAndDeleted.take 4)
  have ready : (reviewed.statements.find "sam" "stmt").all (fun s => s.status != .queued) = true := by
    decide +kernel
  have gone : (emptied.statements.find "sam" "stmt").all
      (fun s => s.encryptedSource == none) = true := by decide +kernel
  refine ⟨fun _ => rfl, trivial, trivial, fun s found => ?_, fun _ s found => .inr ?_, trivial⟩
  · have found : reviewed.statements.find "sam" "stmt" = some s := found
    rw [found] at ready
    simpa using ready
  · have found : emptied.statements.find "sam" "stmt" = some s := found
    rw [found] at gone
    simpa using gone

theorem readAndDeleted_kept : SparesSources .memory {} readAndDeleted ∧
    ∀ s ∈ (Adapter.memory.after {} readAndDeleted).statements.bucket "sam", SourceKept .memory s :=
  ⟨readAndDeleted_spares, sources_kept .memory readAndDeleted readAndDeleted_spares "sam"⟩

/-- In memory a deleted statement keeps its source, and in both stores a queued statement may lose
the source it waits for. -/
theorem sources_not_kept :
    (¬∀ s ∈ (Adapter.memory.after {} [queuedUpload, .delete "sam" "stmt" 1]).statements.bucket "sam",
        SourceKept .memory s) ∧
      ∀ A : Adapter,
        ¬∀ s ∈ (A.after {} [queuedUpload, .deleteSource "sam" "stmt" 1]).statements.bucket "sam",
          SourceKept A s := by
  constructor
  · have marked : ∃ s ∈ (Adapter.memory.after {}
        [queuedUpload, .delete "sam" "stmt" 1]).statements.bucket "sam",
        s.sourceDeletedAt ≠ none ∧ s.encryptedSource ≠ none := by decide +kernel
    intro kept
    obtain ⟨s, stored, deleted, source⟩ := marked
    exact source ((kept s stored).1 deleted)
  · intro A kept
    have waiting : ∃ s ∈ (A.after {}
        [queuedUpload, .deleteSource "sam" "stmt" 1]).statements.bucket "sam",
        s.status = .queued ∧ s.encryptedSource = none := by
      cases A <;> decide +kernel
    obtain ⟨s, stored, queued, gone⟩ := waiting
    exact ((kept s stored).2 queued).1 gone

end Finverse.Statements
