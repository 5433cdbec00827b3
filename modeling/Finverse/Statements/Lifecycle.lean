import Finverse.Statements.Effects

/-! The life of a statement in memory, over every order of store operations. -/

namespace Finverse.Statements

open Ledger

/-! ### What one operation may do -/

/-- The counts are those of the decisions on the rows. -/
def StatementImport.Counts (statement : StatementImport) (rows : List StatementRowRecord) : Prop :=
  statement.rowsTotal = rows.length ∧ statement.rowsIncluded = decided .include rows ∧
    statement.rowsExcluded = decided .exclude rows ∧
    statement.rowsNeedsReview = decided .needsReview rows

def StoredStatement.Counted (s : StoredStatement) : Prop := s.toStatementImport.Counts s.rows

/-- The ways of a status. -/
inductive Moves (op : Operation) (s t : StoredStatement) : Prop
  | stays (same : t.status = s.status)
  | claimed (before : s.status = .queued) (after : t.status = .processing)
  | completed (before : s.status = .processing) (after : t.status = .ready)
  | failed (before : s.status = .processing) (after : t.status = .failed)
  | expired (before : s.status = .queued) (after : t.status = .failed)
      (due : ∃ limit now, op = .claim limit now ∧ s.sourceExpiresAt.any (· ≤ now) = true)
  | approved (before : s.status = .ready) (after : t.status = .approved)
  | deleted (after : t.status = .deleted)

/-- What an operation may do to a statement. -/
structure Moved (op : Operation) (s t : StoredStatement) : Prop where
  status : Moves op s t
  rows : t.rows = s.rows ∨ t.status = .ready
  attempts : t.attempts = s.attempts ∨ t.attempts = s.attempts + 1 ∧ t.status = .processing ∧
    (s.status = .queued ∨ s.status = .processing ∧ s.attempts < 3)
  completions : t.completions =
    s.completions + if s.status = .processing ∧ t.status = .ready then 1 else 0
  ledgerWrites : t.ledgerWrites =
    s.ledgerWrites + if s.status = .ready ∧ t.status = .approved then 1 else 0
  counts : s.Counted → t.Counted

/-- Rows, counts and history are the same. -/
structure Retains (s t : StoredStatement) : Prop where
  rows : t.rows = s.rows
  counts : s.Counted → t.Counted
  attempts : t.attempts = s.attempts
  completions : t.completions = s.completions
  ledgerWrites : t.ledgerWrites = s.ledgerWrites

section Moved

variable {op : Operation} {s t : StoredStatement} {now : Instant}

theorem Moved.of_retains (kept : Retains s t) (moves : Moves op s t)
    (uncompleted : t.status ≠ .ready ∨ t.status = s.status)
    (unapproved : t.status ≠ .approved ∨ t.status = s.status) : Moved op s t where
  status := moves
  rows := .inl kept.rows
  attempts := .inl kept.attempts
  completions := by
    have never : ¬(s.status = .processing ∧ t.status = .ready) := by
      rintro ⟨before, after⟩
      simp [before, after] at uncompleted
    rw [if_neg never, kept.completions, Nat.add_zero]
  ledgerWrites := by
    have never : ¬(s.status = .ready ∧ t.status = .approved) := by
      rintro ⟨before, after⟩
      simp [before, after] at unapproved
    rw [if_neg never, kept.ledgerWrites, Nat.add_zero]
  counts := kept.counts

theorem Retains.refl (s : StoredStatement) : Retains s s := ⟨rfl, id, rfl, rfl, rfl⟩

theorem Moved.refl (op : Operation) (s : StoredStatement) : Moved op s s :=
  .of_retains (.refl s) (.stays rfl) (.inr rfl) (.inr rfl)

/-- Writing the rows of a ready statement. -/
theorem Moved.withRows {rows : List StatementRowRecord} (ready : s.status = .ready) :
    Moved op s (s.withRows rows) where
  status := .stays rfl
  rows := .inr ready
  attempts := .inl rfl
  completions := by simp [StoredStatement.withRows, StoredStatement.recalculate, ready]
  ledgerWrites := by simp [StoredStatement.withRows, StoredStatement.recalculate, ready]
  counts := fun _ => ⟨rfl, rfl, rfl, rfl⟩

theorem Moved.completeProcessing {rows : List StatementRowRecord} {processedAt : Instant}
    {result : StatementImport} (h : s.completeProcessing rows processedAt = some (result, t)) :
    Moved op s t := by
  obtain ⟨processing, rfl⟩ := completeProcessing_some h
  exact {
    status := .completed processing rfl
    rows := .inr rfl
    attempts := .inl rfl
    completions := by
      simp [StoredStatement.completed, StoredStatement.withRows, StoredStatement.recalculate,
        processing]
    ledgerWrites := by
      simp [StoredStatement.completed, StoredStatement.withRows, StoredStatement.recalculate]
    counts := fun _ => ⟨rfl, rfl, rfl, rfl⟩ }

theorem Moved.failProcessing {error : String} {result : Unit}
    (h : s.failProcessing error now = some (result, t)) : Moved op s t := by
  obtain ⟨processing, rfl⟩ := failProcessing_some h
  exact .of_retains ⟨rfl, id, rfl, rfl, rfl⟩ (.failed processing rfl) (.inl (by simp))
    (.inl (by simp))

theorem Moved.finalize {result : StatementImport}
    (h : s.finalize now = some (result, t)) : Moved op s t := by
  obtain ⟨ready, rfl⟩ := finalize_some h
  exact {
    status := .approved ready rfl
    rows := .inl rfl
    attempts := .inl rfl
    completions := by simp [ready]
    ledgerWrites := by simp [ready]
    counts := id }

theorem Moved.deleteSource {result : Unit} (h : s.deleteSource now = some (result, t)) :
    Moved op s t := by
  obtain ⟨-, rfl⟩ := deleteSource_some h
  exact .of_retains ⟨rfl, id, rfl, rfl, rfl⟩ (.stays rfl) (.inr rfl) (.inr rfl)

theorem Moved.delete {result : Unit} (h : s.delete now = some (result, t)) : Moved op s t := by
  obtain ⟨-, rfl⟩ := delete_some h
  exact .of_retains ⟨rfl, id, rfl, rfl, rfl⟩ (.deleted rfl) (.inl (by simp)) (.inl (by simp))

/-- A sweep leaves a statement alone, or drops its source and what depends on it. -/
structure Dropped (now : Instant) (s t : StoredStatement) : Prop where
  source : t.encryptedSource = none
  marked : t.sourceDeletedAt = some now
  status : t.status = s.status ∧ s.status ≠ .queued ∧ s.status ≠ .processing ∨
    t.status = .failed ∧
      (s.status = .queued ∧ s.sourceExpiresAt.any (· ≤ now) = true ∨ s.status = .processing)
  retains : Retains s t

theorem expireIfNeeded_cases (s : StoredStatement) (now : Instant) :
    s.expireIfNeeded now = (true, s) ∨
      ∃ t, s.expireIfNeeded now = (false, t) ∧ Dropped now s t := by
  rw [StoredStatement.expireIfNeeded]
  split
  · rename_i due
    rw [Bool.and_eq_true] at due
    refine .inr ⟨_, rfl, ?_⟩
    split
    · rename_i working
      refine ⟨rfl, rfl, .inr ⟨rfl, ?_⟩, ⟨rfl, id, rfl, rfl, rfl⟩⟩
      rcases working with queued | processing
      · exact .inl ⟨queued, due.2⟩
      · exact .inr processing
    · rename_i idle
      exact ⟨rfl, rfl, .inl ⟨rfl, not_or.mp idle⟩, ⟨rfl, id, rfl, rfl, rfl⟩⟩
  · exact .inl rfl

theorem exhaustIfNeeded_cases (s : StoredStatement) (now : Instant) :
    s.exhaustIfNeeded now = (true, s) ∧
        ¬(s.status = .processing ∧ s.attempts ≥ 3 ∧ s.stale now) ∨
      ∃ t, s.exhaustIfNeeded now = (false, t) ∧ Dropped now s t := by
  rw [StoredStatement.exhaustIfNeeded]
  split
  · rename_i exhausted
    exact .inr ⟨_, rfl, rfl, rfl, .inr ⟨rfl, .inr exhausted.1⟩, ⟨rfl, id, rfl, rfl, rfl⟩⟩
  · rename_i usable
    exact .inl ⟨rfl, usable⟩

theorem sweep_cases (s : StoredStatement) (now : Instant) :
    s.sweep now = (true, s) ∧ ¬(s.status = .processing ∧ s.attempts ≥ 3 ∧ s.stale now) ∨
      ∃ t, s.sweep now = (false, t) ∧ Dropped now s t := by
  rw [StoredStatement.sweep]
  rcases expireIfNeeded_cases s now with live | ⟨t, gone, dropped⟩
  · rw [live]
    exact exhaustIfNeeded_cases s now
  · rw [gone]
    exact .inr ⟨t, rfl, dropped⟩

theorem Moved.afterClaim (limit : Int) (taken : List (String × String)) (userId : String) :
    Moved (.claim limit now) s (InMemoryStatementImportStore.afterClaim taken now userId s) := by
  rw [InMemoryStatementImportStore.afterClaim]
  rcases sweep_cases s now with ⟨live, unspent⟩ | ⟨t, gone, dropped⟩
  · rw [live]
    dsimp only
    split
    · rename_i chosen
      simp only [Bool.true_and, Bool.and_eq_true, StoredStatement.claimable, Bool.or_eq_true,
        beq_iff_eq] at chosen
      have free : s.status = .queued ∨ s.status = .processing ∧ s.attempts < 3 := by
        rcases chosen.1 with ⟨queued, -⟩ | ⟨processing, stale⟩
        · exact .inl queued
        · refine .inr ⟨processing, ?_⟩
          by_contra many
          exact unspent ⟨processing, Nat.le_of_not_lt many, stale⟩
      have moves : Moves (.claim limit now) s (s.claimed now) := by
        rcases free with queued | ⟨processing, -⟩
        · exact .claimed queued rfl
        · exact .stays processing.symm
      exact {
        status := moves
        rows := .inl rfl
        attempts := .inr ⟨rfl, rfl, free⟩
        completions := by simp [StoredStatement.claimed]
        ledgerWrites := by simp [StoredStatement.claimed]
        counts := id }
    · exact .refl _ s
  · rw [gone]
    simp only [Bool.false_and, Bool.false_eq_true, if_false]
    rcases dropped.status with ⟨same, -⟩ | ⟨failed, cause⟩
    · exact .of_retains dropped.retains (.stays same) (.inr same) (.inr same)
    · refine .of_retains dropped.retains ?_ (.inl (by simp [failed])) (.inl (by simp [failed]))
      rcases cause with ⟨queued, due⟩ | processing
      · exact .expired queued failed ⟨limit, now, rfl, due⟩
      · exact .failed processing failed

/-- Whatever an operation makes of a statement in memory. -/
theorem moved_of_becomes {w : Imports} (becomes : Becomes .memory op w s t) : Moved op s t := by
  rcases becomes with rfl | changes
  · exact .refl op t
  cases changes with
  | claim limit now taken userId => exact .afterClaim limit taken userId
  | completeProcessing found h => exact .completeProcessing h
  | failProcessing found h => exact .failProcessing h
  | updateRow found h =>
    obtain ⟨ready, row, -, -, rfl⟩ := StoredStatement.updateRow_some h
    exact .withRows ready
  | updateRowsDecision found h =>
    obtain ⟨ready, rfl⟩ := StoredStatement.updateRowsDecision_some h
    exact .withRows ready
  | splitRow found h =>
    obtain ⟨ready, -, -, rfl⟩ := StoredStatement.splitRow_some h
    exact .withRows ready
  | mergeRows found h =>
    obtain ⟨ready, -, rfl⟩ := StoredStatement.mergeRows_some h
    exact .withRows ready
  | finalize found h => exact .finalize h
  | deleteSource found h => exact .deleteSource h
  | delete found h => exact .delete h

end Moved

/-! ### What every run keeps -/

/-- What holds of a statement at all times. -/
structure StoredStatement.Lawful (s : StoredStatement) : Prop where
  claims : s.attempts ≤ 3
  unclaimed : s.status = .queued → s.attempts = 0
  completions : s.completions ≤ 1
  uncompleted : s.status = .queued ∨ s.status = .processing → s.completions = 0
  ledgerWrites : s.ledgerWrites ≤ 1
  unwritten : s.status = .queued ∨ s.status = .processing ∨ s.status = .ready → s.ledgerWrites = 0
  counts : s.Counted

/-- The counts that come with a new statement are those of its rows. -/
def Operation.Counted : Operation → Prop
  | .create _ statement _ stored => statement.Counts stored
  | .enqueue _ statement _ => statement.Counts []
  | _ => True

section Lawful

variable {op : Operation} {s t : StoredStatement}

theorem lawful_of_creates (creates : Creates .memory op s) (counted : op.Counted) : s.Lawful := by
  cases creates with
  | create userId statement encryptedSource rows =>
    exact ⟨Nat.zero_le _, fun _ => rfl, Nat.zero_le _, fun _ => rfl, Nat.zero_le _, fun _ => rfl, counted⟩
  | enqueue userId statement encryptedSource =>
    exact ⟨Nat.zero_le _, fun _ => rfl, Nat.zero_le _, fun _ => rfl, Nat.zero_le _, fun _ => rfl, counted⟩

/-- Where a statement that still waits for something came from. -/
theorem Moves.before (moves : Moves op s t) :
    (t.status = .queued → s.status = .queued) ∧
      (t.status = .processing → s.status = .queued ∨ s.status = .processing) ∧
      (t.status = .ready → s.status = .processing ∨ s.status = .ready) := by
  cases moves with
  | stays same => simp +contextual [same]
  | claimed before after => simp [before, after]
  | completed before after => simp [before, after]
  | failed before after => simp [after]
  | expired before after due => simp [after]
  | approved before after => simp [after]
  | deleted after => simp [after]

theorem lawful_of_moved (moved : Moved op s t) (lawful : s.Lawful) : t.Lawful := by
  obtain ⟨queued, processing, ready⟩ := moved.status.before
  have completions := moved.completions
  have ledgerWrites := moved.ledgerWrites
  constructor
  · rcases moved.attempts with same | ⟨more, -, fresh | ⟨-, few⟩⟩
    · rw [same]
      exact lawful.claims
    · rw [more, lawful.unclaimed fresh]
      omega
    · omega
  · intro waiting
    rcases moved.attempts with same | ⟨-, working, -⟩
    · rw [same]
      exact lawful.unclaimed (queued waiting)
    · simp [waiting] at working
  · split at completions
    · rename_i completed
      have none_before := lawful.uncompleted (.inr completed.1)
      omega
    · have bound := lawful.completions
      omega
  · intro open_
    have before : s.status = .queued ∨ s.status = .processing := by
      rcases open_ with waiting | working
      · exact .inl (queued waiting)
      · exact processing working
    have none_before := lawful.uncompleted before
    rcases open_ with waiting | working
    · simpa [waiting, none_before] using completions
    · simpa [working, none_before] using completions
  · split at ledgerWrites
    · rename_i approved
      have none_before := lawful.unwritten (.inr (.inr approved.1))
      omega
    · have bound := lawful.ledgerWrites
      omega
  · intro open_
    have before : s.status = .queued ∨ s.status = .processing ∨ s.status = .ready := by
      rcases open_ with waiting | working | reviewed
      · exact .inl (queued waiting)
      · rcases processing working with h | h
        · exact .inl h
        · exact .inr (.inl h)
      · exact .inr (ready reviewed)
    have none_before := lawful.unwritten before
    rcases open_ with waiting | working | reviewed
    · simpa [waiting, none_before] using ledgerWrites
    · simpa [working, none_before] using ledgerWrites
    · simpa [reviewed, none_before] using ledgerWrites
  · exact moved.counts lawful.counts

end Lawful

/-- Any number of moves. -/
abbrev History : StoredStatement → StoredStatement → Prop :=
  Relation.ReflTransGen fun s t => ∃ op, Moved op s t

/-- The rows of an approved statement never change. -/
theorem approved_rows {s t : StoredStatement} (history : History s t) (approved : s.status = .approved) :
    t.rows = s.rows := by
  suffices settled : t.rows = s.rows ∧ (t.status = .approved ∨ t.status = .deleted) from settled.1
  induction history with
  | refl => exact ⟨rfl, .inl approved⟩
  | tail _ step ih =>
    obtain ⟨op, moved⟩ := step
    obtain ⟨rows, status⟩ := ih
    have after : ∀ s t : StoredStatement, Moves op s t → s.status = .approved ∨ s.status = .deleted →
        t.status = .approved ∨ t.status = .deleted := by
      intro s t moves settled
      cases moves with
      | stays same => rwa [same]
      | deleted after => exact .inr after
      | claimed before | completed before | failed before | expired before | approved before =>
        simp [before] at settled
    have status' := after _ _ moved.status status
    refine ⟨?_, status'⟩
    rcases moved.rows with same | ready
    · rw [same, rows]
    · simp [ready] at status'

/-! ### Runs -/

/-- The stores after these operations. -/
def Imports.after (w : Imports) (ops : List Operation) : Imports :=
  ops.foldl (fun w op => (Adapter.memory.exec op w).2) w

theorem lawful_after {w : Imports} {ops : List Operation} (counted : ∀ op ∈ ops, op.Counted)
    (lawful : ∀ userId, ∀ s ∈ w.statements.bucket userId, s.Lawful) :
    ∀ userId, ∀ s ∈ (w.after ops).statements.bucket userId, s.Lawful := by
  induction ops generalizing w with
  | nil => exact lawful
  | cons op ops ih =>
    rw [List.forall_mem_cons] at counted
    refine ih counted.2 fun userId => ?_
    exact (exec_grows .memory op w userId).all
      (fun s t becomes => lawful_of_moved (moved_of_becomes becomes))
      (fun s creates => lawful_of_creates creates counted.1) (lawful userId)

theorem grows_after (w : Imports) (ops : List Operation) (userId : String) :
    Table.Grows History (fun _ => True) (w.statements.bucket userId)
      ((w.after ops).statements.bucket userId) := by
  induction ops generalizing w with
  | nil => exact .refl (fun _ => .refl) _
  | cons op ops ih =>
    have step : Table.Grows History (fun _ => True) (w.statements.bucket userId)
        ((Adapter.memory.exec op w).2.statements.bucket userId) :=
      (exec_grows .memory op w userId).mono
        (fun s t becomes => .single ⟨op, moved_of_becomes becomes⟩) fun _ _ => trivial
    exact step.trans Relation.ReflTransGen.trans (fun _ _ _ => id) (ih _)

/-- A ledger is written only for a ready statement it was not written for before, whose history
then says so. -/
def WritesOnce (w : Imports) (op : Operation) : Prop :=
  let w' := (Adapter.memory.exec op w).2
  w'.ledger = w.ledger ∨
    ∃ userId importId batch transactions now readAt s t,
      op = .finalize userId importId batch transactions now readAt ∧
      w.statements.find userId importId = some s ∧ s.status = .ready ∧ s.ledgerWrites = 0 ∧
      w'.statements.find userId importId = some t ∧ t.status = .approved ∧ t.ledgerWrites = 1 ∧
      ∀ other, other ≠ userId → w'.ledgerOf other = w.ledgerOf other

theorem find_mem {st : InMemoryStatementImportStore} {userId id : String} {s : StoredStatement}
    (found : st.find userId id = some s) : s ∈ st.bucket userId := Table.lookup_mem found

theorem writesOnce {w : Imports} (lawful : ∀ userId, ∀ s ∈ w.statements.bucket userId, s.Lawful)
    (op : Operation) : WritesOnce w op := by
  cases op with
  | finalize userId importId batch transactions now readAt =>
    rw [WritesOnce]
    simp only [Adapter.exec, finalizeInMemory]
    rcases revised : w.statements.revise userId importId (·.finalize now) with ⟨_ | result, statements⟩
    · exact .inl rfl
    · have applied := congrArg Prod.fst revised
      obtain ⟨s, t, found, changed, -⟩ := InMemoryStatementImportStore.revise_some applied
      have keeps : ∀ s r t, StoredStatement.finalize s now = some (r, t) → t.id = s.id := by
        intro s r t h
        rw [(finalize_some h).2]
      obtain ⟨t, changed, after⟩ := InMemoryStatementImportStore.find_revise keeps applied found
      rw [revised] at after
      obtain ⟨ready, rfl⟩ := finalize_some changed
      have unwritten := (lawful userId s (find_mem found)).unwritten (.inr (.inr ready))
      refine .inr ⟨userId, importId, batch, transactions, now, readAt, s, _, rfl, found, ready,
        unwritten, after, rfl, by simp [unwritten], fun other apart => ?_⟩
      rw [ledgerOf_set, if_neg apart.symm]
  | create | enqueue | claim | source | completeProcessing | failProcessing | get | rows | updateRow
  | updateRowsDecision | splitRow | mergeRows | listTransactions | deleteSource | delete =>
    exact .inl rfl

/-- A job that a second worker takes over after the lease of the first, which still completes it. -/
def takenOver : List Operation :=
  [.enqueue "sam" { readyStatement [] with status := .queued } "ciphertext", .claim 1 1,
    .claim 1 (6 * 60000), .completeProcessing "sam" "stmt" [purchase] 400000,
    .completeProcessing "sam" "stmt" [] 400001]

def marchApproved : Operation :=
  .finalize "sam" "stmt" (batchOf plain "stmt" (readyStatement []) [purchase] 1 ⟨"batch_1", 2⟩)
    [transactionOf plain "stmt" "checking" "batch_1" purchase] 500000 1

end Finverse.Statements
