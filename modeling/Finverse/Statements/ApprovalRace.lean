import Finverse.Statements.Approval

/-! Approvals against edits of the same statement, over every order of their steps. -/

namespace Finverse.Statements

open Interleave Ledger

/-! ### Statements only move on -/

/-- The rows stay as long as they are not written, and a deleted statement stays deleted. -/
structure Follows (s t : StoredStatement) : Prop where
  edits : s.edits ≤ t.edits
  rows : t.edits = s.edits → t.rows = s.rows
  deleted : s.status = .deleted → t.status = .deleted

namespace Follows

variable {s t u : StoredStatement}

theorem refl (s : StoredStatement) : Follows s s := ⟨Nat.le_refl _, fun _ => rfl, id⟩

theorem trans (h : Follows s t) (h' : Follows t u) : Follows s u := by
  refine ⟨Nat.le_trans h.edits h'.edits, fun unwritten => ?_, fun gone => h'.deleted (h.deleted gone)⟩
  have before := h.edits
  have after := h'.edits
  rw [h'.rows (by omega), h.rows (by omega)]

theorem withRows {rows : List StatementRowRecord} (ready : s.status = .ready) :
    Follows s (s.withRows rows) := by
  have written : (s.withRows rows).edits = s.edits + 1 := rfl
  constructor
  · omega
  · intro unwritten
    omega
  · intro gone
    simp [ready] at gone

theorem finalize {now : Instant} {result : StatementImport}
    (h : s.finalize now = some (result, t)) : t.id = s.id ∧ Follows s t := by
  obtain ⟨ready, rfl⟩ := finalize_some h
  exact ⟨rfl, Nat.le_refl _, fun _ => rfl, by simp [ready]⟩

end Follows

/-- Every statement moved on, and none came or went. -/
def FollowsAll (st st' : InMemoryStatementImportStore) : Prop :=
  ∀ userId id, Option.Rel Follows (st.find userId id) (st'.find userId id)

namespace FollowsAll

variable {st st' st'' : InMemoryStatementImportStore} {userId importId : String}

theorem of_find (same : ∀ userId id, st'.find userId id = st.find userId id) :
    FollowsAll st st' := by
  intro userId id
  rw [same]
  cases st.find userId id with
  | none => exact .none
  | some s => exact .some (Follows.refl s)

theorem refl (st : InMemoryStatementImportStore) : FollowsAll st st := of_find fun _ _ => rfl

theorem trans (h : FollowsAll st st') (h' : FollowsAll st' st'') : FollowsAll st st'' := by
  intro userId id
  have first := h userId id
  have second := h' userId id
  cases before : st.find userId id with
  | none =>
    cases between : st'.find userId id with
    | none => rwa [between] at second
    | some t => simp [before, between] at first
  | some s =>
    cases between : st'.find userId id with
    | none => simp [before, between] at first
    | some t =>
      cases after : st''.find userId id with
      | none => simp [between, after] at second
      | some u =>
        rw [before, between, Option.rel_some_some] at first
        rw [between, after, Option.rel_some_some] at second
        exact .some (first.trans second)

theorem revise {α : Type} {change : StoredStatement → Option (α × StoredStatement)}
    (changes : ∀ s r t, change s = some (r, t) → t.id = s.id ∧ Follows s t) :
    FollowsAll st (st.revise userId importId change).2 := fun userId id =>
  InMemoryStatementImportStore.find_revise_rel Follows.refl changes userId id

theorem reviseRows {α : Type} {change : StoredStatement → Option (α × StoredStatement)}
    {new : List StatementRowRecord} (A : Adapter)
    (changes : ∀ s r t, change s = some (r, t) → t.id = s.id ∧ Follows s t) :
    FollowsAll st (A.reviseRows st userId importId new change).2 := by
  cases A with
  | memory => exact revise changes
  | postgres =>
    rw [Adapter.reviseRows, PostgresStatementImportStore.reviseRows]
    dsimp only
    split
    · exact refl st
    · exact revise changes

/-- A statement that is found later was there before. -/
theorem found {t : StoredStatement} (h : FollowsAll st st')
    (later : st'.find userId importId = some t) :
    ∃ s, st.find userId importId = some s ∧ Follows s t := by
  have moved := h userId importId
  cases before : st.find userId importId with
  | none => simp [before, later] at moved
  | some s =>
    rw [before, later, Option.rel_some_some] at moved
    exact ⟨s, rfl, moved⟩

end FollowsAll

/-- The operations that reviews use, apart from finalizing. -/
def Operation.Reviews : Operation → Prop
  | .get .. | .rows .. | .updateRow .. | .updateRowsDecision .. | .splitRow .. | .mergeRows ..
  | .listTransactions .. => True
  | _ => False

theorem followsAll_exec {op : Operation} (A : Adapter) (w : Imports) (reviews : op.Reviews) :
    FollowsAll w.statements (A.exec op w).2.statements := by
  have touched : ∀ userId, FollowsAll w.statements (w.statements.touch userId) := fun _ =>
    .of_find fun _ _ => InMemoryStatementImportStore.find_touch ..
  cases op with
  | get userId id => exact touched userId
  | rows userId id => exact touched userId
  | listTransactions => exact .refl _
  | updateRow userId importId rowId patch now =>
    apply FollowsAll.revise
    intro s result t h
    obtain ⟨ready, row, -, -, rfl⟩ := StoredStatement.updateRow_some h
    exact ⟨rfl, .withRows ready⟩
  | updateRowsDecision userId importId rowIds decision now =>
    have moves : ∀ ids, FollowsAll w.statements (w.statements.revise userId importId
        (·.updateRowsDecision ids decision now)).2 := by
      intro ids
      apply FollowsAll.revise
      intro s result t h
      obtain ⟨ready, rfl⟩ := StoredStatement.updateRowsDecision_some h
      exact ⟨rfl, .withRows ready⟩
    cases A with
    | memory => exact moves rowIds
    | postgres => exact moves rowIds.dedup
  | splitRow userId importId rowId parts now =>
    apply FollowsAll.reviseRows
    intro s result t h
    obtain ⟨ready, -, -, rfl⟩ := StoredStatement.splitRow_some h
    exact ⟨rfl, .withRows ready⟩
  | mergeRows userId importId rowIds merged now =>
    apply FollowsAll.reviseRows
    intro s result t h
    obtain ⟨ready, -, rfl⟩ := StoredStatement.mergeRows_some h
    exact ⟨rfl, .withRows ready⟩
  | create | enqueue | claim | source | completeProcessing | failProcessing | finalize
  | deleteSource | delete => exact reviews.elim

theorem followsAll_finalize (A : Adapter) (w : Imports) (userId importId : String)
    (batch : ImportBatch) (transactions : List Transaction) (now : Instant) (readAt : Nat) :
    FollowsAll w.statements
      (A.exec (.finalize userId importId batch transactions now readAt) w).2.statements := by
  cases A with
  | memory =>
    have moves : FollowsAll w.statements
        (w.statements.revise userId importId (·.finalize now)).2 :=
      .revise fun _ _ _ => Follows.finalize
    simp only [Adapter.exec, finalizeInMemory]
    split
    · rename_i revised
      rwa [revised] at moves
    · rename_i revised
      rwa [revised] at moves
  | postgres =>
    simp only [Adapter.exec, finalizeInPostgres]
    split
    · exact .refl _
    · exact .refl _
    · rename_i result statements ledger finalized
      obtain ⟨⟨s, found, ready, rfl⟩, -, -⟩ := finalizePg_some finalized
      intro other id
      have named : s.id = importId := InMemoryStatementImportStore.id_of_find found
      have kept : (s.finalizePg now).id = importId := named
      rw [InMemoryStatementImportStore.find_replaced _ kept]
      split
      · rename_i target
        rw [← target.1, target.2, found]
        exact .some ⟨Nat.le_refl _, fun _ => rfl, by simp [ready]⟩
      · exact FollowsAll.refl _ other id

/-! ### What approvals wrote -/

/-- An approval that succeeded: what the ledger was given, and the rows stored at that moment. -/
structure ApprovalRecord where
  importId : String
  batch : ImportBatch
  stored : List StatementRowRecord
  written : List Transaction

/-- The stores, and what happened to them. -/
structure Reviewed where
  imports : Imports
  approvals : List ApprovalRecord := []

def recordOf (w : Imports) : (op : Operation) → op.Reply → List ApprovalRecord
  | .finalize userId importId batch transactions _ _, reply =>
    match reply with
    | .ok (some _) => [⟨importId, batch, w.rowsOf userId importId, transactions⟩]
    | _ => []
  | _, _ => []

def reviewMachine (A : Adapter) : Machine ports Unit Reviewed where
  ready := fun _ _ _ => true
  exec := fun op _ s =>
    let (reply, imports) := A.exec op s.imports
    (reply, ⟨imports, s.approvals ++ recordOf s.imports op reply⟩)

/-- The transactions are those of the included rows. -/
def ApprovalRecord.Isolated (P : Primitives) (approval : ApprovalRecord) : Prop :=
  approval.written.Perm ((included approval.stored).map
    (transactionOf P approval.importId approval.batch.accountId approval.batch.id))

/-! ### Requests -/

inductive Review
  | editRow (rowId : String) (input : EditStatementRowInput)
  | decideRows (rowIds : Option (List Scalar)) (decision : Option Scalar)
  | splitRow (rowId : String) (parts : Option (List (Option SplitPart)))
  | mergeRows (rowIds : Option (List Scalar))
  | approve

structure ReviewRequest where
  userId : String
  importId : String
  review : Review
  draw : Draw

def serve (P : Primitives) (request : ReviewRequest) : Service Unit :=
  let ⟨userId, importId, review, draw⟩ := request
  match review with
  | .editRow rowId input => (fun _ => ()) <$> editRow P userId importId rowId input draw
  | .decideRows rowIds decision =>
    (fun _ => ()) <$> decideRows userId importId rowIds decision draw
  | .splitRow rowId parts => (fun _ => ()) <$> splitRow P userId importId rowId parts draw
  | .mergeRows rowIds => (fun _ => ()) <$> mergeRows P userId importId rowIds draw
  | .approve => (fun _ => ()) <$> approve P userId importId draw

def reviews (P : Primitives) (A : Adapter) :
    System ports Unit Reviewed ReviewRequest (Except HttpError Unit) where
  machine := reviewMachine A
  serve := fun _ request => (serve P request).run

/-- An approval finalizes only while no row was written since it read them, and no included row lacks
an amount or a date. -/
def approvesAsRead (op : Operation) (_ : Unit) (s : Reviewed) : Prop :=
  match op with
  | .finalize userId importId _ _ _ readAt =>
    s.imports.edits userId importId = readAt ∧
      ∀ row ∈ included (s.imports.rowsOf userId importId), complete row = true
  | _ => True

instance (op : Operation) (u : Unit) (s : Reviewed) : Decidable (approvesAsRead op u s) := by
  cases op <;> first | exact inferInstanceAs (Decidable (_ ∧ _)) | exact instDecidableTrue

/-- Statements move on, and records stay. -/
structure Evolves (s t : Reviewed) : Prop where
  statements : FollowsAll s.imports.statements t.imports.statements
  approvals : s.approvals ⊆ t.approvals

def isolation (P : Primitives) (A : Adapter) : Contract (reviewMachine A) where
  inv := fun s => ∀ approval ∈ s.approvals, approval.Isolated P
  evolves := Evolves
  own := fun _ _ _ => True
  cond := approvesAsRead
  refl := fun _ => ⟨.refl _, List.Subset.refl _⟩
  trans := fun h h' => ⟨h.statements.trans h'.statements, List.Subset.trans h.approvals h'.approvals⟩
  ownRefl := fun _ _ => trivial
  ownTrans := fun _ _ => trivial

section Isolation

variable {P : Primitives} {A : Adapter} {n : Nat}

theorem evolves_exec {op : Operation} {s : Reviewed}
    (follows : FollowsAll s.imports.statements (A.exec op s.imports).2.statements) :
    (isolation P A).guarantee n s ((reviewMachine A).exec op () s).2 :=
  ⟨⟨follows, List.subset_append_left _ _⟩, fun _ _ => trivial⟩

theorem recordOf_reviews {w : Imports} {op : Operation} {reply : op.Reply} (review : op.Reviews) :
    recordOf w op reply = [] := by
  cases op <;> first | rfl | exact review.elim

theorem safe_review (op : Operation) (review : op.Reviews) : (isolation P A).Safe n op := by
  intro i s isolated _ _
  refine ⟨?_, evolves_exec (followsAll_exec A s.imports review)⟩
  intro approval recorded
  change approval ∈ s.approvals ++ recordOf s.imports op _ at recorded
  rw [recordOf_reviews review, List.append_nil] at recorded
  exact isolated approval recorded

theorem all_call_review {op : Operation} (review : op.Reviews) :
    Task.All ((isolation P A).Safe n) (call op) := (Task.all_call (I := ports) op).mpr (safe_review op review)

theorem all_findRow (userId importId rowId : String) :
    Task.All ((isolation P A).Safe n) (findRow userId importId rowId) := by
  apply Task.all_bind (all_call_review (by trivial))
  exact fun _ => Task.all_ofExcept _

/-- Editing a statement keeps what the approvals wrote. -/
theorem all_serve {request : ReviewRequest} (edit : request.review ≠ .approve) :
    Task.All ((isolation P A).Safe n) (serve P request) := by
  obtain ⟨userId, importId, review, draw⟩ := request
  cases review with
  | editRow rowId input =>
    apply Task.all_map
    apply Task.all_bind (all_findRow userId importId rowId)
    intro current
    apply Task.all_bind (Task.all_ofExcept _)
    intro patch
    apply Task.all_bind (all_call_review (by trivial))
    exact fun _ => Task.all_ofExcept _
  | decideRows rowIds decision =>
    apply Task.all_map
    apply Task.all_bind (Task.all_ofExcept _)
    intro ids
    apply Task.all_bind (Task.all_ofExcept _)
    intro _
    apply Task.all_bind (Task.all_ofExcept _)
    intro decision
    apply Task.all_bind (all_call_review (by trivial))
    intro existing
    apply Task.all_bind (Task.all_ofExcept _)
    intro _
    apply Task.all_bind (all_call_review (by trivial))
    exact fun _ => Task.all_ofExcept _
  | splitRow rowId parts =>
    apply Task.all_map
    apply Task.all_bind (all_findRow userId importId rowId)
    intro current
    apply Task.all_bind (Task.all_ofExcept _)
    intro rows
    apply Task.all_bind (all_call_review (by trivial))
    intro reply
    apply Task.all_bind (Task.all_ofExcept _)
    exact fun _ => Task.all_ofExcept _
  | mergeRows rowIds =>
    apply Task.all_map
    apply Task.all_bind (Task.all_ofExcept _)
    intro ids
    apply Task.all_bind (all_call_review (by trivial))
    intro read
    apply Task.all_bind (Task.all_ofExcept _)
    intro merged
    apply Task.all_bind (all_call_review (by trivial))
    intro reply
    apply Task.all_bind (Task.all_ofExcept _)
    exact fun _ => Task.all_ofExcept _
  | approve => exact absurd rfl edit

theorem mem_recordOf_finalize {w : Imports} {userId importId : String} {batch : ImportBatch}
    {transactions : List Transaction} {now : Instant} {readAt : Nat}
    {reply : StoreReply (Option StatementImport)} {approval : ApprovalRecord}
    (new : approval ∈
      recordOf w (.finalize userId importId batch transactions now readAt) reply) :
    (∃ result, reply = .ok (some result)) ∧
      approval = ⟨importId, batch, w.rowsOf userId importId, transactions⟩ := by
  rcases reply with e | _ | result
  · cases new
  · cases new
  · exact ⟨⟨result, rfl⟩, List.mem_singleton.mp new⟩

theorem mem_recordOf_finalize_ok {w : Imports} {userId importId : String} {batch : ImportBatch}
    {transactions : List Transaction} {now : Instant} {readAt : Nat}
    {reply : StoreReply (Option StatementImport)} {result : StatementImport}
    (ok : reply = .ok (some result)) :
    ⟨importId, batch, w.rowsOf userId importId, transactions⟩ ∈
      recordOf w (.finalize userId importId batch transactions now readAt) reply := by
  rw [ok]
  exact List.mem_singleton_self _

/-- What is finalized without a write since it was read is what is stored. -/
theorem finalized_isolated {w₀ w : Imports} {userId importId accountId batchId : String}
    {s : StoredStatement} (follows : FollowsAll w₀.statements w.statements)
    (unwritten : w.edits userId importId = w₀.edits userId importId)
    (filled : ∀ row ∈ included (w.rowsOf userId importId), complete row = true)
    (found : w.statements.find userId importId = some s) (ready : s.status = .ready) :
    (((A.read w₀ userId importId).filter importable).map
        (transactionOf P importId accountId batchId)).Perm
      ((included (w.rowsOf userId importId)).map (transactionOf P importId accountId batchId)) := by
  obtain ⟨s₀, found₀, moved⟩ := follows.found found
  have kept : s₀.status ≠ .deleted := by
    intro gone
    have still := moved.deleted gone
    simp [ready] at still
  have edits : s.edits = s₀.edits := by simpa [Imports.edits, found, found₀] using unwritten
  have rows : w.rowsOf userId importId = s₀.rows := by rw [rowsOf_find found, moved.rows edits]
  rw [rows] at filled ⊢
  have read := (read_perm (A := A) found₀ kept).filter importable
  rw [filter_importable s₀.rows, List.filter_eq_self.mpr filled] at read
  exact read.map _

theorem recorded {op : Operation} {s : Reviewed} {approval : ApprovalRecord}
    (stored : approval ∈ ((reviewMachine A).exec op () s).2.approvals) :
    approval ∈ s.approvals ∨ approval ∈ recordOf s.imports op (A.exec op s.imports).1 :=
  List.mem_append.mp stored

theorem meets_approve {s : Reviewed} (userId importId : String) (draw : Draw) :
    Task.Meets (isolation P A) n
      (fun _ t => ∃ approval ∈ t.approvals,
        approval.importId = importId ∧ approval.batch.id = draw.uuid)
      (fun _ _ => True) s (approve P userId importId draw) := by
  apply Task.Meets.call_bind
  intro _ s₁ _ isolated allowed ready
  obtain ⟨isolated, moved⟩ := safe_review (.get userId importId) trivial _ _ isolated allowed ready
  refine ⟨isolated, moved, ?_⟩
  apply Task.Meets.check_bind _ (fun _ _ => trivial)
  intro statement _
  apply Task.Meets.call_bind
  intro _ s₂ _ isolated allowed ready
  obtain ⟨isolated, moved₂⟩ := safe_review (.rows userId importId) trivial _ _ isolated allowed ready
  refine ⟨isolated, moved₂, ?_⟩
  apply Task.Meets.check_bind _ (fun _ _ => trivial)
  intro rows admitted
  obtain rfl := approvable_ok admitted
  apply Task.Meets.call_bind
  intro _ s₃ rely₃ isolated allowed ready
  obtain ⟨isolated, moved₃⟩ :=
    safe_review (.listTransactions userId statement.accountId) trivial _ _ isolated allowed ready
  refine ⟨isolated, moved₃, ?_⟩
  apply Task.Meets.check_bind _ (fun _ _ => trivial)
  intro _ _
  apply Task.Meets.call_bind
  intro _ s₄ rely₄ isolated allowed ready
  have follows : FollowsAll s₂.imports.statements s₄.imports.statements :=
    ((moved₂.1.statements.trans rely₃.1.statements).trans moved₃.1.statements).trans
      rely₄.1.statements
  refine ⟨?_, evolves_exec (followsAll_finalize A s₄.imports _ _ _ _ _ _), ?_⟩
  · intro approval stored
    rcases recorded stored with before | new
    · exact isolated approval before
    · obtain ⟨⟨result, replied⟩, rfl⟩ := mem_recordOf_finalize new
      obtain ⟨t, found, ready⟩ := ready_of_finalize replied
      exact finalized_isolated follows allowed.1 allowed.2 found ready
  · rw [Task.meets_ofExcept]
    cases answered : approved _ with
    | error e => trivial
    | ok result =>
      refine ⟨_, List.mem_append_right _ (mem_recordOf_finalize_ok (approved_ok answered)), rfl, rfl⟩

end Isolation

/-! ### Runs -/

abbrev ReviewPool : Type := Pool ports Reviewed ReviewRequest (Except HttpError Unit)

/-- An approval that succeeded left a record. -/
def Approved (request : ReviewRequest) (result : Except HttpError Unit) (s : Reviewed) : Prop :=
  request.review = .approve → result = .ok () → ∃ approval ∈ s.approvals,
    approval.importId = request.importId ∧ approval.batch.id = request.draw.uuid

theorem reviews_serve (P : Primitives) (A : Adapter) (s₀ : Reviewed) :
    Pool.Serves (S := reviews P A) (isolation P A) (fun _ => Approved) s₀ := by
  intro n request s _ _
  by_cases approving : request.review = .approve
  · obtain ⟨userId, importId, review, draw⟩ := request
    obtain rfl : review = .approve := approving
    have meets := Task.Meets.map (f := fun _ => ()) (meets_approve (P := P) (A := A) (n := n) (s := s)
      userId importId draw)
    refine Sat.weaken meets fun result t outcome _ ok => ?_
    rw [ok] at outcome
    exact outcome
  · refine Sat.weaken (Sat.of_all (all_serve approving)) fun _ _ _ approved => ?_
    exact absurd approved approving

/-- As long as every approval finalizes what it has read, each wrote exactly the included rows
stored when the statement became approved. -/
theorem approvals_isolated (P : Primitives) (A : Adapter) (w : Imports) (c : ReviewPool)
    (run : Pool.Run (reviews P A) approvesAsRead (.idle ⟨w, []⟩) c) :
    (∀ approval ∈ c.state.approvals, approval.Isolated P) ∧
      ∀ n request, request.review = .approve → c.Finished n request (.ok ()) →
        ∃ approval ∈ c.state.approvals,
          approval.importId = request.importId ∧ approval.batch.id = request.draw.uuid := by
  have start : Pool.Sound (S := reviews P A) (isolation P A) (fun _ => Approved) (.idle ⟨w, []⟩) :=
    .idle (by simp [isolation])
  have sound := (start.run (reviews_serve P A ⟨w, []⟩) (Contract.refl _ _) run).1
  refine ⟨sound.inv, fun n request approving finished => ?_⟩
  obtain ⟨s, -, evolved, outcome⟩ := sound.finished finished
  obtain ⟨approval, stored, mine⟩ := outcome approving rfl
  exact ⟨approval, evolved.approvals stored, mine⟩

/-! ### An edit between the read and the ledger -/

def approvalOf (uuid : String) : ReviewRequest := ⟨"sam", "stmt", .approve, ⟨uuid, 2⟩⟩

/-- The amount becomes 35.00. -/
def correction : ReviewRequest :=
  ⟨"sam", "stmt", .editRow "stmt_row_1" { amount := some (.number (-3500)) }, ⟨"u1", 1⟩⟩

/-- The approval reads the rows and the ledger, the edit goes through, the approval finalizes. -/
def editedMeanwhile (A : Adapter) : ReviewPool :=
  Pool.after (reviews plain A)
    [.start (approvalOf "batch_1"), .start correction, .run 0 (), .run 0 (), .run 0 (),
      .run 1 (), .run 1 (), .run 0 ()]
    (.idle ⟨uploaded A [purchase], []⟩)

/-- The edit goes through before the approval reads. -/
def editedBefore : ReviewPool :=
  Pool.afterUnder (reviews plain .memory) (fun op i s => decide (approvesAsRead op i s))
    [.start (approvalOf "batch_1"), .start correction, .run 1 (), .run 1 (),
      .run 0 (), .run 0 (), .run 0 (), .run 0 ()]
    (.idle ⟨uploaded .memory [purchase], []⟩)

theorem editedBefore_isolated :
    editedBefore.Finished 0 (approvalOf "batch_1") (.ok ()) ∧
      (∀ approval ∈ editedBefore.state.approvals, approval.Isolated plain) ∧
      ∀ n request, request.review = .approve → editedBefore.Finished n request (.ok ()) →
        ∃ approval ∈ editedBefore.state.approvals,
          approval.importId = request.importId ∧ approval.batch.id = request.draw.uuid :=
  ⟨rfl, approvals_isolated plain .memory (uploaded .memory [purchase]) editedBefore
    ((Pool.afterUnder_run _ _ _ _).mono fun _ _ _ => of_decide_eq_true)⟩

theorem amounts_of_isolated {approval : ApprovalRecord} (isolated : approval.Isolated plain) :
    (approval.written.map Transaction.amount).Perm ((included approval.stored).map amountOf) := by
  have amounts := isolated.map Transaction.amount
  rwa [List.map_map] at amounts

theorem edit_lost :
    (∀ A : Adapter, Pool.Run (reviews plain A) (fun _ _ _ => True)
        (.idle ⟨uploaded A [purchase], []⟩) (editedMeanwhile A) ∧
      (editedMeanwhile A).Finished 0 (approvalOf "batch_1") (.ok ())) ∧
      ∀ A : Adapter, ∃ approval ∈ (editedMeanwhile A).state.approvals, ¬approval.Isolated plain := by
  constructor
  · intro A
    refine ⟨Pool.after_run _ _ _, ?_⟩
    cases A <;> rfl
  · intro A
    have disagree : ∃ approval ∈ (editedMeanwhile A).state.approvals,
        ¬(approval.written.map Transaction.amount).Perm
          ((included approval.stored).map amountOf) := by
      cases A <;> decide +kernel
    obtain ⟨approval, stored, differs⟩ := disagree
    exact ⟨approval, stored, fun isolated => differs (amounts_of_isolated isolated)⟩

end Finverse.Statements
