import Finverse.Auth.Domain
import Finverse.Framework.OrderedMap
import Finverse.Ledger.MemoryStore
import Finverse.Statements.Types
import Mathlib.Data.List.Sort

/-! The in-memory statement store: what its operations do to a statement, and to the store. -/

namespace Finverse.Statements

open Ledger

/-! ### One statement -/

namespace StoredStatement

variable (s : StoredStatement)

def completeProcessing (rows : List StatementRowRecord) (processedAt : Instant) :
    Option (StatementImport × StoredStatement) :=
  if s.status ≠ .processing then none
  else
    let s := { s with
      status := .ready
      processedAt := some processedAt
      error := none
      processingStartedAt := none
      completions := s.completions + 1 }
    some ((s.withRows rows).toStatementImport, s.withRows rows)

def failProcessing (error : String) (now : Instant) : Option (Unit × StoredStatement) :=
  if s.status ≠ .processing then none
  else
    some ((), { s with
      status := .failed
      error := some (Auth.slice 500 error)
      processingStartedAt := none
      processedAt := some now })

def updateRow (rowId : String) (patch : RowPatch) (now : Instant) :
    Option (StatementRowRecord × StoredStatement) :=
  match Table.lookup StatementRowRecord.id rowId s.rows with
  | none => none
  | some row =>
    if s.status ≠ .ready then none
    else
      let row := { patch.apply row with importId := s.id, editedAt := some now }
      some (row, s.withRows (Table.modify StatementRowRecord.id rowId (fun _ => row) s.rows))

def updateRowsDecision (rowIds : List String) (decision : StatementRowDecision) (now : Instant) :
    Option (List StatementRowRecord × StoredStatement) :=
  if s.status ≠ .ready ∨ rowIds = [] then none
  else if (s.rows.filter fun row => row.id ∈ rowIds).length ≠ rowIds.length then none
  else
    let rows := s.rows.map fun row =>
      if row.id ∈ rowIds then { row with decision, editedAt := some now } else row
    some (rows.filter fun row => row.id ∈ rowIds, s.withRows rows)

/-- A row that others now stand for. -/
def superseded (flag : String) (now : Instant) (row : StatementRowRecord) : StatementRowRecord :=
  { row with decision := .exclude, flags := row.flags ++ [flag], editedAt := some now }

def splitRow (rowId : String) (parts : List StatementRowRecord) (now : Instant) :
    Option (List StatementRowRecord × StoredStatement) :=
  match Table.lookup StatementRowRecord.id rowId s.rows with
  | none => none
  | some _ =>
    if s.status ≠ .ready then none
    else
      let rows := Table.modify StatementRowRecord.id rowId (superseded "split_parent" now) s.rows
      some (parts, s.withRows (rows ++ parts))

def mergeRows (rowIds : List String) (merged : StatementRowRecord) (now : Instant) :
    Option (StatementRowRecord × StoredStatement) :=
  if s.status ≠ .ready ∨ rowIds.length < 2 then none
  else if (s.rows.filter fun row => row.id ∈ rowIds).length ≠ rowIds.length then none
  else
    let rows := s.rows.map fun row =>
      if row.id ∈ rowIds then superseded "merged_parent" now row else row
    some (merged, s.withRows (rows ++ [merged]))

section RowEdits

variable {s} {t : StoredStatement} {now : Instant}

/-- The rows of a split are only written to a ready statement that has the row. -/
theorem splitRow_some {rowId : String} {parts result : List StatementRowRecord}
    (h : s.splitRow rowId parts now = some (result, t)) :
    s.status = .ready ∧ (∃ row, Table.lookup StatementRowRecord.id rowId s.rows = some row) ∧
      result = parts ∧
      t = s.withRows (Table.modify StatementRowRecord.id rowId (superseded "split_parent" now)
        s.rows ++ parts) := by
  rw [splitRow] at h
  split at h
  · cases h
  · rename_i row found
    split at h
    · cases h
    · rename_i ready
      obtain ⟨rfl, rfl⟩ := Prod.mk.inj (Option.some.inj h)
      exact ⟨not_not.mp ready, ⟨row, found⟩, rfl, rfl⟩

theorem mergeRows_some {rowIds : List String} {merged result : StatementRowRecord}
    (h : s.mergeRows rowIds merged now = some (result, t)) :
    s.status = .ready ∧ result = merged ∧
      t = s.withRows ((s.rows.map fun row =>
        if row.id ∈ rowIds then superseded "merged_parent" now row else row) ++ [merged]) := by
  rw [mergeRows] at h
  split at h
  · cases h
  · rename_i usable
    split at h
    · cases h
    · obtain ⟨rfl, rfl⟩ := Prod.mk.inj (Option.some.inj h)
      rw [not_or, not_not] at usable
      exact ⟨usable.1, rfl, rfl⟩

theorem updateRow_some {rowId : String} {patch : RowPatch} {result : StatementRowRecord}
    (h : s.updateRow rowId patch now = some (result, t)) :
    s.status = .ready ∧ ∃ row, Table.lookup StatementRowRecord.id rowId s.rows = some row ∧
      result = { patch.apply row with importId := s.id, editedAt := some now } ∧
      t = s.withRows (Table.modify StatementRowRecord.id rowId (fun _ => result) s.rows) := by
  rw [updateRow] at h
  split at h
  · cases h
  · rename_i row found
    split at h
    · cases h
    · rename_i ready
      obtain ⟨rfl, rfl⟩ := Prod.mk.inj (Option.some.inj h)
      exact ⟨not_not.mp ready, row, found, rfl, rfl⟩

theorem updateRowsDecision_some {rowIds : List String} {decision : StatementRowDecision}
    {result : List StatementRowRecord}
    (h : s.updateRowsDecision rowIds decision now = some (result, t)) :
    s.status = .ready ∧ t = s.withRows (s.rows.map fun row =>
      if row.id ∈ rowIds then { row with decision, editedAt := some now } else row) := by
  rw [updateRowsDecision] at h
  split at h
  · cases h
  · rename_i usable
    split at h
    · cases h
    · obtain ⟨-, rfl⟩ := Prod.mk.inj (Option.some.inj h)
      rw [not_or, not_not] at usable
      exact ⟨usable.1, rfl⟩

end RowEdits

def finalize (now : Instant) : Option (StatementImport × StoredStatement) :=
  if s.status ≠ .ready then none
  else
    let s := { s with
      status := .approved
      processingStartedAt := none
      approvedAt := some now
      ledgerWrites := s.ledgerWrites + 1 }
    some (s.toStatementImport, s)

def deleteSource (now : Instant) : Option (Unit × StoredStatement) :=
  if s.status = .deleted then none
  else some ((), { s with encryptedSource := none, sourceDeletedAt := some now })

def delete (now : Instant) : Option (Unit × StoredStatement) :=
  if s.status = .deleted then none
  else
    some ((), { s with
      status := .deleted
      processingStartedAt := none
      sourceDeletedAt := some now })

/-! ### Claiming -/

/-- Drops a source whose time is over, and the job with it. The statement is no candidate then. -/
def expireIfNeeded (now : Instant) : Bool × StoredStatement :=
  if s.hasSource && s.sourceExpiresAt.any (· ≤ now) then
    let s := { s with
      encryptedSource := none
      sourceDeletedAt := some now
      sourceExpiresAt := none }
    (false,
      if s.status = .queued ∨ s.status = .processing then
        { s with
          status := .failed
          error := some "The encrypted source retention period expired."
          processingStartedAt := none
          processedAt := some now }
      else s)
  else (true, s)

def stale (now : Instant) : Bool := s.processingStartedAt.any (· < now - 5 * 60000)

/-- Gives up a job that was claimed three times. The statement is no candidate then. -/
def exhaustIfNeeded (now : Instant) : Bool × StoredStatement :=
  if s.status = .processing ∧ s.attempts ≥ 3 ∧ s.stale now then
    (false, { s with
      status := .failed
      error := some "The statement job exceeded the retry limit."
      encryptedSource := none
      sourceDeletedAt := some now
      sourceExpiresAt := none
      processingStartedAt := none })
  else (true, s)

/-- What a claim does to every statement, and whether it stays a candidate. -/
def sweep (now : Instant) : Bool × StoredStatement :=
  let (live, s) := s.expireIfNeeded now
  if live then s.exhaustIfNeeded now else (false, s)

def claimable (now : Instant) : Bool :=
  s.status == .queued && s.encryptedSource.isSome || s.status == .processing && s.stale now

def claimed (now : Instant) : StoredStatement :=
  { s with
    status := .processing
    processingStartedAt := some now
    attempts := s.attempts + 1 }

def job (userId : String) : StatementImportJob := ⟨s.id, userId, s.accountId, s.attempts⟩

end StoredStatement

/-! ### The store -/

/-- The statements of each user. -/
abbrev InMemoryStatementImportStore : Type := OrdMap String (List StoredStatement)

def MAX_STAGED_SOURCE_BYTES : Nat := 64 * 1024 * 1024

def MAX_ACTIVE_IMPORTS : Nat := 5

def SOURCE_RETENTION_MS : Int := 90 * 24 * 60 * 60 * 1000

namespace InMemoryStatementImportStore

variable (st : InMemoryStatementImportStore)

def bucket (userId : String) : List StoredStatement := (st.get? userId).getD []

/-- Looking at a user's statements makes a place for them. -/
def touch (userId : String) : InMemoryStatementImportStore := st.set userId (st.bucket userId)

def find (userId id : String) : Option StoredStatement :=
  Table.lookup (·.id) id (st.bucket userId)

/-- Changes a statement, if it is there and the change applies. -/
def revise {α : Type} (userId importId : String)
    (change : StoredStatement → Option (α × StoredStatement)) :
    Option α × InMemoryStatementImportStore :=
  match (st.find userId importId).bind change with
  | none => (none, st.touch userId)
  | some (result, changed) =>
    (some result,
      st.set userId (Table.modify (·.id) importId (fun _ => changed) (st.bucket userId)))

@[simp] theorem bucket_set (userId other : String) (statements : List StoredStatement) :
    bucket (OrdMap.set st userId statements) other =
      if userId = other then statements else st.bucket other := by
  rw [bucket, OrdMap.get?_set]
  split <;> rfl

@[simp] theorem bucket_touch (userId other : String) :
    (st.touch userId).bucket other = st.bucket other := by
  rw [touch, bucket_set]
  split
  · rename_i same
    rw [same]
  · rfl

@[simp] theorem find_touch (userId other id : String) :
    (st.touch userId).find other id = st.find other id := by
  rw [find, bucket_touch, find]

theorem id_of_find {st : InMemoryStatementImportStore} {userId id : String} {s : StoredStatement}
    (found : st.find userId id = some s) : s.id = id := by
  have key := Table.lookup_key found
  exact key

theorem find_replaced {t : StoredStatement} {importId : String} (kept : t.id = importId)
    (userId other id : String) :
    find (OrdMap.set st userId (Table.modify (·.id) importId (fun _ => t) (st.bucket userId)))
        other id =
      if userId = other ∧ id = importId then (st.find userId importId).map fun _ => t
      else st.find other id := by
  have looked : Table.lookup (fun s : StoredStatement => s.id) id
      (Table.modify (fun s : StoredStatement => s.id) importId (fun _ => t) (st.bucket userId)) =
        if id = importId then (st.find userId importId).map fun _ => t
        else Table.lookup (fun s : StoredStatement => s.id) id (st.bucket userId) :=
    @Table.lookup_modify StoredStatement String _ (fun s => s.id) importId (fun _ => t)
      (st.bucket userId) (fun _ _ => kept) id
  rw [find, bucket_set]
  by_cases mine : userId = other
  · subst mine
    simp only [if_true, true_and]
    exact looked
  · simp [mine, find]

section Revise

variable {st} {α : Type} {userId importId : String}
  {change : StoredStatement → Option (α × StoredStatement)}

/-- A change that does not apply only makes a place for the user. -/
theorem revise_none (refused : (st.revise userId importId change).1 = none) :
    (st.revise userId importId change).2 = st.touch userId := by
  rw [revise] at refused ⊢
  cases applied : (st.find userId importId).bind change with
  | none => rfl
  | some result =>
    rw [applied] at refused
    cases refused

/-- What a change that applies leaves behind. -/
theorem revise_some {result : α} (applied : (st.revise userId importId change).1 = some result) :
    ∃ s t, st.find userId importId = some s ∧ change s = some (result, t) ∧
      (st.revise userId importId change).2 =
        st.set userId (Table.modify (·.id) importId (fun _ => t) (st.bucket userId)) := by
  rw [revise] at applied ⊢
  cases both : (st.find userId importId).bind change with
  | none =>
    rw [both] at applied
    cases applied
  | some pair =>
    obtain ⟨r, t⟩ := pair
    rw [both] at applied
    obtain rfl := Option.some.inj applied
    obtain ⟨s, found, changed⟩ := Option.bind_eq_some_iff.mp both
    exact ⟨s, t, found, changed, rfl⟩

theorem find_revise {result : α} {s : StoredStatement}
    (keeps : ∀ s r t, change s = some (r, t) → t.id = s.id)
    (applied : (st.revise userId importId change).1 = some result)
    (found : st.find userId importId = some s) :
    ∃ t, change s = some (result, t) ∧
      (st.revise userId importId change).2.find userId importId = some t := by
  obtain ⟨s', t, found', changed, after⟩ := revise_some applied
  obtain rfl : s = s' := Option.some.inj (found.symm.trans found')
  refine ⟨t, changed, ?_⟩
  have same : t.id = importId := (keeps s result t changed).trans (id_of_find found)
  rw [after, find_replaced st same, if_pos ⟨rfl, rfl⟩, found]
  rfl

/-- A statement is changed as the change says, or left alone. -/
theorem find_revise_rel {R : StoredStatement → StoredStatement → Prop} (same : ∀ s, R s s)
    (changes : ∀ s r t, change s = some (r, t) → t.id = s.id ∧ R s t) (other id : String) :
    Option.Rel R (st.find other id) ((st.revise userId importId change).2.find other id) := by
  have refl : ∀ found : Option StoredStatement, Option.Rel R found found := by
    intro found
    cases found with
    | none => exact .none
    | some s => exact .some (same s)
  cases applied : (st.revise userId importId change).1 with
  | none =>
    rw [revise_none applied, find_touch]
    exact refl _
  | some result =>
    obtain ⟨s, t, found, changed, after⟩ := revise_some applied
    obtain ⟨named, related⟩ := changes s result t changed
    have kept : t.id = importId := named.trans (id_of_find found)
    rw [after, find_replaced st kept]
    split
    · rename_i target
      rw [← target.1, target.2, found]
      exact .some related
    · exact refl _

end Revise

/-- The statement, unless it was deleted. -/
def live (userId id : String) : Option StoredStatement :=
  (st.bucket userId).find? fun item => item.id == id && item.status != .deleted

theorem live_of_find {st : InMemoryStatementImportStore} {userId id : String} {s : StoredStatement}
    (found : st.find userId id = some s) (kept : s.status ≠ .deleted) :
    st.live userId id = some s := by
  rw [find, Table.lookup] at found
  rw [live]
  generalize st.bucket userId = items at found
  induction items with
  | nil => cases found
  | cons item items ih =>
    by_cases named : item.id = id
    · rw [List.find?_cons_of_pos (by simpa using named)] at found
      obtain rfl := Option.some.inj found
      rw [List.find?_cons_of_pos (by simp [named, kept])]
    · rw [List.find?_cons_of_neg (by simpa using named)] at found
      rw [List.find?_cons_of_neg (by simp [named])]
      exact ih found

def get (userId id : String) : Option StatementImport :=
  (st.live userId id).map (·.toStatementImport)

def rows (userId id : String) : List StatementRowRecord :=
  ((st.live userId id).map (·.rows)).getD []

def source (userId importId : String) : Option (StatementImport × String) :=
  (st.find userId importId).bind fun statement =>
    if statement.status ≠ .processing ∨ statement.hasSource = false then none
    else statement.encryptedSource.map fun encryptedSource =>
      (statement.toStatementImport, encryptedSource)

/-- The sizes of the sources a user has staged. -/
def stagedBytes (statements : List StoredStatement) : Nat :=
  (statements.map fun s => (s.encryptedSource.getD "").utf8ByteSize).sum

def active (statements : List StoredStatement) : Nat :=
  statements.countP fun s => s.status = .queued ∨ s.status = .processing

def overQuota (statements : List StoredStatement) (encryptedSource : String)
    (countActive : Bool) : Bool :=
  stagedBytes statements + encryptedSource.utf8ByteSize > MAX_STAGED_SOURCE_BYTES ||
    countActive && active statements ≥ MAX_ACTIVE_IMPORTS

def duplicate (statements : List StoredStatement) (statement : StatementImport) : Bool :=
  statements.any fun item =>
    item.accountId == statement.accountId && item.statementHash == statement.statementHash &&
      item.status != .deleted && item.status != .failed

/-- Adds a statement within the quota. -/
def add (userId : String) (statement : StoredStatement) (encryptedSource : String)
    (countActive : Bool) : Except String StatementImport × InMemoryStatementImportStore :=
  if overQuota (st.bucket userId) encryptedSource countActive then
    (.error "STATEMENT_QUOTA_EXCEEDED", st.touch userId)
  else if duplicate (st.bucket userId) statement.toStatementImport then
    (.error "STATEMENT_DUPLICATE", st.touch userId)
  else (.ok statement.toStatementImport, st.set userId (st.bucket userId ++ [statement]))

/-- A statement as it is first stored. -/
def stored (statement : StatementImport) (encryptedSource : String)
    (rows : List StatementRowRecord) : StoredStatement where
  toStatementImport := statement
  encryptedSource := some encryptedSource
  rows
  attempts := 0
  processingStartedAt := none
  sourceExpiresAt := some (statement.createdAt + SOURCE_RETENTION_MS)
  edits := 0
  completions := 0
  ledgerWrites := 0

def create (userId : String) (statement : StatementImport) (encryptedSource : String)
    (rows : List StatementRowRecord) :
    Except String StatementImport × InMemoryStatementImportStore :=
  st.add userId (stored statement encryptedSource rows) encryptedSource false

def enqueue (userId : String) (statement : StatementImport) (encryptedSource : String) :
    Except String StatementImport × InMemoryStatementImportStore :=
  st.add userId (stored statement encryptedSource []) encryptedSource true

/-- The statements a claim takes, the oldest first. -/
def candidates (limit : Int) (now : Instant) : List (String × StoredStatement) :=
  let swept := st.entries.flatMap fun entry =>
    entry.2.map fun s => (entry.1, s.sweep now)
  let claimable := swept.filterMap fun (userId, live, s) =>
    if live && s.claimable now then some (userId, s) else none
  (claimable.insertionSort fun left right => left.2.createdAt ≤ right.2.createdAt).take
    (max 1 (min limit 100)).toNat

/-- A statement after a claim that took the statements of these users and ids. -/
def afterClaim (taken : List (String × String)) (now : Instant) (userId : String)
    (s : StoredStatement) : StoredStatement :=
  let (live, s) := s.sweep now
  if live && s.claimable now && (userId, s.id) ∈ taken then s.claimed now else s

def claim (limit : Int) (now : Instant) :
    List StatementImportJob × InMemoryStatementImportStore :=
  let chosen := st.candidates limit now
  let taken := chosen.map fun c => (c.1, c.2.id)
  (chosen.map fun c => (c.2.claimed now).job c.1,
    st.mapWithKey fun userId statements => statements.map (afterClaim taken now userId))

end InMemoryStatementImportStore

end Finverse.Statements
