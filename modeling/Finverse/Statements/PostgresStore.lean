import Finverse.Statements.MemoryStore

/-! The Postgres statement store, where it differs from the one in memory. The statements of a user
are the rows of the table that the user's scope shows. -/

namespace Finverse.Statements

open Ledger

/-! ### One statement -/

namespace StoredStatement

variable (s : StoredStatement)

/-- Row ids that the table would hold twice. -/
def clash (stored : List StatementRowRecord) (new : List StatementRowRecord) : Bool :=
  decide ¬(stored.map StatementRowRecord.id ++ new.map StatementRowRecord.id).Nodup

def completeProcessingPg (rows : List StatementRowRecord) (processedAt : Instant) :
    Option (StatementImport × StoredStatement) :=
  s.completeProcessing (s.rows ++ rows) processedAt

def deleteSourcePg (now : Instant) : Option (Unit × StoredStatement) :=
  if s.status = .deleted ∨ s.encryptedSource = none then none
  else some ((), { s with encryptedSource := none, sourceDeletedAt := some now })

def deletePg (now : Instant) : Option (Unit × StoredStatement) :=
  if s.status = .deleted then none
  else
    some ((), { s with
      status := .deleted
      encryptedSource := none
      sourceDeletedAt := some now })

def finalizePg (now : Instant) : StoredStatement :=
  { s with
    status := .approved
    approvedAt := some now
    processedAt := s.processedAt.or (some now)
    ledgerWrites := s.ledgerWrites + 1 }

/-! ### Claiming -/

def expirePg (now : Instant) : StoredStatement :=
  if s.encryptedSource.isSome ∧ s.sourceExpiresAt.any (· ≤ now) then
    let working := s.status = .queued ∨ s.status = .processing
    { s with
      encryptedSource := none
      sourceDeletedAt := s.sourceDeletedAt.or (some now)
      status := if working then .failed else s.status
      error := if working then some "The encrypted source retention period expired." else s.error
      processingStartedAt := none }
  else s

def exhaustPg (now : Instant) : StoredStatement :=
  if s.status = .processing ∧ s.attempts ≥ 3 ∧ s.encryptedSource.isSome ∧
      (s.processingStartedAt = none ∨ s.stale now) then
    { s with
      status := .failed
      error := some "The statement job exceeded the retry limit."
      encryptedSource := none
      sourceDeletedAt := s.sourceDeletedAt.or (some now)
      processingStartedAt := none }
  else s

def sweepPg (now : Instant) : StoredStatement := (s.expirePg now).exhaustPg now

def claimablePg (now : Instant) : Bool :=
  s.encryptedSource.isSome && s.attempts < 3 &&
    (s.status == .queued || s.status == .processing && s.stale now)

def claimedPg (now : Instant) : StoredStatement := { s.claimed now with error := none }

end StoredStatement

/-! ### The store -/

namespace PostgresStatementImportStore

open InMemoryStatementImportStore (bucket live stored stagedBytes duplicate)

variable (st : InMemoryStatementImportStore)

/-- The ids of all rows of a user. -/
def stagedRows (userId : String) : List StatementRowRecord :=
  (st.bucket userId).flatMap StoredStatement.rows

def rowOrder (left right : StatementRowRecord) : Prop :=
  left.sourceLine < right.sourceLine ∨ left.sourceLine = right.sourceLine ∧ left.id ≤ right.id

instance : DecidableRel rowOrder := fun _ _ => inferInstanceAs (Decidable (_ ∨ _ ∧ _))

def rows (userId id : String) : List StatementRowRecord :=
  (((st.find userId id).map (·.rows)).getD []).insertionSort rowOrder

def overQuota (statements : List StoredStatement) (encryptedSource : String)
    (countActive : Bool) : Bool :=
  stagedBytes statements + encryptedSource.utf8ByteSize > MAX_STAGED_SOURCE_BYTES ||
    countActive &&
      InMemoryStatementImportStore.active
        (statements.filter fun s => s.encryptedSource.isSome) ≥ MAX_ACTIVE_IMPORTS

/-- Adds a statement within the quota. Its id and its document are new, and so are its rows. -/
def add (userId : String) (statement : StoredStatement) (encryptedSource : String)
    (countActive : Bool) : Except String StatementImport × InMemoryStatementImportStore :=
  let statements := st.bucket userId
  if overQuota statements encryptedSource countActive then
    (.error "STATEMENT_QUOTA_EXCEEDED", st)
  else if statement.id ∈ statements.map (·.id) ∨
      duplicate statements statement.toStatementImport then
    (.error "STATEMENT_DUPLICATE", st)
  else if StoredStatement.clash (stagedRows st userId) statement.rows then
    (.error "duplicate key value violates unique constraint \"statement_import_rows_pkey\"", st)
  else (.ok statement.toStatementImport, st.set userId (statements ++ [statement]))

def create (userId : String) (statement : StatementImport) (encryptedSource : String)
    (rows : List StatementRowRecord) :
    Except String StatementImport × InMemoryStatementImportStore :=
  let statement := { statement with
    status := .ready
    processedAt := some statement.createdAt
    approvedAt := none
    sourceDeletedAt := none
    error := none }
  add st userId (stored statement encryptedSource rows) encryptedSource false

def enqueue (userId : String) (statement : StatementImport) (encryptedSource : String) :
    Except String StatementImport × InMemoryStatementImportStore :=
  let statement := { statement with
    status := .queued
    rowsTotal := 0
    rowsIncluded := 0
    rowsExcluded := 0
    rowsNeedsReview := 0
    processedAt := none
    approvedAt := none
    sourceDeletedAt := none
    error := none }
  add st userId (stored statement encryptedSource []) encryptedSource true

/-- Changes a statement together with rows that must be new. -/
def reviseRows {α : Type} (userId importId : String) (new : List StatementRowRecord)
    (change : StoredStatement → Option (α × StoredStatement)) :
    Except String (Option α) × InMemoryStatementImportStore :=
  let (result, changed) := st.revise userId importId change
  if result.isSome && StoredStatement.clash (stagedRows st userId) new then
    (.error "duplicate key value violates unique constraint \"statement_import_rows_pkey\"", st)
  else (.ok result, changed)

def claimOrder (left right : String × StoredStatement) : Prop :=
  left.2.createdAt < right.2.createdAt ∨
    left.2.createdAt = right.2.createdAt ∧ left.2.id ≤ right.2.id

instance : DecidableRel claimOrder := fun _ _ => inferInstanceAs (Decidable (_ ∨ _ ∧ _))

def candidates (limit : Int) (now : Instant) : List (String × StoredStatement) :=
  let swept := st.entries.flatMap fun entry => entry.2.map fun s => (entry.1, s.sweepPg now)
  ((swept.filter fun c => c.2.claimablePg now).insertionSort claimOrder).take
    (min (max limit 1) 25).toNat

def afterClaim (taken : List (String × String)) (now : Instant) (userId : String)
    (s : StoredStatement) : StoredStatement :=
  let s := s.sweepPg now
  if s.claimablePg now && (userId, s.id) ∈ taken then s.claimedPg now else s

def claim (limit : Int) (now : Instant) :
    List StatementImportJob × InMemoryStatementImportStore :=
  let chosen := candidates st limit now
  let taken := chosen.map fun c => (c.1, c.2.id)
  (chosen.map fun c => (c.2.claimedPg now).job c.1,
    st.mapWithKey fun userId statements => statements.map (afterClaim taken now userId))

/-! ### The ledger -/

/-- Inserts the transactions whose keys are new, and counts them. -/
def insertTransactions (rows : List Transaction) :
    List Transaction → Except String (Nat × List Transaction)
  | [] => .ok (0, rows)
  | txn :: txns =>
    if txn.key ∈ rows.map Transaction.key then insertTransactions rows txns
    else if txn.id ∈ rows.map Transaction.id then
      .error "duplicate key value violates unique constraint \"transactions_pkey\""
    else (insertTransactions (rows ++ [txn]) txns).map fun (inserted, rows) =>
      (inserted + 1, rows)

/-- Approves a ready statement and inserts its transactions, all or nothing. -/
def finalize (userId importId : String) (transactions : List Transaction) (now : Instant)
    (ledger : List Transaction) :
    Except String (Option (StatementImport × InMemoryStatementImportStore × List Transaction)) :=
  match (st.find userId importId).filter fun s => s.status = .ready with
  | none => .ok none
  | some statement =>
    if statement.rows.any fun row => row.decision = .needsReview then
      .error "STATEMENT_REVIEW_REQUIRED"
    else
      match insertTransactions ledger transactions with
      | .error e => .error e
      | .ok (inserted, ledger) =>
        if inserted ≠ transactions.length then .error "STATEMENT_DUPLICATE"
        else
          .ok (some ((statement.finalizePg now).toStatementImport,
            st.set userId (Table.modify (·.id) importId (fun _ => statement.finalizePg now)
              (st.bucket userId)), ledger))

end PostgresStatementImportStore

end Finverse.Statements
