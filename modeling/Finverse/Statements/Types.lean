import Finverse.Ledger.Types

/-! Statements under review: the rows read from a document, and what is kept about them. -/

namespace Finverse.Statements

open Ledger

/-- A moment, in milliseconds. -/
abbrev Instant : Type := Int

inductive StatementRowDecision
  | include
  | exclude
  | needsReview
  deriving DecidableEq, Repr

inductive Direction
  | debit
  | credit
  | unknown
  deriving DecidableEq, Repr

/-- A row read from a statement, before it is allowed into the ledger. -/
structure StatementRowRecord where
  id : String
  importId : String
  sourceLine : Nat
  postedAt : Option IsoDate
  description : String
  merchant : Option String
  amount : Option Int
  currency : String
  direction : Direction
  categorySlug : String
  categorySource : CategorySource
  categoryConfidence : Rat
  isRecurring : Bool
  flags : List String
  decision : StatementRowDecision
  fingerprint : String
  editedAt : Option Instant
  deriving DecidableEq, Repr

/-- The fields an edit may set. -/
structure RowPatch where
  postedAt : Option IsoDate := none
  description : Option String := none
  merchant : Option (Option String) := none
  amount : Option Int := none
  direction : Option Direction := none
  currency : Option String := none
  categorySlug : Option String := none
  categorySource : Option CategorySource := none
  categoryConfidence : Option Rat := none
  isRecurring : Option Bool := none
  decision : Option StatementRowDecision := none
  fingerprint : Option String := none
  deriving DecidableEq, Repr

def RowPatch.apply (patch : RowPatch) (row : StatementRowRecord) : StatementRowRecord :=
  { row with
    postedAt := patch.postedAt.or row.postedAt
    description := patch.description.getD row.description
    merchant := patch.merchant.getD row.merchant
    amount := patch.amount.or row.amount
    direction := patch.direction.getD row.direction
    currency := patch.currency.getD row.currency
    categorySlug := patch.categorySlug.getD row.categorySlug
    categorySource := patch.categorySource.getD row.categorySource
    categoryConfidence := patch.categoryConfidence.getD row.categoryConfidence
    isRecurring := patch.isRecurring.getD row.isRecurring
    decision := patch.decision.getD row.decision
    fingerprint := patch.fingerprint.getD row.fingerprint }

inductive StatementStatus
  | queued
  | processing
  | ready
  | approved
  | failed
  | deleted
  deriving DecidableEq, Repr

structure StatementImport where
  id : String
  accountId : String
  filename : String
  statementHash : String
  status : StatementStatus
  rowsTotal : Nat
  rowsIncluded : Nat
  rowsExcluded : Nat
  rowsNeedsReview : Nat
  createdAt : Instant
  processedAt : Option Instant
  approvedAt : Option Instant
  sourceDeletedAt : Option Instant
  error : Option String
  deriving DecidableEq, Repr

/-- The routing data of a claimed job. -/
structure StatementImportJob where
  id : String
  userId : String
  accountId : String
  attempts : Nat
  deriving DecidableEq, Repr

/-- A stored statement. The last three fields are history: how often its rows were written, its
analysis completed, and the ledger written for it. -/
structure StoredStatement extends StatementImport where
  encryptedSource : Option String
  rows : List StatementRowRecord
  attempts : Nat
  processingStartedAt : Option Instant
  sourceExpiresAt : Option Instant
  edits : Nat
  completions : Nat
  ledgerWrites : Nat
  deriving DecidableEq, Repr

def decided (decision : StatementRowDecision) (rows : List StatementRowRecord) : Nat :=
  rows.countP fun row => row.decision = decision

namespace StoredStatement

/-- Sets the counts from the rows. -/
def recalculate (s : StoredStatement) : StoredStatement :=
  { s with
    rowsTotal := s.rows.length
    rowsIncluded := decided .include s.rows
    rowsExcluded := decided .exclude s.rows
    rowsNeedsReview := decided .needsReview s.rows }

/-- Writes the rows of a statement. -/
def withRows (s : StoredStatement) (rows : List StatementRowRecord) : StoredStatement :=
  { s with rows, edits := s.edits + 1 }.recalculate

@[simp] theorem withRows_rows (s : StoredStatement) (rows : List StatementRowRecord) :
    (s.withRows rows).rows = rows := rfl

@[simp] theorem withRows_id (s : StoredStatement) (rows : List StatementRowRecord) :
    (s.withRows rows).id = s.id := rfl

@[simp] theorem withRows_status (s : StoredStatement) (rows : List StatementRowRecord) :
    (s.withRows rows).status = s.status := rfl

def hasSource (s : StoredStatement) : Bool := s.encryptedSource.any (· ≠ "")

end StoredStatement

end Finverse.Statements
