import Finverse.Categorization.Corrections
import Finverse.Imports.Mapping
import Finverse.Ledger.ImportCommit

/-! The review boundary: a decision for every row of a file, before anything is written. -/

namespace Finverse.Imports

open Auth (trim jsLength)
open Categorization (TextContext normalizeDescriptor)
open Ledger (IsoDate Transaction ReviewedRow RowDecision)

/-- What the runtime decides for a review: the tables of Unicode and the arithmetic of amounts. -/
structure ReviewContext where
  text : TextContext
  numberToMinor : String → String → Option Int

/-! ### Duplicates -/

def DUPLICATE_CONFIDENCE_THRESHOLD : Rat := 8 / 10

def DATE_WINDOW_DAYS : Nat := 3

/-- Days before the first of a month, in a leap year or not. -/
def daysBeforeMonth (year month : Nat) : Nat :=
  ((List.range (month - 1)).map fun earlier => daysInMonth year (earlier + 1)).sum

/-- Days from the first of January of the year 0. -/
def dayNumber (year month day : Nat) : Nat :=
  365 * year + (year + 3) / 4 - (year + 99) / 100 + (year + 399) / 400 +
    daysBeforeMonth year month + day

/-- `Date.parse` at midnight, in days. -/
def parseDay (date : IsoDate) : Option Nat :=
  match threeNumbers ['-'] 4 4 2 2 date.toList with
  | some (year, month, day) =>
    if date.toList.length = 10 ∧ 1 ≤ month ∧ month ≤ 12 ∧ 1 ≤ day ∧ day ≤ 31 then
      some (dayNumber year month day)
    else none
  | none => none

/-- Apart by no number of days, when one is no date. -/
def daysApart (a b : IsoDate) : Option Nat :=
  match parseDay a, parseDay b with
  | some left, some right => some ((left : Int) - right).natAbs
  | _, _ => none

/-- The tokens of a descriptor that are longer than one character. -/
def tokens (descriptor : String) : List String :=
  (((descriptor.toList.splitOn ' ').map String.ofList).filter fun t => 1 < jsLength t).dedup

/-- Token overlap, 0–1. -/
def similarity (a b : String) : Rat :=
  if a = b then 1
  else
    let left := tokens a
    let right := tokens b
    if left = [] ∨ right = [] then 0
    else (left.filter (· ∈ right)).length / (max left.length right.length : Nat)

/-- What is read of a row that is not invalid. -/
structure Candidate where
  postedAt : IsoDate
  amount : Int
  descriptor : String
  normalizedDescriptor : String
  deriving DecidableEq, Repr

structure DuplicateMatch where
  confidence : Rat
  transactionId : String
  deriving DecidableEq, Repr

/-- How strongly a held transaction looks like the candidate. -/
def confidenceOf (candidate : Candidate) (txn : Transaction) : Option Rat :=
  if txn.amount ≠ candidate.amount then none
  else
    match daysApart txn.postedAt candidate.postedAt with
    | none => none
    | some dayGap =>
      if DATE_WINDOW_DAYS < dayGap then none
      else
        let dateScore : Rat := if dayGap = 0 then 1 else 1 - dayGap / (DATE_WINDOW_DAYS + 1 : Nat)
        let textScore := similarity txn.normalizedDescriptor candidate.normalizedDescriptor
        some (6 / 10 * dateScore + 4 / 10 * textScore)

/-- The strongest match, the earlier one of equals. -/
def bestMatch (candidate : Candidate) :
    List Transaction → Option DuplicateMatch → Option DuplicateMatch
  | [], best => best
  | txn :: existing, best =>
    match confidenceOf candidate txn with
    | none => bestMatch candidate existing best
    | some confidence =>
      bestMatch candidate existing
        (if best.all (decide <| ·.confidence < confidence) then some ⟨confidence, txn.id⟩ else best)

def findDuplicate (candidate : Candidate) (existing : List Transaction) : Option DuplicateMatch :=
  (bestMatch candidate existing none).filter
    fun best => DUPLICATE_CONFIDENCE_THRESHOLD ≤ best.confidence

/-! ### Rows -/

structure ReviewInput where
  headers : List String
  rows : List (List String)
  mapping : ColumnMapping
  existing : List Transaction
  currency : String
  raggedLines : List Nat

variable (R : ReviewContext) (input : ReviewInput)

/-- The cell of a row in a named column. -/
def cellOf (name : Option String) (raw : List String) : String :=
  ((name.bind (input.headers.idxOf? ·)).bind (raw[·]?)).getD ""

def isOutflow (direction : String) : Bool :=
  ["debit", "dr", "withdrawal", "out", "payment"].any (·.toList.isPrefixOf direction.toList)

def isInflow (direction : String) : Bool :=
  ["credit", "cr", "deposit", "in", "receipt"].any (·.toList.isPrefixOf direction.toList)

def readAmount (raw : List String) : Option Int :=
  let mapping := input.mapping
  let amountOf := fun name => parseAmount R.numberToMinor (cellOf input name raw) input.currency
  match mapping.convention with
  | .debitCreditColumns =>
    -- Exactly one side should carry a value.
    match (amountOf mapping.debit).filter (· ≠ 0), (amountOf mapping.credit).filter (· ≠ 0) with
    | some _, some _ => none
    | some debit, none => some (-|debit|)
    | none, some credit => some |credit|
    | none, none => none
  | .positiveWithDirection =>
    (amountOf mapping.amount).bind fun amount =>
      let direction := R.text.toLowerCase (trim (cellOf input mapping.direction raw))
      if isOutflow direction then some (-|amount|)
      else if isInflow direction then some |amount|
      else none
  | .signed => amountOf mapping.amount

/-- What a row says, or why it is invalid. -/
def readRow (line : Nat) (raw : List String) : Except String Candidate := do
  throwIf (line ∈ input.raggedLines) "This row has a different number of columns."
  let postedAt ← orThrow
    (parseDate (cellOf input (some input.mapping.date) raw) input.mapping.dateOrder)
    "Could not read the date."
  let amount ← orThrow (readAmount R input raw) "Could not read the amount."
  throwIf (amount = 0) "The amount is zero."
  let descriptor := trim (cellOf input (some input.mapping.description) raw)
  throwIf (descriptor = "") "The description is empty."
  .ok ⟨postedAt, amount, descriptor, normalizeDescriptor R.text.toLowerCase descriptor⟩

/-- A row accepted earlier in the same file. -/
def pendingTransaction (line : Nat) (c : Candidate) : Transaction where
  id := "pending-" ++ toString line
  accountId := ""
  providerTxnId := "pending-" ++ toString line
  postedAt := c.postedAt
  amount := c.amount
  currency := input.currency
  rawDescriptor := c.descriptor
  normalizedDescriptor := c.normalizedDescriptor
  categorySlug := "unknown"
  categorySource := .unknown
  categoryConfidence := 0
  isRecurring := false
  pending := false

def matchOf (accepted : List Transaction) (c : Candidate) : Option DuplicateMatch :=
  (findDuplicate c input.existing).or (findDuplicate c accepted)

def invalidRow (line : Nat) (raw : List String) (reason : String) : ReviewedRow where
  line
  decision := .invalid
  reason := some reason
  raw
  populated := by simp

def duplicateRow (line : Nat) (raw : List String) (c : Candidate) (m : DuplicateMatch) :
    ReviewedRow where
  line
  decision := .duplicate
  postedAt := some c.postedAt
  amount := some c.amount
  descriptor := some c.descriptor
  normalizedDescriptor := some c.normalizedDescriptor
  duplicateConfidence := some (Categorization.round (m.confidence * 100) / 100)
  duplicateOfId := some m.transactionId
  reason := some "This looks like a transaction you already have."
  raw
  populated := by simp

def importRow (line : Nat) (raw : List String) (c : Candidate) : ReviewedRow where
  line
  decision := .importRow
  postedAt := some c.postedAt
  amount := some c.amount
  descriptor := some c.descriptor
  normalizedDescriptor := some c.normalizedDescriptor
  raw
  populated := by simp

/-- The decisions from a line on, after the rows accepted before it. -/
def reviewFrom (accepted : List Transaction) (line : Nat) : List (List String) → List ReviewedRow
  | [] => []
  | raw :: rows =>
    match readRow R input line raw with
    | .error reason => invalidRow line raw reason :: reviewFrom accepted (line + 1) rows
    | .ok c =>
      match matchOf input accepted c with
      | some m => duplicateRow line raw c m :: reviewFrom accepted (line + 1) rows
      | none =>
        importRow line raw c ::
          reviewFrom (accepted ++ [pendingTransaction input line c]) (line + 1) rows

structure ReviewSummary where
  total : Nat
  importable : Nat
  duplicates : Nat
  invalid : Nat
  netAmount : Int
  dateRange : Option (IsoDate × IsoDate)
  deriving DecidableEq, Repr

structure ImportReview where
  rows : List ReviewedRow
  summary : ReviewSummary

def summaryOf (reviewed : List ReviewedRow) : ReviewSummary :=
  let importable := reviewed.filter (·.decision = .importRow)
  let dates := (importable.filterMap (·.postedAt)).insertionSort (· ≤ ·)
  { total := reviewed.length
    importable := importable.length
    duplicates := reviewed.countP (·.decision = .duplicate)
    invalid := reviewed.countP (·.decision = .invalid)
    netAmount := (importable.map fun r => r.amount.getD 0).sum
    dateRange := dates.head?.bind fun first => dates.getLast?.map fun last => (first, last) }

/-- Classifies every row. None is ever silently discarded. -/
def reviewImport : ImportReview :=
  let reviewed := reviewFrom R input [] 2 input.rows
  ⟨reviewed, summaryOf reviewed⟩

end Finverse.Imports
