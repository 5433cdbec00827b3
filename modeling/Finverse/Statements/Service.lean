import Finverse.Http
import Finverse.Statements.Ports

/-! Reviewing and approving a statement. -/

namespace Finverse.Statements

open Auth (trim jsLength slice)
open Interleave Ledger

abbrev Service (α : Type) : Type := Task ports HttpError α

def call (op : Operation) : Service op.Reply := Task.call (I := ports) op

/-- A call with no other in between. -/
def Adapter.run {α : Type} (A : Adapter) (m : Service α) (w : Imports) :
    Except HttpError α × Imports :=
  Task.solo (I := ports) A.exec m w

section Run

variable {α β : Type} {A : Adapter} {w w' : Imports} {b : β}

theorem Adapter.run_bind_ok {m : Service α} {f : α → Service β}
    (ok : A.run (m >>= f) w = (.ok b, w')) :
    ∃ a w₁, A.run m w = (.ok a, w₁) ∧ A.run (f a) w₁ = (.ok b, w') :=
  Task.solo_bind_ok (I := ports) A.exec ok

theorem Adapter.run_call_ok {op : Operation} {f : op.Reply → Service β}
    (ok : A.run (call op >>= f) w = (.ok b, w')) :
    ∃ reply w₁, A.exec op w = (reply, w₁) ∧ A.run (f reply) w₁ = (.ok b, w') :=
  ⟨_, _, rfl, ok⟩

theorem Adapter.run_check_ok {x : Except HttpError α} {f : α → Service β}
    (ok : A.run (Task.ofExcept x >>= f) w = (.ok b, w')) :
    ∃ a, x = .ok a ∧ A.run (f a) w = (.ok b, w') := by
  obtain ⟨a, w₁, checked, ok⟩ := run_bind_ok ok
  obtain ⟨passed, rfl⟩ := Prod.mk.inj checked
  exact ⟨a, passed, ok⟩

theorem Adapter.run_bind_error {m : Service α} {f : α → Service β} {e : HttpError}
    (failed : A.run (m >>= f) w = (.error e, w')) :
    A.run m w = (.error e, w') ∨
      ∃ a w₁, A.run m w = (.ok a, w₁) ∧ A.run (f a) w₁ = (.error e, w') :=
  Task.solo_bind_error (I := ports) A.exec failed

theorem Adapter.run_check_error {x : Except HttpError α} {f : α → Service β} {e : HttpError}
    (failed : A.run (Task.ofExcept x >>= f) w = (.error e, w')) :
    w = w' ∨ ∃ a, x = .ok a ∧ A.run (f a) w = (.error e, w') := by
  rcases run_bind_error failed with stopped | ⟨a, w₁, checked, failed⟩
  · exact .inl (Prod.mk.inj stopped).2
  · obtain ⟨passed, rfl⟩ := Prod.mk.inj checked
    exact .inr ⟨a, passed, failed⟩

theorem Adapter.run_last_ok {x : Except HttpError β}
    (ok : A.run (Task.ofExcept x) w = (.ok b, w')) : x = .ok b ∧ w = w' := Prod.mk.inj ok

end Run

/-- The reply of a store that may throw. -/
def settled {α : Type} (reply : StoreReply α) : Service α :=
  Task.ofExcept (reply.mapError .internal)

structure Primitives where
  normalizeDescriptor : String → String
  sha256 : String → String
  isKnownCategory : String → Bool
  isCalendarDate : String → Bool
  toISOString : Instant → String

/-- What a request draws: a random id, and the time. -/
structure Draw where
  uuid : String
  now : Instant

/-- A value of a request body. -/
inductive Scalar
  | null
  | boolean (b : Bool)
  | number (n : Rat)
  | string (s : String)
  | other
  deriving DecidableEq, Repr

def Scalar.safeInteger : Scalar → Option Int
  | .number n => if n.den = 1 ∧ n.num.natAbs ≤ 9007199254740991 then some n.num else none
  | _ => none

def Scalar.text : Scalar → Option String
  | .string s => some s
  | _ => none

def Scalar.decision : Scalar → Option StatementRowDecision
  | .string "include" => some .include
  | .string "exclude" => some .exclude
  | .string "needs_review" => some .needsReview
  | _ => none

variable (P : Primitives)

def fingerprint (row : StatementRowRecord) : String :=
  P.sha256 (toString row.sourceLine ++ "|" ++ row.postedAt.getD "" ++ "|" ++
    (row.amount.map toString).getD "" ++ "|" ++ P.normalizeDescriptor row.description ++ "|" ++
    row.currency)

def directionOf (amount : Int) : Direction := if amount < 0 then .debit else .credit

def findRow (userId importId rowId : String) : Service StatementRowRecord := do
  let read ← call (.rows userId importId)
  Task.ofExcept (orThrow (Table.lookup StatementRowRecord.id rowId read.rows)
    (.notFound "Statement row not found."))

/-! ### Editing -/

structure EditStatementRowInput where
  postedAt : Option Scalar := none
  description : Option Scalar := none
  merchant : Option Scalar := none
  amount : Option Scalar := none
  currency : Option Scalar := none
  categorySlug : Option Scalar := none
  isRecurring : Option Scalar := none
  decision : Option Scalar := none

/-- A field that is given must be acceptable. -/
def editField (value : Option Scalar) (message : String)
    (set : Scalar → RowPatch → Option RowPatch) (patch : RowPatch) : Except HttpError RowPatch :=
  match value with
  | none => .ok patch
  | some value => orThrow (set value patch) (.badRequest message)

def editedPostedAt (value : Scalar) (patch : RowPatch) : Option RowPatch :=
  (value.text.filter P.isCalendarDate).map fun date => { patch with postedAt := some date }

def editedDescription (current : StatementRowRecord) (value : Scalar) (patch : RowPatch) :
    Option RowPatch :=
  (value.text.filter fun s => trim s ≠ "" ∧ jsLength s ≤ 500).map fun s =>
    { patch with description := some (trim s), merchant := some current.merchant }

def editedMerchant (value : Scalar) (patch : RowPatch) : Option RowPatch :=
  match value with
  | .null => some { patch with merchant := some none }
  | .string s =>
    if jsLength s ≤ 160 then some { patch with merchant := some (some (trim s)) } else none
  | _ => none

def editedAmount (value : Scalar) (patch : RowPatch) : Option RowPatch :=
  (value.safeInteger.filter (· ≠ 0)).map fun amount =>
    { patch with amount := some amount, direction := some (directionOf amount) }

def editedCurrency (value : Scalar) (patch : RowPatch) : Option RowPatch :=
  (value.text.filter fun s => s.toList.length = 3 ∧ s.toList.all Char.isAlpha).map fun s =>
    { patch with currency := some s.toUpper }

def editedCategory (value : Scalar) (patch : RowPatch) : Option RowPatch :=
  (value.text.filter P.isKnownCategory).map fun slug =>
    { patch with
      categorySlug := some slug
      categorySource := some .userManual
      categoryConfidence := some 1 }

def editedRecurring (value : Scalar) (patch : RowPatch) : Option RowPatch :=
  match value with
  | .boolean isRecurring => some { patch with isRecurring := some isRecurring }
  | _ => none

def editedDecision (value : Scalar) (patch : RowPatch) : Option RowPatch :=
  value.decision.map fun decision => { patch with decision := some decision }

def editPatch (current : StatementRowRecord) (input : EditStatementRowInput) :
    Except HttpError RowPatch := do
  let patch ← editField input.postedAt "postedAt must be YYYY-MM-DD." (editedPostedAt P) {}
  let patch ← editField input.description "description must be 1 through 500 characters."
    (editedDescription current) patch
  let patch ← editField input.merchant "merchant is too long." editedMerchant patch
  let patch ← editField input.amount "amount must be a non-zero minor-unit integer."
    editedAmount patch
  let patch ← editField input.currency "currency must be a 3-letter ISO code."
    editedCurrency patch
  let patch ← editField input.categorySlug "Unknown category." (editedCategory P) patch
  let patch ← editField input.isRecurring "isRecurring must be boolean." editedRecurring patch
  let patch ← editField input.decision "decision must be include, exclude, or needs_review."
    editedDecision patch
  .ok { patch with fingerprint := some (fingerprint P (patch.apply current)) }

def editRow (userId importId rowId : String) (input : EditStatementRowInput) (draw : Draw) :
    Service StatementRowRecord := do
  let current ← findRow userId importId rowId
  let patch ← Task.ofExcept (editPatch P current input)
  let updated ← call (.updateRow userId importId rowId patch draw.now)
  Task.ofExcept (orThrow updated (.notFound "Statement row is not editable."))

/-! ### Deciding -/

/-- The row ids of a request, if there are not too few and not too many. -/
def rowIdsOf (rowIds : Option (List Scalar)) (least most : Nat) : Option (List String) :=
  (rowIds.filter fun ids => least ≤ ids.length ∧ ids.length ≤ most).bind (·.mapM Scalar.text)

def decideRows (userId importId : String) (rowIds : Option (List Scalar))
    (decision : Option Scalar) (draw : Draw) : Service (List StatementRowRecord) := do
  let rowIds ← Task.ofExcept
    (orThrow (rowIdsOf rowIds 1 10000) (.badRequest "Provide one or more row ids."))
  Task.ofExcept
    (throwIf (rowIds.dedup.length ≠ rowIds.length)
      (.badRequest "rowIds must not contain duplicates."))
  let decision ← Task.ofExcept
    (orThrow (decision.bind Scalar.decision)
      (.badRequest "decision must be include, exclude, or needs_review."))
  let existing ← call (.rows userId importId)
  Task.ofExcept
    (throwIf (existing.rows = [] ∨ (∃ row ∈ existing.rows, row.importId ≠ importId) ∨
        ∃ id ∈ rowIds, id ∉ existing.rows.map StatementRowRecord.id)
      (.notFound "One or more statement rows were not found."))
  let updated ← call (.updateRowsDecision userId importId rowIds decision draw.now)
  Task.ofExcept (orThrow updated (.conflict "This statement is no longer awaiting row review."))

/-! ### Splitting and merging -/

structure SplitPart where
  amount : Option Scalar := none
  categorySlug : Option Scalar := none
  description : Option Scalar := none

def amountOf (row : StatementRowRecord) : Int := row.amount.getD 0

def withFingerprint (row : StatementRowRecord) : StatementRowRecord :=
  { row with fingerprint := fingerprint P row }

def splitPart (current : StatementRowRecord) (now : Instant) (index : Nat) (part : SplitPart)
    (amount : Int) : StatementRowRecord :=
  withFingerprint P { current with
    id := current.id ++ "_part_" ++ toString (index + 1)
    description :=
      match ((part.description.bind Scalar.text).map trim).filter (· ≠ "") with
      | some description => slice 500 description
      | none => current.description ++ " (" ++ toString (index + 1) ++ ")"
    amount := some amount
    categorySlug := ((part.categorySlug.bind Scalar.text).filter P.isKnownCategory).getD
      current.categorySlug
    categorySource := .userManual
    categoryConfidence := 1
    direction := directionOf amount
    decision := .include
    flags := ["split_child"]
    editedAt := some now
    fingerprint := "" }

/-- The rows of the parts, numbered from `index`. A part that is no object is missing. -/
def splitParts (current : StatementRowRecord) (now : Instant) (index : Nat) :
    List (Option SplitPart) → Except HttpError (List StatementRowRecord)
  | [] => .ok []
  | part :: parts => do
    let part ← orThrow part (.badRequest "Each split part must be an object.")
    let amount ← orThrow ((part.amount.bind Scalar.safeInteger).filter (· ≠ 0))
      (.badRequest "Split amounts must be non-zero minor-unit integers.")
    let rows ← splitParts current now (index + 1) parts
    .ok (splitPart P current now index part amount :: rows)

def planSplit (current : StatementRowRecord) (parts : Option (List (Option SplitPart)))
    (now : Instant) : Except HttpError (List StatementRowRecord) := do
  let parts ← orThrow (parts.filter fun parts =>
      2 ≤ parts.length ∧ parts.length ≤ 10 ∧ current.amount.isSome)
    (.badRequest "Provide between 2 and 10 parts for a valid transaction.")
  let rows ← splitParts P current now 0 parts
  let _ ← throwIf (some (rows.map amountOf).sum ≠ current.amount)
    (.badRequest "Split parts must add up exactly to the original amount.")
  .ok rows

def splitRow (userId importId rowId : String) (parts : Option (List (Option SplitPart)))
    (draw : Draw) : Service (List StatementRowRecord) := do
  let current ← findRow userId importId rowId
  let rows ← Task.ofExcept (planSplit P current parts draw.now)
  let reply ← call (.splitRow userId importId rowId rows draw.now)
  let updated ← settled reply
  Task.ofExcept (orThrow updated (.notFound "Statement row is not editable."))

/-- The row that stands for the wanted rows, of which `first` is one. -/
def mergedRow (first : StatementRowRecord) (wanted : List StatementRowRecord) (draw : Draw) :
    StatementRowRecord :=
  withFingerprint P { first with
    id := first.id ++ "_merged_" ++ draw.uuid
    description := slice 500 (" + ".intercalate (wanted.map (·.description)))
    amount := some (wanted.map amountOf).sum
    categorySource := .userManual
    categoryConfidence := 1
    flags := ["merged_row"]
    decision := .include
    editedAt := some draw.now
    fingerprint := "" }

def planMerge (rows : List StatementRowRecord) (rowIds : List String) (draw : Draw) :
    Except HttpError StatementRowRecord :=
  let wanted := rows.filter fun row => row.id ∈ rowIds
  match wanted with
  | [] => .error (.badRequest "All merge rows must exist and have amounts.")
  | first :: _ =>
    if wanted.length ≠ rowIds.length ∨ ∃ row ∈ wanted, row.amount = none then
      .error (.badRequest "All merge rows must exist and have amounts.")
    else .ok (mergedRow P first wanted draw)

def mergeRows (userId importId : String) (rowIds : Option (List Scalar)) (draw : Draw) :
    Service StatementRowRecord := do
  let rowIds ← Task.ofExcept
    (orThrow (rowIdsOf rowIds 2 10) (.badRequest "Provide between 2 and 10 row ids."))
  let read ← call (.rows userId importId)
  let merged ← Task.ofExcept (planMerge P read.rows rowIds draw)
  let reply ← call (.mergeRows userId importId rowIds merged draw.now)
  let result ← settled reply
  Task.ofExcept (orThrow result (.notFound "Statement rows are not editable."))

/-! ### Approving -/

/-- The row can be approved as it is. -/
def importable (row : StatementRowRecord) : Bool :=
  row.decision == .include && row.amount.isSome && row.postedAt.any (· ≠ "")

/-- The rows that would enter the ledger. -/
def approvable (status : StatementStatus) (rows : List StatementRowRecord) :
    Except HttpError (List StatementRowRecord) := do
  throwIf (status ≠ .ready) (.conflict "This statement is no longer awaiting approval.")
  throwIf (∃ row ∈ rows, row.decision = .needsReview)
    (.badRequest "Review or exclude every flagged row before approval.")
  let included := rows.filter importable
  throwIf (included = []) (.badRequest "There are no included transactions to approve.")
  .ok included

def providerTxnIdOf (row : StatementRowRecord) : String := "manual_" ++ row.fingerprint

def sameTransactionIdentity (transaction : Transaction) (row : StatementRowRecord) : Bool :=
  some transaction.postedAt == row.postedAt && some transaction.amount == row.amount &&
    transaction.currency == row.currency &&
    transaction.normalizedDescriptor == P.normalizeDescriptor row.description

/-- Nothing of the statement is in the account yet. -/
def checkNew (existing : List Transaction) (included : List StatementRowRecord) :
    Except HttpError Unit := do
  throwIf (∃ row ∈ included, providerTxnIdOf row ∈ existing.map (·.providerTxnId))
    (.conflict "One or more included rows already exist in this account. Exclude them to prevent a duplicate ledger entry.")
  throwIf (∃ row ∈ included, existing.any fun t => sameTransactionIdentity P t row)
    (.conflict "One or more included rows match an existing transaction in this account. Exclude them to prevent a duplicate ledger entry.")

def transactionOf (importId accountId batchId : String) (row : StatementRowRecord) : Transaction where
  id := "stmt_" ++ importId ++ "_" ++ row.id
  accountId
  providerTxnId := providerTxnIdOf row
  postedAt := row.postedAt.getD ""
  amount := amountOf row
  currency := row.currency
  rawDescriptor := row.description
  normalizedDescriptor := P.normalizeDescriptor row.description
  merchant := row.merchant
  categorySlug := row.categorySlug
  categorySource := row.categorySource
  categoryConfidence := row.categoryConfidence
  isRecurring := row.isRecurring
  pending := false
  importBatchId := some batchId

def batchOf (importId : String) (statement : StatementImport) (rows : List StatementRowRecord)
    (imported : Nat) (draw : Draw) : ImportBatch where
  id := draw.uuid
  accountId := statement.accountId
  statementImportId := some importId
  filename := statement.filename
  status := .committed
  rowsTotal := rows.length
  rowsImported := imported
  rowsDuplicate := rows.countP fun row => "possible_duplicate" ∈ row.flags
  rowsInvalid := rows.countP fun row => "extraction_error" ∈ row.flags
  createdAt := P.toISOString draw.now
  revertedAt := none

/-- The answer to what finalizing replied. -/
def approved (reply : StoreReply (Option StatementImport)) : Except HttpError StatementImport :=
  match reply with
  | .error "STATEMENT_DUPLICATE" =>
    .error (.conflict "One or more included rows already exist in this account. Exclude them to prevent a duplicate ledger entry.")
  | .error e => .error (.internal e)
  | .ok result => orThrow result (.conflict "This statement is no longer awaiting approval.")

def approve (userId importId : String) (draw : Draw) : Service StatementImport := do
  let found ← call (.get userId importId)
  let statement ← Task.ofExcept (orThrow found (.notFound "Statement import not found."))
  let read ← call (.rows userId importId)
  let included ← Task.ofExcept (approvable statement.status read.rows)
  let existing ← call (.listTransactions userId statement.accountId)
  let _ ← Task.ofExcept (checkNew P existing included)
  let transactions := included.map (transactionOf P importId statement.accountId draw.uuid)
  let batch := batchOf P importId statement read.rows transactions.length draw
  let reply ← call (.finalize userId importId batch transactions draw.now read.edits)
  Task.ofExcept (approved reply)

end Finverse.Statements
