import Finverse.Analytics.Ports

/-! The analytics request, and the requests that change a ledger. -/

namespace Finverse.Analytics

open Interleave Ledger
open Auth (includes jsLength trim)
open Banking (SyncCounts)
open Categorization (CategorizationRule RecategorizeInput RuleDraft ruleFromCorrection lastSix)
open Imports (CommitInput)
open Statements (Scalar StatementRowRecord)

inductive ServiceError
  | http (error : HttpError)
  | importing (error : Imports.ImportError)
  | ruling (error : Categorization.RuleApplyError)
  deriving DecidableEq, Repr

variable {Report : Type}

abbrev Service (Report α : Type) : Type := Task (ports Report) ServiceError α

def call (c : Call Report) : Service Report c.Reply := Task.call (I := ports Report) c

def check {α : Type} (x : Except HttpError α) : Service Report α :=
  Task.ofExcept (I := ports Report) (x.mapError .http)

variable (K : Context Report)

/-! ### Analytics -/

def startOfMonth (date : IsoDate) : IsoDate := String.ofList (date.toList.take 7) ++ "-01"

def monthToDateRange (today : IsoDate) : DateRange := ⟨startOfMonth today, today⟩

def analyticsRange (period : Period) (today : IsoDate) : Except HttpError DateRange :=
  match period with
  | .week => .ok ⟨K.addDays today (-6), today⟩
  | .threeMonths => .ok ⟨K.addDays today (-89), today⟩
  | .sixMonths => .ok ⟨K.addDays today (-179), today⟩
  | .year => .ok ⟨K.addDays today (-364), today⟩
  | .month => .ok (monthToDateRange today)
  | .custom | .lifetime => .error (.internal "A custom analytics range must be supplied.")

def lifetimeRange (transactions : List Transaction) (today : IsoDate) : DateRange :=
  let dates := (transactions.map (·.postedAt)).filter (· ≤ today)
  ⟨(dates.insertionSort (· ≤ ·)).head?.getD today, today⟩

/-- The report that a key stands for, of the transactions listed. -/
def reportOf (key : CacheKey) (transactions : List Transaction) : Except HttpError Report := do
  let range ← match key.customRange with
    | some range => .ok range
    | none =>
      if key.period = .lifetime then .ok (lifetimeRange transactions key.today)
      else analyticsRange K key.period key.today
  .ok (K.computeAnalytics transactions range key.currency key.today)

def analytics (userId : String) (period : Period) (asOf : Option IsoDate)
    (customRange : Option DateRange) (currency : String) : Service Report Report := do
  let found ← call (.lookup userId period asOf customRange currency)
  match found.cached with
  | some report => pure report
  | none => do
    let transactions ← call (.list userId)
    let report ← check (reportOf K found.key transactions)
    -- The ledger may have changed since it was listed.
    let _ ← call (.storeAnalyticsCache found.key report found.now)
    pure report

/-! ### What several of them do -/

/-- Updates one transaction after another. The answer is the ids of those that were there. -/
def updateAll (userId : String) : List (String × TransactionPatch) → Service Report (List String)
  | [] => pure []
  | (id, patch) :: patches => do
    let updated ← call (.update userId id patch)
    let ids ← updateAll userId patches
    pure (if updated.isSome then id :: ids else ids)

def categoryPatch (categorySlug : String) (source : CategorySource) (confidence : Rat) :
    TransactionPatch :=
  { category := some (categorySlug, source, confidence) }

/-- The flags that are not what they should be. The user's own are left alone. -/
def recurringPatches (shouldBeRecurring : Transaction → Bool) (rows : List Transaction) :
    List (String × TransactionPatch) :=
  (rows.filter fun row => row.recurringOverride.isNone && row.isRecurring != shouldBeRecurring row).map
    fun row => (row.id, { isRecurring := some (shouldBeRecurring row) })

/-- Both sides of each transfer among the rows, but for those of a category that the user chose. -/
def transferPatches (rows : List Transaction) : List (String × TransactionPatch) :=
  ((K.internalTransferIds rows).filter fun id =>
    (Table.lookup Transaction.id id rows).any fun row =>
      !row.keepsUserCategory && row.categorySlug != "transfer").map
        fun id => (id, categoryPatch "transfer" .transferPairing (95 / 100))

def isWithin (range : DateRange) (row : Transaction) : Bool :=
  range.start ≤ row.postedAt && row.postedAt ≤ range.end_

def categorizer (rules : List CategorizationRule) (history : List Transaction) : Categorizer where
  normalizeDescriptor := Categorization.normalizeDescriptor K.imports.text.toLowerCase
  categorizeDescriptor := fun descriptor =>
    (Categorization.categorizeDescriptor K.imports.text descriptor
      ⟨rules, K.imports.lexicon, some (K.correctionModel history)⟩).toCategorizationResult

def publish (type : FinanceEventType) (userId : String) : Service Report Unit :=
  call (.publish ⟨type, userId⟩)

/-- What a synchronization tells, whichever it was. -/
def publishSync (userId : String) (inserted changed : Nat) : Service Report Unit := do
  publish .bankSyncCompleted userId
  if 0 < inserted then publish .transactionImported userId
  if 0 < changed then publish .transactionUpdated userId

/-! ### Synchronizing -/

def sync (userId linkId : String) : Service Report Unit := do
  let aggregated ← call (.aggregate userId linkId)
  let raw ← check (aggregated.mapError .internal)
  let rules ← call (.rules userId)
  let historicalTransactions ← call (.list userId)
  let mapped := raw.map (mapTransaction (categorizer K rules historicalTransactions))
  let counts ← call (.upsertMany userId mapped)
  -- Recurrence is a property of the series, so the whole ledger is read again.
  let stored ← call (.list userId)
  let recurring := (K.detectSubscriptions stored).map (·.normalizedDescriptor)
  let _ ← updateAll userId
    (recurringPatches (fun row => recurring.contains row.normalizedDescriptor) stored)
  publishSync userId counts.inserted counts.updated

/-- The pages of a cycle, from the cursor on. -/
def pages (userId : String) (C : Categorizer) (restart : Service Report (SyncCounts × Option String)) :
    Nat → Option String → SyncCounts → Service Report (SyncCounts × Option String)
  | 0, cursor, counts => pure (counts, cursor)
  | left + 1, cursor, counts => do
    match ← call (.page cursor) with
    | .error .mutationDuringPagination => restart
    | .error (.other code) => throw (.http (.internal code))
    | .ok page => do
      let raw := page.added ++ page.modified
      let mapped := raw.map (mapTransaction C)
      let result ← call (.upsertMany userId mapped)
      let removed ← call (.removeByProviderIds userId page.removedProviderTxnIds)
      let counts : SyncCounts :=
        { fetched := counts.fetched + raw.length
          inserted := counts.inserted + result.inserted
          updated := counts.updated + result.updated
          removed := counts.removed + removed
          categorized := counts.categorized + mapped.countP (·.categorySlug ≠ "unknown") }
      if page.hasMore = false then pure (counts, some page.nextCursor)
      else if left = 0 then throw (.http (.internal "Plaid sync exceeded 100 pages."))
      else pages userId C restart left (some page.nextCursor) counts

/-- A cycle is started again when the pages change under it, but not for ever. -/
def cycle (userId : String) (C : Categorizer) (startingCursor : Option String) :
    Nat → Service Report (SyncCounts × Option String)
  | 0 => pages userId C
      (throw (.http (.internal "TRANSACTIONS_SYNC_MUTATION_DURING_PAGINATION"))) 100 startingCursor .zero
  | retries + 1 => pages userId C (cycle userId C startingCursor retries) 100 startingCursor .zero

def pull (userId linkId : String) (today : IsoDate) (startingCursor : Option String) :
    Service Report Unit := do
  let rules ← call (.rules userId)
  let historicalTransactions ← call (.list userId)
  let (counts, cursor) ←
    cycle userId (categorizer K rules historicalTransactions) startingCursor 3
  let _ ← call (.linkHealthy userId linkId cursor)
  let rows ← call (.list userId)
  let recent := rows.filter (isWithin ⟨K.addDays today (-45), today⟩)
  let _ ← updateAll userId (transferPatches K recent)
  let rows ← call (.list userId)
  let recurring := (K.detectSubscriptions rows).flatMap (·.transactionIds)
  let _ ← updateAll userId (recurringPatches (fun row => recurring.contains row.id) rows)
  publishSync userId counts.inserted (counts.updated + counts.removed)

def syncLink (userId linkId : String) (today : IsoDate) : Service Report Unit := do
  let started ← call (.startSync userId linkId)
  let cursor ← check started
  tryCatch (pull K userId linkId today cursor) fun _ => do
    let _ ← call (.linkFailed userId linkId)
    throw (.http (.unavailable "Bank synchronization failed."))

/-! ### Corrections and preferences -/

/-- The transactions that a new rule goes through, but for those of a category that the user chose. -/
def reapplied (rule : CategorizationRule) (transactionId : String) (rows : List Transaction) :
    List (String × TransactionPatch) :=
  (rows.filter fun row => row.id != transactionId && row.categorySource != .userManual &&
    includes row.normalizedDescriptor rule.pattern).map
      fun row => (row.id, categoryPatch rule.categorySlug .userRule 1)

def recategorize (userId : String) (input : RecategorizeInput) : Service Report Unit := do
  let _ ← check (throwIf (K.imports.text.isKnownCategory input.categorySlug = false)
    (.notFound ("Unknown category \"" ++ input.categorySlug ++ "\"")))
  let found ← call (.get userId input.transactionId)
  let existing ← check (orThrow found (.notFound ("No transaction " ++ input.transactionId)))
  let _ ← call (.update userId input.transactionId (categoryPatch input.categorySlug .userManual 1))
  if input.createRule then do
    let rule := ruleFromCorrection K.imports.text existing.rawDescriptor input.categorySlug
      ("rule_" ++ toString input.now ++ "_" ++ lastSix existing.id)
    let _ ← call (.createRule userId rule)
    let rows ← call (.list userId)
    let _ ← updateAll userId (reapplied rule input.transactionId rows)
  publish .transactionCategorized userId

/-- A text of the user's own: an empty one clears it. -/
def textOf (key : String) (limit : Nat) (value : Scalar) : Except HttpError (Option String) := do
  let text ← match value with
    | .string text => .ok (trim text)
    | .null => .ok ""
    | _ => .error (.badRequest (key ++ " must be text"))
  throwIf (limit < jsLength text)
    (.badRequest (key ++ " must be at most " ++ toString limit ++ " characters"))
  .ok (if text = "" then none else some text)

def boolOf (key : String) (value : Scalar) : Except HttpError Bool :=
  match value with
  | .boolean b => .ok b
  | _ => .error (.badRequest (key ++ " must be a boolean"))

/-- One entry of the body. Others than these are left aside. -/
def preference (next : TransactionPatch) (key : String) (value : Scalar) :
    Except HttpError TransactionPatch :=
  match key with
  | "merchantOverride" => do
    let text ← textOf key 120 value
    .ok { next with merchantOverride := some text }
  | "note" => do
    let text ← textOf key 2000 value
    .ok { next with note := some text }
  | "excludedFromAnalytics" => do
    let excluded ← boolOf key value
    .ok { next with excludedFromAnalytics := some excluded }
  | "isRecurring" => do
    let recurring ← boolOf key value
    .ok { next with isRecurring := some recurring, recurringOverride := some recurring }
  | "duplicateReported" => do
    let reported ← boolOf key value
    .ok { next with duplicateReported := some reported }
  | _ => .ok next

def updatePreferences (userId transactionId : String) (patch : List (String × Scalar)) :
    Service Report Unit := do
  let missing : HttpError := .notFound ("No transaction " ++ transactionId)
  let found ← call (.get userId transactionId)
  let _ ← check (orThrow found missing)
  let next ← check (patch.foldlM (fun next entry => preference next entry.1 entry.2) {})
  let updated ← call (.update userId transactionId next)
  let _ ← check (orThrow updated missing)
  publish .transactionUpdated userId

/-! ### Imports and rules -/

def commitImport (userId : String) (input : CommitInput) (draw : Imports.Draw) :
    Service Report Unit := do
  let found ← call (.account userId input.accountId)
  let (account, parsed) ← Task.ofExcept (I := ports Report)
    ((Imports.ImportsService.openFile found.toList input).mapError .importing)
  let existing ← call (.list userId)
  let review := Imports.ImportsService.reviewFile K.imports account input.mapping parsed existing
  if review.rows.all (·.decision ≠ .importRow) then
    throw (.http (.badRequest "Nothing in this file is importable."))
  else do
    let rules ← call (.rules userId)
    let X := Imports.ImportsService.importContext K.imports rules draw
    let _ ← call (.commitBatch userId (Ledger.ImportsService.batch X account input.filename review.rows)
      (Ledger.ImportsService.transactions X account review.rows))

def revertImport (userId id now : String) : Service Report Unit := do
  let removed ← call (.revertBatch userId id now)
  let _ ← check (orThrow removed (.notFound "No such import, or it has already been undone."))

def applyRule (userId : String) (draft : RuleDraft) (id now : String) : Service Report Unit := do
  let transactions ← call (.list userId)
  let (_, changes) ← Task.ofExcept (I := ports Report)
    ((Categorization.RuleApplyService.plan K.imports.text draft transactions).mapError .ruling)
  let _ ← call (.applyRule userId
    (Categorization.RuleApplyService.application draft id now changes) changes)

def revertRule (userId id now : String) : Service Report Unit := do
  let restored ← call (.revertRule userId id now)
  let _ ← check
    (orThrow restored (.notFound "No such rule application, or it has already been undone."))

/-! ### Statements -/

/-- The rows of other accounts that the approved ones make transfers of. -/
def reconcileInternalTransfers (userId : String) (importedRows : List StatementRowRecord) :
    Service Report Unit := do
  let dates := (importedRows.filterMap (·.postedAt)).insertionSort (· ≤ ·)
  match dates.head?, dates.getLast? with
  | some first, some last => do
    let rows ← call (.list userId)
    let recent := rows.filter (isWithin ⟨K.addDays first (-3), K.addDays last 3⟩)
    let categorized ← updateAll userId (transferPatches K recent)
    if categorized ≠ [] then publish .transactionCategorized userId
  | _, _ => pure ()

/-- A rule for each category that the user chose. The ids are random. -/
def createRules (userId : String) : List (StatementRowRecord × String) → Service Report Unit
  | [] => pure ()
  | (row, id) :: rows => do
    let _ ← call (.createRule userId
      (ruleFromCorrection K.imports.text row.description row.categorySlug id))
    createRules userId rows

def approve (userId importId : String) (draw : Statements.Draw) (ruleIds : Nat → String) :
    Service Report Unit := do
  let P := K.statements
  let found ← call (.statements (.get userId importId))
  let statement ← check (orThrow found (.notFound "Statement import not found."))
  let read ← call (.statements (.rows userId importId))
  let included ← check (Statements.approvable statement.status read.rows)
  let existing ← call (.statements (.listTransactions userId statement.accountId))
  let _ ← check (Statements.checkNew P existing included)
  let transactions := included.map (Statements.transactionOf P importId statement.accountId draw.uuid)
  let batch := Statements.batchOf P importId statement read.rows transactions.length draw
  let reply ← call (.statements (.finalize userId importId batch transactions draw.now read.edits))
  let _ ← check (Statements.approved reply)
  publish .transactionImported userId
  reconcileInternalTransfers K userId included
  createRules K userId ((included.filter (·.categorySource = .userManual)).zipIdx.map fun (row, n) =>
    (row, ruleIds n))

/-! ### The system -/

inductive Request
  | analytics (userId : String) (period : Period) (asOf : Option IsoDate)
      (customRange : Option DateRange) (currency : String)
  | sync (userId linkId : String)
  | syncLink (userId linkId : String) (today : IsoDate)
  | recategorize (userId : String) (input : RecategorizeInput)
  | updatePreferences (userId transactionId : String) (patch : List (String × Scalar))
  | commitImport (userId : String) (input : CommitInput) (draw : Imports.Draw)
  | revertImport (userId id now : String)
  | applyRule (userId : String) (draft : RuleDraft) (id now : String)
  | revertRule (userId id now : String)
  | approve (userId importId : String) (draw : Statements.Draw) (ruleIds : Nat → String)

def Request.userId : Request → String
  | .analytics userId _ _ _ _ | .sync userId _ | .syncLink userId _ _ | .recategorize userId _
  | .updatePreferences userId _ _ | .commitImport userId _ _ | .revertImport userId _ _
  | .applyRule userId _ _ _ | .revertRule userId _ _ | .approve userId _ _ _ => userId

/-- The requests that tell of what they change. -/
def Request.tells : Request → Bool
  | .sync .. | .syncLink .. | .recategorize .. | .updatePreferences .. | .approve .. => true
  | _ => false

def handle : Request → Service Report (Option Report)
  | .analytics userId period asOf customRange currency =>
    some <$> analytics K userId period asOf customRange currency
  | .sync userId linkId => (fun _ => none) <$> sync K userId linkId
  | .syncLink userId linkId today => (fun _ => none) <$> syncLink K userId linkId today
  | .recategorize userId input => (fun _ => none) <$> recategorize K userId input
  | .updatePreferences userId transactionId patch =>
    (fun _ => none) <$> updatePreferences userId transactionId patch
  | .commitImport userId input draw => (fun _ => none) <$> commitImport K userId input draw
  | .revertImport userId id now => (fun _ => none) <$> revertImport userId id now
  | .applyRule userId draft id now => (fun _ => none) <$> applyRule K userId draft id now
  | .revertRule userId id now => (fun _ => none) <$> revertRule userId id now
  | .approve userId importId draw ruleIds =>
    (fun _ => none) <$> approve K userId importId draw ruleIds

def system : System (ports Report) Env (World Report) Request (Except ServiceError (Option Report)) where
  machine := machine K
  serve := fun _ r => (handle K r).run

end Finverse.Analytics
