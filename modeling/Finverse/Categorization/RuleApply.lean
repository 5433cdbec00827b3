import Finverse.Categorization.Corrections
import Finverse.Framework.Column
import Finverse.Ledger.PostgresStore

/-! A rule applied across a ledger, and its undo: the dry run, the services, and both stores. -/

namespace Finverse.Categorization

open Auth (includes jsLength trim)
open Ledger (CategorySource IsoDate Transaction TransactionRow chunk)

/-! ### The dry run -/

structure RuleChange where
  transactionId : String
  postedAt : IsoDate
  descriptor : String
  amount : Int
  currency : String
  fromCategorySlug : String
  fromCategorySource : CategorySource
  toCategorySlug : String
  deriving DecidableEq, Repr

structure RulePreview where
  changes : List RuleChange
  alreadyCorrect : Nat
  protectedByUserChoice : Nat
  matched : Nat
  matchesNothing : Bool
  deriving DecidableEq, Repr

def ruleChange (rule : CategorizationRule) (txn : Transaction) : RuleChange where
  transactionId := txn.id
  postedAt := txn.postedAt
  descriptor := txn.rawDescriptor
  amount := txn.amount
  currency := txn.currency
  fromCategorySlug := txn.categorySlug
  fromCategorySource := txn.categorySource
  toCategorySlug := rule.categorySlug

variable (X : TextContext)

/-- The dry run's own copy of the matcher. -/
def RulePreview.matches (rule : CategorizationRule) (normalized : String) : Bool :=
  match rule.matchType with
  | .exact => normalized == X.toLowerCase rule.pattern
  | .contains => includes normalized (X.toLowerCase rule.pattern)
  | .regex => (X.regexTest rule.pattern normalized).getD false

theorem RulePreview.matches_eq (rule : CategorizationRule) (normalized : String) :
    RulePreview.matches X rule normalized = matchesRule X rule normalized := rfl

/-- The loop over the transactions, at one of them. A category the user chose is counted but never
changed. -/
def RulePreview.count (rule : CategorizationRule) (preview : RulePreview) (txn : Transaction) :
    RulePreview :=
  if RulePreview.matches X rule txn.normalizedDescriptor = false then preview
  else
    let preview := { preview with matched := preview.matched + 1 }
    if txn.categorySource = .userManual then
      { preview with protectedByUserChoice := preview.protectedByUserChoice + 1 }
    else if txn.categorySlug = rule.categorySlug then
      { preview with alreadyCorrect := preview.alreadyCorrect + 1 }
    else { preview with changes := preview.changes ++ [ruleChange rule txn] }

/-- What applying the rule would do. -/
def previewRule (rule : CategorizationRule) (transactions : List Transaction) : RulePreview :=
  let preview := transactions.foldl (RulePreview.count X rule) ⟨[], 0, 0, 0, true⟩
  { preview with matchesNothing := preview.matched == 0 }

structure RulePatternCheck where
  ok : Bool
  problems : List String
  deriving DecidableEq, Repr

def MAX_PATTERN_LENGTH : Nat := 200

/-- Nested quantifiers. -/
def SLOW_PATTERN : String := "(\\([^)]*[+*]\\)[+*])|(\\[[^\\]]*\\][+*])\x7b2,\x7d"

def checkRulePattern (matchType pattern : String) : RulePatternCheck :=
  let trimmed := trim pattern
  let problems :=
    (if jsLength trimmed = 0 then ["Enter a pattern to match."] else []) ++
    (if jsLength trimmed > MAX_PATTERN_LENGTH then
      ["Patterns must be " ++ toString MAX_PATTERN_LENGTH ++ " characters or fewer."] else []) ++
    (if matchType ∈ ["contains", "exact", "regex"] then []
      else ["matchType must be contains, exact, or regex."]) ++
    (if matchType = "regex" ∧ jsLength trimmed > 0 then
      (if X.regexTest trimmed "" = none then ["That is not a valid regular expression."] else []) ++
      (if X.regexTest SLOW_PATTERN trimmed = some true then
        ["That pattern may be extremely slow on a large ledger. Prefer a simpler one."] else [])
      else [])
  ⟨problems.isEmpty, problems⟩

/-! ### The ports -/

def MatchType.name : MatchType → String
  | .exact => "exact"
  | .contains => "contains"
  | .regex => "regex"

/-- The before-state of a changed row. -/
structure RuleApplicationChange where
  transactionId : String
  previousCategorySlug : String
  previousCategorySource : CategorySource
  previousConfidence : Rat
  deriving DecidableEq, Repr

def RuleApplicationChange.previous (change : RuleApplicationChange) : CategoryPatch :=
  ⟨change.previousCategorySlug, change.previousCategorySource, change.previousConfidence⟩

structure RuleApplication where
  id : String
  pattern : String
  matchType : MatchType
  categorySlug : String
  rowsChanged : Nat
  createdAt : String
  revertedAt : Option String
  deriving DecidableEq, Repr

/-- The category an application gives. -/
def RuleApplication.patch (application : RuleApplication) : CategoryPatch :=
  ⟨application.categorySlug, .userRule, 1⟩

/-- The partial updates of a transaction that a category or a sync needs. -/
inductive TransactionPatch
  | category (patch : CategoryPatch)
  | recurring (isRecurring : Bool)
  deriving DecidableEq, Repr

def TransactionPatch.apply : TransactionPatch → Transaction → Transaction
  | .category patch, t => patch.apply t
  | .recurring isRecurring, t => { t with isRecurring }

/-- The stores of one user, as the services use them. Listings have the latest first. -/
structure Adapter (σ : Type) where
  transactions : σ → List Transaction
  update : String → TransactionPatch → σ → σ
  upsertMany : List Transaction → σ → σ
  removeByProviderIds : List String → σ → σ
  apply : RuleApplication → List RuleApplicationChange → σ →
    Except Sql.Violation RuleApplication × σ
  revert : String → String → σ → Option Nat × σ

/-! ### Applying a rule -/

structure RuleDraft where
  matchType : MatchType
  pattern : String
  categorySlug : String
  deriving DecidableEq, Repr

inductive RuleApplyError
  | rejected (message : String) (problems : List String)
  | nothingToChange (message : String) (matched alreadyCorrect protectedByUserChoice : Nat)
  | http (error : HttpError)
  | store (violation : Sql.Violation)
  deriving DecidableEq, Repr

namespace RuleApplyService

def MAX_BULK_CHANGES : Nat := 5000

def assertDraft (draft : RuleDraft) : Except RuleApplyError Unit := do
  let check := checkRulePattern X draft.matchType.name draft.pattern
  throwIf (check.ok = false) (.rejected "Rule rejected." check.problems)
  throwIf (X.isKnownCategory draft.categorySlug = false)
    (.http (.badRequest ("Unknown category \"" ++ draft.categorySlug ++ "\".")))

def toRule (draft : RuleDraft) : CategorizationRule where
  id := "preview"
  matchType := draft.matchType
  pattern := trim draft.pattern
  categorySlug := draft.categorySlug
  priority := 0

def preview (draft : RuleDraft) (transactions : List Transaction) :
    Except RuleApplyError RulePreview := do
  assertDraft X draft
  .ok (previewRule X (toRule draft) transactions)

/-- The confidence is recorded from the row itself. -/
def recordedChange (transactions : List Transaction) (change : RuleChange) :
    RuleApplicationChange where
  transactionId := change.transactionId
  previousCategorySlug := change.fromCategorySlug
  previousCategorySource := change.fromCategorySource
  previousConfidence :=
    ((transactions.find? (·.id = change.transactionId)).map (·.categoryConfidence)).getD 0

/-- What `apply` decides before it writes. -/
def plan (draft : RuleDraft) (transactions : List Transaction) :
    Except RuleApplyError (RulePreview × List RuleApplicationChange) := do
  let preview ← preview X draft transactions
  throwIf (preview.changes.length = 0)
    (.nothingToChange "That rule would change nothing." preview.matched preview.alreadyCorrect
      preview.protectedByUserChoice)
  throwIf (preview.changes.length > MAX_BULK_CHANGES)
    (.http (.badRequest ("That rule would change " ++ toString preview.changes.length ++
      " transactions, above the " ++ toString MAX_BULK_CHANGES ++ " limit. Narrow the pattern.")))
  .ok (preview, preview.changes.map (recordedChange transactions))

/-- The record of an application, under a random id. -/
def application (draft : RuleDraft) (id now : String) (changes : List RuleApplicationChange) :
    RuleApplication where
  id
  pattern := trim draft.pattern
  matchType := draft.matchType
  categorySlug := draft.categorySlug
  rowsChanged := changes.length
  createdAt := now
  revertedAt := none

variable {σ : Type} (A : Adapter σ)

def apply (draft : RuleDraft) (id now : String) (s : σ) :
    Except RuleApplyError (RuleApplication × RulePreview) × σ :=
  match plan X draft (TransactionStore.list X (A.transactions s)) with
  | .error e => (.error e, s)
  | .ok (preview, changes) =>
    match A.apply (application draft id now changes) changes s with
    | (.error violation, s) => (.error (.store violation), s)
    | (.ok saved, s) => (.ok (saved, preview), s)

def revert (id now : String) (s : σ) : Except HttpError Nat × σ :=
  match A.revert id now s with
  | (none, s) =>
    (.error (.notFound "No such rule application, or it has already been undone."), s)
  | (some restored, s) => (.ok restored, s)

end RuleApplyService

/-! ### What else gives a category -/

section Services

variable {σ : Type} (A : Adapter σ)

namespace LedgerService

/-- The backfill of a new rule, over the listed transactions. -/
def backfill (rule : CategorizationRule) (transactionId : String) (txns : List Transaction) (s : σ) :
    σ :=
  txns.foldl (fun s txn =>
    if txn.id = transactionId ∨ txn.categorySource = .userManual ∨
        ¬includes txn.normalizedDescriptor rule.pattern then s
    else A.update txn.id (.category ⟨rule.categorySlug, .userRule, 1⟩) s) s

/-- `recategorize`, on the transactions. -/
def recategorize (input : RecategorizeInput) (s : σ) : Except HttpError σ := do
  throwIf (X.isKnownCategory input.categorySlug = false)
    (.notFound ("Unknown category \"" ++ input.categorySlug ++ "\""))
  let existing ← orThrow (TransactionStore.get (A.transactions s) input.transactionId)
    (.notFound ("No transaction " ++ input.transactionId))
  let s := A.update input.transactionId (.category ⟨input.categorySlug, .userManual, 1⟩) s
  if input.createRule then
    let rule := ruleFromCorrection X existing.rawDescriptor input.categorySlug
      ("rule_" ++ toString input.now ++ "_" ++ lastSix existing.id)
    .ok (backfill A rule input.transactionId (TransactionStore.list X (A.transactions s)) s)
  else .ok s

end LedgerService

namespace BankingService

/-- One transaction of a detected pair. A category of the user's own is never touched. -/
def reconcileTransfer (id : String) (s : σ) : σ :=
  match TransactionStore.get (A.transactions s) id with
  | none => s
  | some txn =>
    if txn.keepsUserCategory ∨ txn.categorySlug = "transfer" then s
    else A.update id (.category ⟨"transfer", .transferPairing, 95 / 100⟩) s

/-- One transaction of the recurring pass. -/
def reconcileRecurring (id : String) (shouldBeRecurring : Bool) (s : σ) : σ :=
  match TransactionStore.get (A.transactions s) id with
  | none => s
  | some txn =>
    if txn.recurringOverride ≠ none ∨ txn.isRecurring = shouldBeRecurring then s
    else A.update id (.recurring shouldBeRecurring) s

end BankingService

end Services

end Finverse.Categorization
