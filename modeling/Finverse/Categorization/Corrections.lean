import Finverse.Categorization.Categorize
import Finverse.Http
import Finverse.Ledger.MemoryStore
import Mathlib.Data.String.Basic

/-! Corrections by the user, and what is remembered of them. -/

namespace Finverse.Categorization

open Auth (includes takeUnits)
open Ledger (Transaction CategorySource)

/-! ### Transactions of one user -/

/-- The three columns of a category. -/
structure CategoryPatch where
  categorySlug : String
  categorySource : CategorySource
  categoryConfidence : Rat
  deriving DecidableEq, Repr

def CategoryPatch.apply (patch : CategoryPatch) (t : Transaction) : Transaction :=
  { t with
    categorySlug := patch.categorySlug
    categorySource := patch.categorySource
    categoryConfidence := patch.categoryConfidence }

namespace TransactionStore

variable (X : TextContext) (rows : List Transaction)

def get (id : String) : Option Transaction := Table.lookup Transaction.id id rows

/-- Changes the category of a transaction, if it is there. -/
def update (id : String) (patch : CategoryPatch) : List Transaction :=
  Table.modify Transaction.id id patch.apply rows

/-- The latest first. -/
def listOrder (a b : Transaction) : Prop :=
  X.collation.le b.postedAt a.postedAt = true ∧
    (X.collation.le a.postedAt b.postedAt = true → X.collation.le b.id a.id = true)

instance : DecidableRel (listOrder X) := fun _ _ => inferInstanceAs (Decidable (_ ∧ (_ → _)))

def list : List Transaction := rows.insertionSort (listOrder X)

end TransactionStore

/-! ### Recategorizing -/

/-- One user's transactions and rules. -/
structure Workspace where
  transactions : List Transaction
  rules : List CategorizationRule

structure RecategorizeInput where
  transactionId : String
  categorySlug : String
  createRule : Bool
  now : Nat

structure Recategorized where
  transaction : Transaction
  alsoUpdated : Nat

/-- `slice(-6)` -/
def lastSix (id : String) : String := String.ofList (takeUnits 6 id.toList.reverse).reverse

variable (X : TextContext)

/-- The rule goes through the rest of the ledger, but never overrides an explicit choice. -/
def reapply (rule : CategorizationRule) (transactionId : String) :
    List Transaction → List Transaction → Nat × List Transaction
  | [], rows => (0, rows)
  | txn :: txns, rows =>
    if txn.id = transactionId ∨ txn.categorySource = .userManual ∨
        ¬includes txn.normalizedDescriptor rule.pattern then
      reapply rule transactionId txns rows
    else
      let (updated, rows) := reapply rule transactionId txns
        (TransactionStore.update rows txn.id ⟨rule.categorySlug, .userRule, 1⟩)
      (updated + 1, rows)

def recategorize (w : Workspace) (input : RecategorizeInput) :
    Except HttpError (Recategorized × Workspace) := do
  throwIf (X.isKnownCategory input.categorySlug = false)
    (.notFound ("Unknown category \"" ++ input.categorySlug ++ "\""))
  let existing ← orThrow (TransactionStore.get w.transactions input.transactionId)
    (.notFound ("No transaction " ++ input.transactionId))
  let patch : CategoryPatch := ⟨input.categorySlug, .userManual, 1⟩
  let transactions := TransactionStore.update w.transactions input.transactionId patch
  if input.createRule then
    let rule := ruleFromCorrection X existing.rawDescriptor input.categorySlug
      ("rule_" ++ toString input.now ++ "_" ++ lastSix existing.id)
    let rules := InMemoryRuleStore.create w.rules rule
    let (alsoUpdated, transactions) := reapply rule input.transactionId
      (TransactionStore.list X transactions) transactions
    .ok (⟨patch.apply existing, alsoUpdated⟩, ⟨transactions, rules⟩)
  else .ok (⟨patch.apply existing, 0⟩, { w with transactions })

/-! ### A history of corrections -/

/-- A descriptor and the category the user gave it. -/
structure Correction where
  rawDescriptor : String
  categorySlug : String
  deriving DecidableEq, Repr

def Correction.form (correction : Correction) : String :=
  normalizeDescriptor X.toLowerCase correction.rawDescriptor

/-- The corrections that succeed, in order, and what they leave. -/
def correct (w : Workspace) : List RecategorizeInput → List Correction × Workspace
  | [] => ([], w)
  | input :: inputs =>
    match recategorize X w input with
    | .error _ => correct w inputs
    | .ok (result, w) =>
      let (corrections, w) := correct w inputs
      (⟨result.transaction.rawDescriptor, result.transaction.categorySlug⟩ :: corrections, w)

/-- The category a form was given last. -/
def lastCategory (corrections : List Correction) (form : String) : Option String :=
  (corrections.filter fun correction => correction.form X = form).getLast?.map (·.categorySlug)

/-- Every descriptor is categorized as its form was corrected last. -/
def Remembered (w : Workspace) (inputs : List RecategorizeInput) : Prop :=
  ∀ rawDescriptor categorySlug lexicon model,
    lastCategory X (correct X w inputs).1 (normalizeDescriptor X.toLowerCase rawDescriptor) =
        some categorySlug →
      (categorizeDescriptor X rawDescriptor
        ⟨InMemoryRuleStore.list X (correct X w inputs).2.rules, lexicon, model⟩).categorySlug =
          categorySlug

/-- Of the rules that match a corrected form, the one with the least priority and id has the
category of the last correction. -/
def OldestAgrees (w : Workspace) (inputs : List RecategorizeInput) : Prop :=
  ∀ form categorySlug, lastCategory X (correct X w inputs).1 form = some categorySlug →
    ∃ rule, Ranking.Foremost (InMemoryRuleStore.ruleOrder X) (fun rule => matchesRule X rule form)
      (correct X w inputs).2.rules rule ∧ rule.categorySlug = categorySlug

section Remembered

variable {X} {rows : List CategorizationRule} {rule : CategorizationRule}
  {rawDescriptor categorySlug : String}

theorem includes_self (s : String) : includes s s = true := by simp [includes]

/-- The last correction of a form is one of that form. -/
theorem form_of_lastCategory {corrections : List Correction} {form : String}
    (last : lastCategory X corrections form = some categorySlug) :
    ∃ rawDescriptor, normalizeDescriptor X.toLowerCase rawDescriptor = form := by
  obtain ⟨correction, latest, -⟩ := Option.map_eq_some_iff.mp last
  have stored := (List.mem_filter.mp (List.mem_of_getLast? latest)).2
  exact ⟨correction.rawDescriptor, of_decide_eq_true stored⟩

/-- The rules alone decide on a category when the one that matches first has it. -/
theorem decided_iff :
    (∀ lexicon model, (categorizeDescriptor X rawDescriptor
        ⟨InMemoryRuleStore.list X rows, lexicon, model⟩).categorySlug = categorySlug) ↔
      ∃ rule, Ranking.Foremost (InMemoryRuleStore.ruleOrder X)
        (fun rule => matchesRule X rule (normalizeDescriptor X.toLowerCase rawDescriptor)) rows
        rule ∧ rule.categorySlug = categorySlug := by
  simp only [← winner_iff, categorizeDescriptor]
  cases (matched X (InMemoryRuleStore.list X rows)
      (normalizeDescriptor X.toLowerCase rawDescriptor)).head? with
  | some winner =>
    constructor
    · exact fun always => ⟨winner, rfl, always [] none⟩
    · rintro ⟨rule, same, decides⟩ lexicon model
      obtain rfl := Option.some.inj same
      exact decides
  | none =>
    constructor
    · intro always
      -- Without a rule a lexicon that knows the merchant decides otherwise.
      let entry : LexiconEntry :=
        ⟨normalizeDescriptor X.toLowerCase rawDescriptor, "", categorySlug ++ "'", 1⟩
      have other := always [entry] none
      simp [categorizeByMerchant, entry, includes_self] at other
    · rintro ⟨rule, missing, -⟩
      cases missing

end Remembered

/-! ### A correction of a correction -/

def ascii : TextContext where
  toLowerCase := String.toLower
  regexTest := fun _ _ => none
  collation.le a b := decide (a ≤ b)
  collation.total a b := by simpa using le_total a b
  collation.trans a b c := by simpa using le_trans
  isKnownCategory := fun slug => slug ∈ ["coffee", "restaurants"]

def cafe : Transaction where
  id := "txn_checking_p00001"
  accountId := "checking"
  providerTxnId := "p00001"
  postedAt := "2026-05-30"
  amount := -450
  currency := "USD"
  rawDescriptor := "PP*CAFE"
  normalizedDescriptor := "cafe"
  categorySlug := "unknown"
  categorySource := .unknown
  categoryConfidence := 0
  isRecurring := false
  pending := false

/-- The user first takes the shop for a restaurant, and a minute later for a coffee bar. -/
def changeOfMind : List RecategorizeInput :=
  [⟨"txn_checking_p00001", "restaurants", true, 1780000000000⟩,
    ⟨"txn_checking_p00001", "coffee", true, 1780000060000⟩]

end Finverse.Categorization
