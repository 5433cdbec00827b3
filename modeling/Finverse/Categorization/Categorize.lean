import Finverse.Categorization.Normalize
import Finverse.Framework.Ranking
import Finverse.Ledger.Types
import Mathlib.Algebra.Order.Floor.Defs
import Mathlib.Data.Rat.Floor

/-! The categorization pipeline: the user's rules, the merchant lexicon, the learner. -/

namespace Finverse.Categorization

open Auth (includes)
open Ledger (CategorySource)

/-- The order in which `localeCompare` puts strings. -/
structure Collation where
  le : String → String → Bool
  total : ∀ a b, le a b = true ∨ le b a = true
  trans : ∀ a b c, le a b = true → le b c = true → le a c = true

/-- What the runtime and the tables of the program decide. `regexTest` has no answer when the
pattern is malformed. -/
structure TextContext where
  toLowerCase : String → String
  regexTest : String → String → Option Bool
  collation : Collation
  isKnownCategory : String → Bool

inductive MatchType
  | exact
  | contains
  | regex
  deriving DecidableEq, Repr

structure CategorizationRule where
  id : String
  matchType : MatchType
  pattern : String
  categorySlug : String
  priority : Int
  deriving DecidableEq, Repr

structure LexiconEntry where
  «match» : String
  merchant : String
  categorySlug : String
  confidence : Rat
  deriving DecidableEq, Repr

structure ModelPrediction where
  categorySlug : String
  confidence : Rat
  reason : Option String
  deriving DecidableEq, Repr

/-- A category, and why it was chosen. -/
structure CategorizationResult extends Ledger.CategorizationResult where
  reason : String
  deriving DecidableEq, Repr

structure CategorizeOptions where
  rules : List CategorizationRule
  lexicon : List LexiconEntry
  model : Option (String → Option ModelPrediction)

def UNKNOWN_CATEGORY : String := "unknown"

/-- Below this, a model result is discarded in favour of `unknown`. -/
def MODEL_CONFIDENCE_FLOOR : Rat := 6 / 10

variable (X : TextContext)

def matchesRule (rule : CategorizationRule) (normalized : String) : Bool :=
  match rule.matchType with
  | .exact => normalized == X.toLowerCase rule.pattern
  | .contains => includes normalized (X.toLowerCase rule.pattern)
  | .regex => (X.regexTest rule.pattern normalized).getD false

/-- The rules that match, the most important first. -/
def matched (rules : List CategorizationRule) (normalized : String) : List CategorizationRule :=
  (rules.filter fun rule => matchesRule X rule normalized).insertionSort
    fun a b => a.priority ≤ b.priority

/-- `Math.round` -/
def round (x : Rat) : Int := ⌊x + 1 / 2⌋

/-- The tiers below the user's rules. -/
def categorizeByMerchant (lexicon : List LexiconEntry)
    (model : Option (String → Option ModelPrediction)) (normalized : String) :
    CategorizationResult :=
  match lexicon.find? fun entry => includes normalized entry.match with
  | some entry =>
    ⟨⟨entry.categorySlug, .lexicon, entry.confidence, some entry.merchant⟩,
      "Recognized \"" ++ entry.merchant ++ "\" from the merchant name."⟩
  | none =>
    match (model.bind fun classify => classify normalized).filter
        fun prediction => prediction.confidence ≥ MODEL_CONFIDENCE_FLOOR with
    | some prediction =>
      ⟨⟨prediction.categorySlug, .model, prediction.confidence, none⟩,
        prediction.reason.getD ("Predicted from similar transactions (" ++
          toString (round (prediction.confidence * 100)) ++ "% confident).")⟩
    | none =>
      ⟨⟨UNKNOWN_CATEGORY, .unknown, 0, none⟩,
        "No rule or known merchant matched. Categorize it and we will remember."⟩

def categorizeDescriptor (rawDescriptor : String) (options : CategorizeOptions) :
    CategorizationResult :=
  let normalized := normalizeDescriptor X.toLowerCase rawDescriptor
  match (matched X options.rules normalized).head? with
  | some winner =>
    ⟨⟨winner.categorySlug, .userRule, 1, none⟩,
      "Your rule \"" ++ winner.pattern ++ "\" matches this transaction."⟩
  | none => categorizeByMerchant options.lexicon options.model normalized

/-- The rule implied by a user correction. -/
def ruleFromCorrection (rawDescriptor categorySlug id : String) : CategorizationRule where
  id
  matchType := .contains
  pattern := normalizeDescriptor X.toLowerCase rawDescriptor
  categorySlug
  priority := 0

/-! ### The rules of one user -/

namespace InMemoryRuleStore

variable (rows : List CategorizationRule)

/-- By priority, ties broken by id. -/
def ruleOrder (a b : CategorizationRule) : Prop :=
  a.priority < b.priority ∨ a.priority = b.priority ∧ X.collation.le a.id b.id = true

instance : DecidableRel (ruleOrder X) := fun _ _ => inferInstanceAs (Decidable (_ ∨ _ ∧ _))

def list : List CategorizationRule := rows.insertionSort (ruleOrder X)

def create (rule : CategorizationRule) : List CategorizationRule :=
  Table.upsert CategorizationRule.id (fun _ new => new) rule rows

end InMemoryRuleStore

/-! ### The rule that decides -/

section Winner

variable {X} {rows : List CategorizationRule} {rule : CategorizationRule} {normalized : String}

instance : IsTrans CategorizationRule (InMemoryRuleStore.ruleOrder X) where
  trans a b c := by
    rintro (less | ⟨same, le⟩) (less' | ⟨same', le'⟩)
    · exact .inl (by omega)
    · exact .inl (by omega)
    · exact .inl (by omega)
    · exact .inr ⟨by omega, X.collation.trans _ _ _ le le'⟩

instance : Std.Total (InMemoryRuleStore.ruleOrder X) where
  total a b := by
    rcases lt_trichotomy a.priority b.priority with less | same | more
    · exact .inl (.inl less)
    · rcases X.collation.total a.id b.id with le | ge
      · exact .inl (.inr ⟨same, le⟩)
      · exact .inr (.inr ⟨same.symm, ge⟩)
    · exact .inr (.inl more)

/-- Rules in the order of the store are in the order of their priorities. -/
theorem matched_list :
    matched X (InMemoryRuleStore.list X rows) normalized =
      (InMemoryRuleStore.list X rows).filter fun rule => matchesRule X rule normalized := by
  have sorted : (InMemoryRuleStore.list X rows).Pairwise (InMemoryRuleStore.ruleOrder X) :=
    List.pairwise_insertionSort _ rows
  refine List.Pairwise.insertionSort_eq ((sorted.filter _).imp ?_)
  rintro a b (less | ⟨same, -⟩)
  · exact less.le
  · exact same.le

/-- The rule that decides matches, and comes before all others that do. -/
theorem winner_iff :
    (matched X (InMemoryRuleStore.list X rows) normalized).head? = some rule ↔
      Ranking.Foremost (InMemoryRuleStore.ruleOrder X) (fun rule => matchesRule X rule normalized)
        rows rule := by
  rw [matched_list, List.head?_filter]
  exact Ranking.find?_insertionSort_iff

end Winner

end Finverse.Categorization
