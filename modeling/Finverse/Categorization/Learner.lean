import Finverse.Categorization.Corrections
import Finverse.Framework.OrderedMap
import Finverse.Transactions.Refunds

/-! The local learner: the nearest corrections of a user, and the corrections that it repeats. -/

namespace Finverse.Categorization

open Ledger (Transaction)
open Transactions (descriptorTokens tokenSet)

/-! ### Floating-point numbers -/

/-- How the result of an operation is rounded. -/
structure Rounding where
  round : Rat → Rat
  mono : ∀ a b, a ≤ b → round a ≤ round b
  zero : round 0 = 0
  margin : 0 < round (3 / 20)

/-! ### Training -/

def MAX_CORRECTIONS : Nat := 300

def MIN_SHARED_TOKENS_FOR_FUZZY_MATCH : Nat := 3

def MIN_SMALLER_SET_OVERLAP : Rat := 4 / 5

def MIN_JACCARD_FOR_FUZZY_MATCH : Rat := 13 / 20

def MIN_CATEGORY_MARGIN : Rat := 3 / 20

structure CorrectionExample where
  normalizedDescriptor : String
  categorySlug : String
  tokens : List String
  deriving DecidableEq, Repr

section Training

variable (toLowerCase : String → String)

def isCorrection (t : Transaction) : Bool := t.categorySource == .userManual

def learnedDescriptor (t : Transaction) : String :=
  if t.normalizedDescriptor = "" then normalizeDescriptor toLowerCase t.rawDescriptor
  else t.normalizedDescriptor

/-- The first loop of `fromTransactions`. -/
def addCategory (categories : OrdMap String (List String)) (t : Transaction) :
    OrdMap String (List String) :=
  let normalized := learnedDescriptor toLowerCase t
  if !isCorrection t || descriptorTokens normalized = [] then categories
  else categories.set normalized (((categories.get? normalized).getD []).insert t.categorySlug)

def categoriesByDescriptor (transactions : List Transaction) : OrdMap String (List String) :=
  transactions.foldl (addCategory toLowerCase) ∅

def exampleOf (t : Transaction) : CorrectionExample :=
  let normalized := learnedDescriptor toLowerCase t
  ⟨normalized, t.categorySlug, tokenSet normalized⟩

/-- A correction is left out when it conflicts with another, when nothing is left of its descriptor,
and when its descriptor is there already. -/
def skips (categories : OrdMap String (List String)) (examples : List CorrectionExample)
    (t : Transaction) : Bool :=
  let normalized := learnedDescriptor toLowerCase t
  !isCorrection t || ((categories.get? normalized).getD []).length != 1 ||
    descriptorTokens normalized = [] || examples.any fun e => e.normalizedDescriptor = normalized

/-- The second loop, which stops at the bound. -/
def addExamples (categories : OrdMap String (List String)) :
    List CorrectionExample → List Transaction → List CorrectionExample
  | examples, [] => examples
  | examples, t :: transactions =>
    if skips toLowerCase categories examples t then addExamples categories examples transactions
    else if examples.length + 1 = MAX_CORRECTIONS then examples ++ [exampleOf toLowerCase t]
    else addExamples categories (examples ++ [exampleOf toLowerCase t]) transactions

def fromTransactions (transactions : List Transaction) : List CorrectionExample :=
  addExamples toLowerCase (categoriesByDescriptor toLowerCase transactions) [] transactions

end Training

/-! ### Classifying -/

structure ScoredExample extends CorrectionExample where
  score : Rat
  exact : Bool
  deriving DecidableEq, Repr

section Classifying

variable (R : Rounding)

/-- How alike two sets of tokens are, if they are enough so. -/
def fuzzyScore (tokens exampleTokens : List String) : Option Rat :=
  let shared := (tokens.filter (· ∈ exampleTokens)).length
  let smallerSetOverlap := R.round ((shared : Rat) / (min tokens.length exampleTokens.length : Nat))
  let jaccard := R.round ((shared : Rat) / (tokens.length + exampleTokens.length - shared : Nat))
  if shared < MIN_SHARED_TOKENS_FOR_FUZZY_MATCH ∨
      smallerSetOverlap < R.round MIN_SMALLER_SET_OVERLAP ∨
      jaccard < R.round MIN_JACCARD_FOR_FUZZY_MATCH then none
  else
    some (R.round (R.round (R.round (13 / 20) * jaccard) + R.round (R.round (7 / 20) * smallerSetOverlap)))

def scoreExample (normalized : String) (example_ : CorrectionExample) : Option ScoredExample :=
  if example_.normalizedDescriptor = normalized then some { example_ with score := 1, exact := true }
  else
    (fuzzyScore R (tokenSet normalized) example_.tokens).map fun score =>
      { example_ with score, exact := false }

/-- The difference of two scores is below the margin. -/
def tooClose (best other : Rat) : Prop := R.round (best - other) < R.round MIN_CATEGORY_MARGIN

instance (best other : Rat) : Decidable (tooClose R best other) :=
  inferInstanceAs (Decidable (_ < _))

def predictionOf (best : ScoredExample) : ModelPrediction where
  categorySlug := best.categorySlug
  confidence :=
    if best.exact then R.round (49 / 50)
    else min (R.round (47 / 50)) (R.round (R.round (3 / 5) + R.round (best.score * R.round (17 / 50))))
  reason :=
    if best.exact then some "Matches your earlier correction for this merchant."
    else some "Matches a very similar merchant you categorised earlier."

/-- The descriptor is normalized once more. -/
def classify (toLowerCase : String → String) (examples : List CorrectionExample)
    (normalizedDescriptor : String) : Option ModelPrediction :=
  let normalized := normalizeDescriptor toLowerCase normalizedDescriptor
  if tokenSet normalized = [] ∨ examples = [] then none
  else
    let candidates := Ranking.ranked ScoredExample.score (examples.filterMap (scoreExample R normalized))
    match candidates.head? with
    | none => none
    | some best =>
      match candidates.find? fun candidate => candidate.categorySlug ≠ best.categorySlug with
      | none => some (predictionOf R best)
      | some runnerUp => if tooClose R best.score runnerUp.score then none else some (predictionOf R best)

end Classifying

/-! ### What is learned -/

/-- The corrections are of at most 300 descriptors, of each of which something is left and which have
one category each. -/
structure Trainable (toLowerCase : String → String) (transactions : List Transaction) : Prop where
  described : ∀ t ∈ transactions, isCorrection t = true →
    t.normalizedDescriptor = normalizeDescriptor toLowerCase t.rawDescriptor
  few : ((transactions.filter isCorrection).map Transaction.normalizedDescriptor).dedup.length ≤ 300
  tokens : ∀ t ∈ transactions, isCorrection t = true → descriptorTokens t.normalizedDescriptor ≠ []
  single : ∀ t ∈ transactions, isCorrection t = true → ∀ t' ∈ transactions, isCorrection t' = true →
    t'.normalizedDescriptor = t.normalizedDescriptor → t'.categorySlug = t.categorySlug

variable {toLowerCase : String → String} {transactions : List Transaction} {t : Transaction}
  {categories : OrdMap String (List String)} {examples : List CorrectionExample} {normalized : String}

/-- The corrections of a descriptor, and their categories. -/
structure Files (toLowerCase : String → String) (transactions : List Transaction)
    (categories : OrdMap String (List String)) (normalized : String) : Prop where
  nodup : ((categories.get? normalized).getD []).Nodup
  mem : ∀ slug, slug ∈ (categories.get? normalized).getD [] ↔ ∃ t ∈ transactions, isCorrection t = true ∧
    descriptorTokens (learnedDescriptor toLowerCase t) ≠ [] ∧
      learnedDescriptor toLowerCase t = normalized ∧ t.categorySlug = slug

theorem categoriesByDescriptor_files (normalized : String) :
    Files toLowerCase transactions (categoriesByDescriptor toLowerCase transactions) normalized := by
  induction transactions using List.reverseRecOn with
  | nil => exact ⟨by simp [categoriesByDescriptor], by simp [categoriesByDescriptor]⟩
  | append_singleton transactions t ih =>
    rw [categoriesByDescriptor, List.foldl_append, ← categoriesByDescriptor]
    rw [List.foldl_cons, List.foldl_nil, addCategory]
    split
    · next skipped =>
      refine ⟨ih.nodup, fun slug => ?_⟩
      rw [ih.mem]
      simp only [List.mem_append, List.mem_singleton, or_and_right, exists_or, exists_eq_left]
      simp only [Bool.or_eq_true, Bool.not_eq_true', decide_eq_true_iff] at skipped
      rcases skipped with other | empty
      · simp [other]
      · simp [empty]
    · next kept =>
      simp only [Bool.or_eq_true, Bool.not_eq_true', decide_eq_true_iff, not_or, Bool.not_eq_false] at kept
      by_cases same : learnedDescriptor toLowerCase t = normalized
      · rw [same]
        refine ⟨?_, fun slug => ?_⟩
        · rw [OrdMap.get?_set_self]
          exact List.Nodup.insert ih.nodup
        · rw [OrdMap.get?_set_self, Option.getD_some, List.mem_insert_iff, ih.mem]
          simp only [List.mem_append, List.mem_singleton, or_and_right, exists_or, exists_eq_left]
          rw [or_comm]
          apply or_congr_right
          exact ⟨fun slugs => ⟨kept.1, kept.2, same, slugs.symm⟩, fun own => own.2.2.2.symm⟩
      · have unchanged : ((categoriesByDescriptor toLowerCase transactions).set
            (learnedDescriptor toLowerCase t)
            (List.insert t.categorySlug (((categoriesByDescriptor toLowerCase transactions).get?
              (learnedDescriptor toLowerCase t)).getD []))).get? normalized =
              (categoriesByDescriptor toLowerCase transactions).get? normalized :=
          OrdMap.get?_set_ne _ _ same
        refine ⟨by rw [unchanged]; exact ih.nodup, fun slug => ?_⟩
        rw [unchanged, ih.mem]
        simp only [List.mem_append, List.mem_singleton, or_and_right, exists_or, exists_eq_left]
        simp [same]

theorem Trainable.learned (trainable : Trainable toLowerCase transactions) (stored : t ∈ transactions)
    (correction : isCorrection t = true) : learnedDescriptor toLowerCase t = t.normalizedDescriptor := by
  have some_ : t.normalizedDescriptor ≠ "" := by
    intro empty
    have tokens := trainable.tokens t stored correction
    rw [empty] at tokens
    exact tokens (by decide)
  rw [learnedDescriptor, if_neg some_]

theorem eq_singleton {slugs : List String} {slug : String} (nodup : slugs.Nodup) (mem : slug ∈ slugs)
    (all : ∀ other ∈ slugs, other = slug) : slugs = [slug] := by
  have replicated := List.eq_replicate_of_mem all
  have short : slugs.length ≤ 1 := by
    rw [replicated] at nodup
    exact List.nodup_replicate.mp nodup
  have long := List.length_pos_of_mem mem
  rw [replicated, show slugs.length = 1 by omega]
  rfl

theorem Trainable.category (trainable : Trainable toLowerCase transactions) (stored : t ∈ transactions)
    (correction : isCorrection t = true) :
    ((categoriesByDescriptor toLowerCase transactions).get? t.normalizedDescriptor).getD [] =
      [t.categorySlug] := by
  have files : Files toLowerCase transactions _ t.normalizedDescriptor := categoriesByDescriptor_files _
  apply eq_singleton files.nodup
  · apply (files.mem _).mpr
    have learned := trainable.learned stored correction
    exact ⟨t, stored, correction, learned ▸ trainable.tokens t stored correction, learned, rfl⟩
  · intro slug filed
    obtain ⟨t', stored', correction', -, learned, rfl⟩ := (files.mem slug).mp filed
    rw [trainable.learned stored' correction'] at learned
    exact trainable.single t stored correction t' stored' correction' learned

/-- A correction is left out only when its descriptor is there already. -/
theorem Trainable.skips_eq (trainable : Trainable toLowerCase transactions) (stored : t ∈ transactions)
    (correction : isCorrection t = true) (examples : List CorrectionExample) :
    skips toLowerCase (categoriesByDescriptor toLowerCase transactions) examples t =
      examples.any fun e => e.normalizedDescriptor = t.normalizedDescriptor := by
  simp [skips, trainable.learned stored correction, correction, trainable.category stored correction,
    trainable.tokens t stored correction]

theorem Trainable.exampleOf_eq (trainable : Trainable toLowerCase transactions) (stored : t ∈ transactions)
    (correction : isCorrection t = true) :
    exampleOf toLowerCase t = ⟨t.normalizedDescriptor, t.categorySlug, tokenSet t.normalizedDescriptor⟩ := by
  rw [exampleOf, trainable.learned stored correction]

/-- The examples are of different descriptors, and each is that of a correction. -/
structure Learned (toLowerCase : String → String) (transactions : List Transaction)
    (examples : List CorrectionExample) : Prop where
  nodup : (examples.map CorrectionExample.normalizedDescriptor).Nodup
  mem : ∀ e ∈ examples, ∃ t ∈ transactions, isCorrection t = true ∧ e = exampleOf toLowerCase t

theorem Learned.snoc (trainable : Trainable toLowerCase transactions)
    (learned : Learned toLowerCase transactions examples) (stored : t ∈ transactions)
    (correction : isCorrection t = true)
    (new : examples.any (fun e => e.normalizedDescriptor = t.normalizedDescriptor) = false) :
    Learned toLowerCase transactions (examples ++ [exampleOf toLowerCase t]) where
  nodup := by
    rw [List.map_append, List.map_singleton, List.nodup_append]
    refine ⟨learned.nodup, List.nodup_singleton _, fun d old d' own same => ?_⟩
    rw [List.mem_singleton, trainable.exampleOf_eq stored correction] at own
    obtain ⟨e, there, rfl⟩ := List.mem_map.mp old
    have absent := List.any_eq_false.mp new e there
    exact absent (by simpa using same.trans own)
  mem e there := by
    rcases List.mem_append.mp there with old | own
    · exact learned.mem e old
    · exact ⟨t, stored, correction, List.mem_singleton.mp own⟩

/-- As many different descriptors as there may be are all of them. -/
theorem Learned.full (trainable : Trainable toLowerCase transactions)
    (learned : Learned toLowerCase transactions examples) (full : examples.length = MAX_CORRECTIONS)
    (stored : t ∈ transactions) (correction : isCorrection t = true) :
    ∃ e ∈ examples, e.normalizedDescriptor = t.normalizedDescriptor := by
  have sub : examples.map CorrectionExample.normalizedDescriptor ⊆
      ((transactions.filter isCorrection).map Transaction.normalizedDescriptor).dedup := by
    intro d listed
    obtain ⟨e, there, rfl⟩ := List.mem_map.mp listed
    obtain ⟨t', stored', correction', rfl⟩ := learned.mem e there
    rw [trainable.exampleOf_eq stored' correction', List.mem_dedup]
    exact List.mem_map_of_mem (List.mem_filter.mpr ⟨stored', correction'⟩)
  have all := (List.subperm_of_subset learned.nodup sub).perm_of_length_le (by
    rw [List.length_map, full]
    exact trainable.few)
  have there : t.normalizedDescriptor ∈ examples.map CorrectionExample.normalizedDescriptor := by
    rw [all.mem_iff, List.mem_dedup]
    exact List.mem_map_of_mem (List.mem_filter.mpr ⟨stored, correction⟩)
  simpa using there

/-- No correction is lost. -/
theorem addExamples_learned (trainable : Trainable toLowerCase transactions)
    (learned : Learned toLowerCase transactions examples) {rest : List Transaction}
    (sub : rest ⊆ transactions) :
    let result := addExamples toLowerCase (categoriesByDescriptor toLowerCase transactions) examples rest
    Learned toLowerCase transactions result ∧ examples ⊆ result ∧
      ∀ t ∈ rest, isCorrection t = true → ∃ e ∈ result, e.normalizedDescriptor = t.normalizedDescriptor := by
  induction rest generalizing examples with
  | nil => exact ⟨learned, List.Subset.refl _, by simp⟩
  | cons t rest ih =>
    obtain ⟨stored, later⟩ := List.cons_subset.mp sub
    dsimp only
    rw [addExamples]
    split
    · next skipped =>
      obtain ⟨result, kept, found⟩ := ih learned later
      refine ⟨result, kept, fun t' listed correction => ?_⟩
      rcases List.mem_cons.mp listed with rfl | listed
      · rw [trainable.skips_eq stored correction] at skipped
        obtain ⟨e, there, same⟩ := List.any_eq_true.mp skipped
        exact ⟨e, kept there, by simpa using same⟩
      · exact found t' listed correction
    · next added =>
      have correction : isCorrection t = true := by
        by_contra other
        simp [skips, other] at added
      have new := added
      rw [trainable.skips_eq stored correction, Bool.not_eq_true] at new
      have longer := learned.snoc trainable stored correction new
      have own : ∃ e ∈ examples ++ [exampleOf toLowerCase t],
          e.normalizedDescriptor = t.normalizedDescriptor :=
        ⟨_, List.mem_append_right _ (List.mem_singleton_self _),
          by rw [trainable.exampleOf_eq stored correction]⟩
      split
      · next full =>
        refine ⟨longer, List.subset_append_left _ _, fun t' listed correction' => ?_⟩
        exact longer.full trainable (by simpa using full) (sub listed) correction'
      · next more =>
        obtain ⟨result, kept, found⟩ := ih longer later
        refine ⟨result, List.Subset.trans (List.subset_append_left _ _) kept, fun t' listed correction' => ?_⟩
        rcases List.mem_cons.mp listed with rfl | listed
        · obtain ⟨e, there, same⟩ := own
          exact ⟨e, kept there, same⟩
        · exact found t' listed correction'

theorem mem_fromTransactions (trainable : Trainable toLowerCase transactions) (e : CorrectionExample) :
    e ∈ fromTransactions toLowerCase transactions ↔
      ∃ t ∈ transactions, isCorrection t = true ∧ e = exampleOf toLowerCase t := by
  have start : Learned toLowerCase transactions [] := ⟨List.nodup_nil, by simp⟩
  obtain ⟨learned, -, found⟩ := addExamples_learned trainable start (List.Subset.refl transactions)
  constructor
  · exact learned.mem e
  · rintro ⟨t, stored, correction, rfl⟩
    obtain ⟨e, there, same⟩ := found t stored correction
    obtain ⟨t', stored', correction', rfl⟩ := learned.mem e there
    rw [trainable.exampleOf_eq stored' correction'] at same
    rw [trainable.exampleOf_eq stored correction, ← same,
      ← trainable.single t stored correction t' stored' correction' same,
      ← trainable.exampleOf_eq stored' correction']
    exact there

/-! ### What is repeated -/

variable {R : Rounding}

theorem tooClose_above (s s' : Rat) (h : s ≤ s') : tooClose R s s' := by
  have below : R.round (s - s') ≤ 0 := R.zero ▸ R.mono _ _ (by linarith)
  exact lt_of_le_of_lt below R.margin

theorem tooClose_lower (s₁ s₂ s' : Rat) (h : s₁ ≤ s₂) (close : tooClose R s₂ s') : tooClose R s₁ s' :=
  lt_of_le_of_lt (R.mono _ _ (by linarith)) close

theorem tooClose_higher (s s₁ s₂ : Rat) (h : s₁ ≤ s₂) (close : tooClose R s s₁) : tooClose R s s₂ :=
  lt_of_le_of_lt (R.mono _ _ (by linarith)) close

@[simp] theorem predictionOf_categorySlug (best : ScoredExample) :
    (predictionOf R best).categorySlug = best.categorySlug := rfl

/-- A category is predicted where one of its candidates is ahead of those of all other categories. -/
theorem classify_iff {descriptor categorySlug : String} (some_ : examples ≠ []) :
    (∃ prediction, classify R toLowerCase examples descriptor = some prediction ∧
      prediction.categorySlug = categorySlug) ↔
      tokenSet (normalizeDescriptor toLowerCase descriptor) ≠ [] ∧
        ∃ own ∈ examples.filterMap (scoreExample R (normalizeDescriptor toLowerCase descriptor)),
          own.categorySlug = categorySlug ∧
            ∀ other ∈ examples.filterMap (scoreExample R (normalizeDescriptor toLowerCase descriptor)),
              other.categorySlug ≠ categorySlug → ¬tooClose R own.score other.score := by
  rw [← Ranking.contest_iff tooClose_above tooClose_lower tooClose_higher]
  by_cases empty : tokenSet (normalizeDescriptor toLowerCase descriptor) = []
  · simp [classify, empty]
  · rw [and_iff_right empty, classify, if_neg (by simp [empty, some_])]
    dsimp only
    generalize Ranking.ranked ScoredExample.score (examples.filterMap
      (scoreExample R (normalizeDescriptor toLowerCase descriptor))) = candidates
    cases candidates.head? with
    | none => simp
    | some best =>
      simp only [Option.some.injEq, exists_eq_left']
      generalize candidates.find? (fun candidate => candidate.categorySlug ≠ best.categorySlug) = rival
      cases rival with
      | none => simp
      | some runnerUp => by_cases close : tooClose R best.score runnerUp.score <;> simp [close]

/-- How alike a descriptor is to that of a correction, if it is enough so. -/
def similarity (R : Rounding) (normalized learned : String) : Option Rat :=
  if learned = normalized then some 1 else fuzzyScore R (tokenSet normalized) (tokenSet learned)

/-- Every correction is predicted for its own descriptor. -/
def Reproduces (R : Rounding) (toLowerCase : String → String) (transactions : List Transaction) : Prop :=
  ∀ t ∈ transactions, isCorrection t = true →
    ∃ prediction, classify R toLowerCase (fromTransactions toLowerCase transactions)
      t.normalizedDescriptor = some prediction ∧ prediction.categorySlug = t.categorySlug

/-- Of the descriptor, normalized once more, a token is left, and some correction of its category is
ahead of the corrections of all other categories by the margin. -/
structure Prevails (R : Rounding) (toLowerCase : String → String) (transactions : List Transaction)
    (t : Transaction) : Prop where
  token : descriptorTokens (normalizeDescriptor toLowerCase t.normalizedDescriptor) ≠ []
  ahead : ∃ own ∈ transactions, isCorrection own = true ∧ own.categorySlug = t.categorySlug ∧
    ∃ score, similarity R (normalizeDescriptor toLowerCase t.normalizedDescriptor)
      own.normalizedDescriptor = some score ∧
        ∀ other ∈ transactions, isCorrection other = true → other.categorySlug ≠ t.categorySlug →
          ∀ score', similarity R (normalizeDescriptor toLowerCase t.normalizedDescriptor)
            other.normalizedDescriptor = some score' → ¬tooClose R score score'

theorem tokenSet_eq_nil (text : String) : tokenSet text = [] ↔ descriptorTokens text = [] := by
  rw [tokenSet, List.dedup_eq_nil]

theorem scoreExample_map (normalized learned categorySlug : String) :
    (scoreExample R normalized ⟨learned, categorySlug, tokenSet learned⟩).map
        (fun c => (c.categorySlug, c.score)) =
      (similarity R normalized learned).map fun score => (categorySlug, score) := by
  by_cases exact : learned = normalized
  · simp [scoreExample, similarity, exact]
  · simp only [scoreExample, similarity, exact, if_false, Option.map_map]
    rfl

/-- The candidates of a descriptor, by the corrections that they come from. -/
theorem Trainable.candidates (trainable : Trainable toLowerCase transactions) (R : Rounding)
    (normalized : String) (p : String × Rat → Prop) :
    (∃ c ∈ (fromTransactions toLowerCase transactions).filterMap (scoreExample R normalized),
        p (c.categorySlug, c.score)) ↔
      ∃ t ∈ transactions, isCorrection t = true ∧ ∃ score,
        similarity R normalized t.normalizedDescriptor = some score ∧ p (t.categorySlug, score) := by
  constructor
  · rintro ⟨c, listed, holds⟩
    obtain ⟨e, there, scored⟩ := List.mem_filterMap.mp listed
    obtain ⟨t, stored, correction, rfl⟩ := (mem_fromTransactions trainable e).mp there
    have pair := scoreExample_map (R := R) normalized t.normalizedDescriptor t.categorySlug
    rw [← trainable.exampleOf_eq stored correction, scored, Option.map_some, eq_comm,
      Option.map_eq_some_iff] at pair
    obtain ⟨score, similar, same⟩ := pair
    exact ⟨t, stored, correction, score, similar, same ▸ holds⟩
  · rintro ⟨t, stored, correction, score, similar, holds⟩
    have pair := scoreExample_map (R := R) normalized t.normalizedDescriptor t.categorySlug
    rw [← trainable.exampleOf_eq stored correction, similar, Option.map_some,
      Option.map_eq_some_iff] at pair
    obtain ⟨c, scored, same⟩ := pair
    have there := (mem_fromTransactions trainable _).mpr ⟨t, stored, correction, rfl⟩
    exact ⟨c, List.mem_filterMap.mpr ⟨_, there, scored⟩, same.symm ▸ holds⟩

theorem Trainable.repeats_iff (trainable : Trainable toLowerCase transactions) (stored : t ∈ transactions)
    (correction : isCorrection t = true) :
    (∃ prediction, classify R toLowerCase (fromTransactions toLowerCase transactions)
      t.normalizedDescriptor = some prediction ∧ prediction.categorySlug = t.categorySlug) ↔
      Prevails R toLowerCase transactions t := by
  have some_ : fromTransactions toLowerCase transactions ≠ [] :=
    List.ne_nil_of_mem ((mem_fromTransactions trainable _).mpr ⟨t, stored, correction, rfl⟩)
  have rivals (score : Rat) :
      (∀ other ∈ (fromTransactions toLowerCase transactions).filterMap
        (scoreExample R (normalizeDescriptor toLowerCase t.normalizedDescriptor)),
          other.categorySlug ≠ t.categorySlug → ¬tooClose R score other.score) ↔
      ∀ other ∈ transactions, isCorrection other = true → other.categorySlug ≠ t.categorySlug →
        ∀ score', similarity R (normalizeDescriptor toLowerCase t.normalizedDescriptor)
          other.normalizedDescriptor = some score' → ¬tooClose R score score' := by
    have close := not_congr (trainable.candidates R
      (normalizeDescriptor toLowerCase t.normalizedDescriptor) fun c => c.1 ≠ t.categorySlug ∧ tooClose R score c.2)
    push Not at close
    rw [close]
    constructor
    · intro clear other there correction' different score' similar
      exact clear other there correction' score' similar different
    · intro clear other there correction' score' similar different
      exact clear other there correction' different score' similar
  rw [classify_iff some_, ne_eq, tokenSet_eq_nil]
  simp only [rivals]
  rw [trainable.candidates R _ fun c => c.1 = t.categorySlug ∧
    ∀ other ∈ transactions, isCorrection other = true → other.categorySlug ≠ t.categorySlug →
      ∀ score', similarity R (normalizeDescriptor toLowerCase t.normalizedDescriptor)
        other.normalizedDescriptor = some score' → ¬tooClose R c.2 score']
  constructor
  · rintro ⟨token, own, there, correction', score, similar, same, clear⟩
    exact ⟨token, own, there, correction', same, score, similar, clear⟩
  · rintro ⟨token, own, there, correction', same, score, similar, clear⟩
    exact ⟨token, own, there, correction', score, similar, same, clear⟩

/-- The learner repeats its corrections, if and only if each prevails. -/
theorem learner_reproduces_iff (R : Rounding) (toLowerCase : String → String)
    (transactions : List Transaction) (trainable : Trainable toLowerCase transactions) :
    Reproduces R toLowerCase transactions ↔
      ∀ t ∈ transactions, isCorrection t = true → Prevails R toLowerCase transactions t :=
  forall₂_congr fun _ stored => forall_congr' fun correction => trainable.repeats_iff stored correction

def unrounded : Rounding where
  round := id
  mono _ _ h := h
  zero := rfl
  margin := by norm_num

/-- The descriptor of a ticket for the internet on board. -/
def wifi : Transaction :=
  { cafe with
    rawDescriptor := "UNITED AIRLINES INFLIGHT WIFI"
    normalizedDescriptor := "united airlines inflight wifi"
    categorySlug := "internet"
    categorySource := .userManual }

def snacks : Transaction :=
  { wifi with
    id := "txn_checking_p00002"
    providerTxnId := "p00002"
    rawDescriptor := "UNITED AIRLINES INFLIGHT WIFI SNACKS"
    normalizedDescriptor := "united airlines inflight wifi snacks"
    categorySlug := "food" }

theorem wifi_trainable : Trainable String.toLower [wifi] where
  described := by decide +kernel
  few := by decide +kernel
  tokens := by decide +kernel
  single := by decide +kernel

theorem wifi_reproduced : Reproduces unrounded String.toLower [wifi] := by
  apply (learner_reproduces_iff unrounded String.toLower [wifi] wifi_trainable).mpr
  intro t stored _
  obtain rfl := List.mem_singleton.mp stored
  refine ⟨by decide +kernel, wifi, stored, rfl, rfl, 1, by decide +kernel, ?_⟩
  intro other stored' _ different
  rw [List.mem_singleton.mp stored'] at different
  exact absurd rfl different

/-- Two corrections that have four tokens in common hide each other. -/
theorem snacks_hide_wifi : Trainable String.toLower [wifi, snacks] ∧
    ¬Reproduces unrounded String.toLower [wifi, snacks] := by
  refine ⟨⟨by decide +kernel, by decide +kernel, by decide +kernel, by decide +kernel⟩, fun reproduces => ?_⟩
  obtain ⟨prediction, predicted, -⟩ := reproduces wifi List.mem_cons_self rfl
  have nothing : classify unrounded String.toLower (fromTransactions String.toLower [wifi, snacks])
      wifi.normalizedDescriptor = none := by decide +kernel
  rw [nothing] at predicted
  cases predicted

end Finverse.Categorization
