import Finverse.Categorization.RuleRuns

/-! The dry run of a rule, the pipeline and the application agree on the rows that a rule reaches. -/

namespace Finverse.Categorization

open Ledger (CategorySource Transaction)

variable {X : TextContext} {rule : CategorizationRule} {rows : List Transaction} {t : Transaction}
  {draft : RuleDraft} {preview : RulePreview} {changes : List RuleApplicationChange}

/-! ### The rows that are matched -/

/-- With no other rule, the pipeline categorizes the row by this one. -/
def AnsweredByRule (X : TextContext) (rule : CategorizationRule) (lexicon : List LexiconEntry)
    (model : Option (String → Option ModelPrediction)) (t : Transaction) : Prop :=
  (categorizeDescriptor X t.rawDescriptor ⟨[rule], lexicon, model⟩).source = .userRule

instance (lexicon : List LexiconEntry) (model : Option (String → Option ModelPrediction)) :
    DecidablePred (AnsweredByRule X rule lexicon model) := fun _ => inferInstanceAs (Decidable (_ = _))

theorem categorizeByMerchant_source (lexicon : List LexiconEntry)
    (model : Option (String → Option ModelPrediction)) (normalized : String) :
    (categorizeByMerchant lexicon model normalized).source ≠ .userRule := by
  unfold categorizeByMerchant
  split
  · simp
  · split <;> simp

theorem answeredByRule_iff (lexicon : List LexiconEntry)
    (model : Option (String → Option ModelPrediction))
    (normalized : t.normalizedDescriptor = normalizeDescriptor X.toLowerCase t.rawDescriptor) :
    AnsweredByRule X rule lexicon model t ↔ matchesRule X rule t.normalizedDescriptor = true := by
  rw [AnsweredByRule, categorizeDescriptor, ← normalized]
  by_cases hit : matchesRule X rule t.normalizedDescriptor = true
  · simp [matched, hit]
  · have other := categorizeByMerchant_source lexicon model t.normalizedDescriptor
    simpa [matched, hit] using other

/-! ### What is counted -/

/-- Matched, and chosen by the user. -/
def shielded (X : TextContext) (rule : CategorizationRule) (t : Transaction) : Bool :=
  matchesRule X rule t.normalizedDescriptor && decide (t.categorySource = .userManual)

/-- Matched, and in the category already. -/
def settled (X : TextContext) (rule : CategorizationRule) (t : Transaction) : Bool :=
  matchesRule X rule t.normalizedDescriptor &&
    (decide (t.categorySource ≠ .userManual) && decide (t.categorySlug = rule.categorySlug))

theorem count_eq (preview : RulePreview) : rows.foldl (RulePreview.count X rule) preview =
    { preview with
      changes := preview.changes ++ (rows.filter (rewrites X rule)).map (ruleChange rule)
      alreadyCorrect := preview.alreadyCorrect + rows.countP (settled X rule)
      protectedByUserChoice := preview.protectedByUserChoice + rows.countP (shielded X rule)
      matched := preview.matched + rows.countP fun t => matchesRule X rule t.normalizedDescriptor } := by
  induction rows generalizing preview with
  | nil => simp
  | cons t rows ih =>
    rw [List.foldl_cons, ih, RulePreview.count, RulePreview.matches_eq, List.filter_cons]
    simp only [List.countP_cons, rewrites, settled, shielded]
    by_cases hit : matchesRule X rule t.normalizedDescriptor = false
    · simp [hit]
    · by_cases manual : t.categorySource = .userManual
      · simp [hit, manual]
        omega
      · by_cases same : t.categorySlug = rule.categorySlug
        · simp [hit, manual, same]
          omega
        · simp [hit, manual, same]
          omega

theorem previewRule_eq (rule : CategorizationRule) (rows : List Transaction) : previewRule X rule rows =
    { changes := (rows.filter (rewrites X rule)).map (ruleChange rule)
      alreadyCorrect := rows.countP (settled X rule)
      protectedByUserChoice := rows.countP (shielded X rule)
      matched := rows.countP fun t => matchesRule X rule t.normalizedDescriptor
      matchesNothing := rows.countP (fun t => matchesRule X rule t.normalizedDescriptor) == 0 } := by
  rw [previewRule, count_eq]
  simp

/-- Each matched row is counted once. -/
theorem matched_eq_sum (rule : CategorizationRule) (rows : List Transaction) :
    (previewRule X rule rows).matched = (previewRule X rule rows).changes.length +
      (previewRule X rule rows).alreadyCorrect + (previewRule X rule rows).protectedByUserChoice := by
  rw [previewRule_eq]
  dsimp only
  rw [List.length_map, ← List.countP_eq_length_filter]
  induction rows with
  | nil => rfl
  | cons t rows ih =>
    simp only [List.countP_cons, rewrites, settled, shielded] at ih ⊢
    by_cases hit : matchesRule X rule t.normalizedDescriptor = false
    · simp only [hit, Bool.false_and, Bool.false_eq_true, if_false, Nat.add_zero]
      exact ih
    · by_cases manual : t.categorySource = .userManual
      · simp [hit, manual]
        omega
      · by_cases same : t.categorySlug = rule.categorySlug
        · simp [hit, manual, same]
          omega
        · simp [hit, manual, same]
          omega

/-! ### What is applied -/

/-- The ids of the rows that the dry run lists. -/
def RulePreview.listed (preview : RulePreview) : List String := preview.changes.map (·.transactionId)

theorem mem_listed (ids : (rows.map Transaction.id).Nodup) (stored : t ∈ rows) :
    t.id ∈ (previewRule X rule rows).listed ↔ rewrites X rule t = true := by
  rw [RulePreview.listed, previewRule_changes, List.map_map]
  constructor
  · intro listed
    obtain ⟨t', rewritten, same⟩ := List.mem_map.mp listed
    obtain ⟨stored', hit⟩ := List.mem_filter.mp rewritten
    rwa [List.inj_on_of_nodup_map ids stored' stored same] at hit
  · intro hit
    exact List.mem_map.mpr ⟨t, List.mem_filter.mpr ⟨stored, hit⟩, rfl⟩

theorem plan_preview {listing : List Transaction}
    (planned : RuleApplyService.plan X draft listing = .ok (preview, changes)) :
    preview = previewRule X (RuleApplyService.toRule draft) listing ∧
      changes.map RuleApplicationChange.transactionId = preview.listed := by
  obtain ⟨shown, previewed, planned⟩ := bind_ok planned
  obtain ⟨-, -, planned⟩ := bind_ok planned
  obtain ⟨-, -, planned⟩ := bind_ok planned
  obtain ⟨rfl, rfl⟩ := Prod.mk.inj (Except.ok.inj planned)
  obtain ⟨-, -, previewed⟩ := bind_ok previewed
  obtain rfl := Except.ok.inj previewed
  refine ⟨rfl, ?_⟩
  rw [RulePreview.listed, List.map_map]
  rfl

/-- An application gives the category of the rule to the rows of the dry run, and leaves the rest of the
ledger as it was. -/
theorem applied_transactions {st : InMemoryRuleApplications} {id now : String}
    (ids : (st.transactions.map Transaction.id).Nodup)
    (planned : RuleApplyService.plan X draft (TransactionStore.list X st.transactions) =
      .ok (preview, changes)) :
    (st.applied draft id now changes).transactions = st.transactions.map fun t =>
      if t.id ∈ preview.listed then
        { t with categorySlug := draft.categorySlug, categorySource := .userRule, categoryConfidence := 1 }
      else t := by
  rw [transactions_applied ids (plan_spec ids planned).1, Column.assign]
  refine List.map_congr_left fun t _ => ?_
  rw [assignment_const, (plan_preview planned).2, show categoryColumn.key t = t.id from rfl]
  by_cases listed : t.id ∈ preview.listed
  · rw [if_pos listed, if_pos listed]
    rfl
  · rw [if_neg listed, if_neg listed]
    rfl

theorem apply_eq (st : InMemoryRuleApplications) (draft : RuleDraft) (id now : String) :
    RuleApplyService.apply X inMemory draft id now st =
      match RuleApplyService.plan X draft (TransactionStore.list X st.transactions) with
      | .error e => (.error e, st)
      | .ok (preview, changes) =>
        (.ok (RuleApplyService.application draft id now changes, preview), st.applied draft id now changes) := by
  have rows : inMemory.transactions st = st.transactions := rfl
  rw [RuleApplyService.apply, rows]
  generalize RuleApplyService.plan X draft (TransactionStore.list X st.transactions) = plan
  cases plan with
  | error e => rfl
  | ok plan => rfl

/-- A refused application leaves the ledger as it was. -/
theorem apply_refused {st st' : InMemoryRuleApplications} {id now : String} {e : RuleApplyError}
    (refused : RuleApplyService.apply X inMemory draft id now st = (.error e, st')) : st' = st := by
  rw [apply_eq] at refused
  generalize RuleApplyService.plan X draft (TransactionStore.list X st.transactions) = plan at refused
  cases plan with
  | error e' => exact (Prod.mk.inj refused).2.symm
  | ok plan => exact absurd (Prod.mk.inj refused).1 (by simp)

theorem apply_done {st st' : InMemoryRuleApplications} {id now : String} {saved : RuleApplication}
    (done : RuleApplyService.apply X inMemory draft id now st = (.ok (saved, preview), st')) :
    ∃ changes, RuleApplyService.plan X draft (TransactionStore.list X st.transactions) =
      .ok (preview, changes) ∧ st' = st.applied draft id now changes := by
  rw [apply_eq] at done
  generalize RuleApplyService.plan X draft (TransactionStore.list X st.transactions) = plan at done ⊢
  cases plan with
  | error e => exact absurd (Prod.mk.inj done).1 (by simp)
  | ok plan =>
    obtain ⟨shown, changes⟩ := plan
    obtain ⟨same, rfl⟩ := Prod.mk.inj done
    obtain ⟨-, rfl⟩ := Prod.mk.inj (Except.ok.inj same)
    exact ⟨changes, rfl, rfl⟩

def cafeRule : CategorizationRule := ⟨"preview", .contains, "Cafe", "coffee", 0⟩

example : (previewRule ascii cafeRule [cafe]).listed = ["txn_checking_p00001"] := by decide +kernel

end Finverse.Categorization
