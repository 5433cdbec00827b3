import Finverse.Insights.Periods

/-! What a summary sums, and what an insight shows as evidence of it. -/

namespace Finverse.Insights

open Ledger (DateRange IsoDate isWithin)
open Scheduled (DateError)
open Tally (tally)

variable {transactions rows : List Ledger.Transaction} {period previousPeriod : DateRange}
  {currency slug : String} {current previous summary : PeriodSummary} {running : Running}

/-! ### The loop over the rows -/

def isSpent (t : Ledger.Transaction) : Bool := isSpendingCategory t.categorySlug && decide (t.amount < 0)

theorem Running.row_earned (running : Running) {t : Ledger.Transaction} (earned : isEarned t = true) :
    running.row t = { running with income := running.income + t.amount } ∧ isSpent t = false := by
  constructor
  · rw [Running.row, if_pos earned]
  · rw [isEarned, Bool.and_eq_true] at earned
    rw [isSpent, isIncomeCategory_spending earned.1, Bool.false_and]

theorem Running.row_spent {t : Ledger.Transaction} (spent : isSpent t = true) :
    running.row t = running.spend t ∧ isEarned t = false := by
  have other : isEarned t = false := by
    by_contra earned
    rw [(Running.row_earned {} (Bool.eq_true_of_not_eq_false earned)).2] at spent
    cases spent
  rw [isSpent, Bool.and_eq_true, decide_eq_true_eq] at spent
  have some_ : outflow t ≠ 0 := by
    rw [outflow]
    omega
  refine ⟨?_, other⟩
  rw [Running.row, if_neg (Bool.not_eq_true _ ▸ other), if_neg (by simp [spent.1]), if_neg some_]

theorem Running.row_other {t : Ledger.Transaction} (earned : isEarned t = false) (spent : isSpent t = false) :
    running.row t = running := by
  rw [Running.row, if_neg (Bool.not_eq_true _ ▸ earned)]
  split
  · rfl
  · rename_i spending
    have none_ : outflow t = 0 := by
      rw [isSpent, Bool.and_eq_false_iff, decide_eq_false_iff_not] at spent
      rw [outflow]
      have nonneg := spent.resolve_left (by simpa using spending)
      omega
    rw [if_pos none_]

/-- What the loop comes to. -/
structure Running.Sums (running last : Running) (rows : List Ledger.Transaction) : Prop where
  income : last.income = running.income + ((rows.filter isEarned).map (·.amount)).sum
  expenses : last.expenses = running.expenses + ((rows.filter isSpent).map outflow).sum
  byCategory : last.byCategory =
    tally (·.categorySlug) (fun t => .plus (outflow t)) running.byCategory (rows.filter isSpent)

theorem Running.sums (running : Running) (rows : List Ledger.Transaction) :
    running.Sums (rows.foldl Running.row running) rows := by
  induction rows generalizing running with
  | nil => exact ⟨by simp, by simp, rfl⟩
  | cons t rows ih =>
    obtain ⟨income, expenses, byCategory⟩ := ih (running.row t)
    rw [List.foldl_cons]
    cases earned : isEarned t with
    | true =>
      obtain ⟨row, other⟩ := Running.row_earned running earned
      rw [row] at income expenses byCategory ⊢
      refine ⟨?_, ?_, ?_⟩
      · rw [income, List.filter_cons, if_pos earned, List.map_cons, List.sum_cons, Int.add_assoc]
      · rw [expenses, List.filter_cons, other, if_neg Bool.false_ne_true]
      · rw [byCategory, List.filter_cons, other, if_neg Bool.false_ne_true]
    | false =>
      cases spent : isSpent t with
      | true =>
        rw [(Running.row_spent spent).1] at income expenses byCategory ⊢
        refine ⟨?_, ?_, ?_⟩
        · rw [income, List.filter_cons, earned, if_neg Bool.false_ne_true]
          rfl
        · rw [expenses, List.filter_cons, if_pos spent, List.map_cons, List.sum_cons, ← Int.add_assoc]
          rfl
        · rw [byCategory, List.filter_cons, if_pos spent]
          rfl
      | false =>
        rw [Running.row_other earned spent] at income expenses byCategory ⊢
        refine ⟨?_, ?_, ?_⟩
        · rw [income, List.filter_cons, earned, if_neg Bool.false_ne_true]
        · rw [expenses, List.filter_cons, spent, if_neg Bool.false_ne_true]
        · rw [byCategory, List.filter_cons, spent, if_neg Bool.false_ne_true]

/-! ### Summaries -/

/-- The rows of a period in one currency. -/
def rowsOf (transactions : List Ledger.Transaction) (period : DateRange) (currency : String) :
    List Ledger.Transaction :=
  (settled transactions period).filter (·.currency = currency)

/-- What is in a summary of the rows. -/
structure Summarizes (transactions : List Ledger.Transaction) (period : DateRange) (currency : String)
    (summary : PeriodSummary) : Prop where
  ofPeriod : summary.period = period
  ofCurrency : summary.currency = currency
  income : summary.income = (((rowsOf transactions period currency).filter isEarned).map (·.amount)).sum
  expenses : summary.expenses = (((rowsOf transactions period currency).filter isSpent).map outflow).sum
  net : summary.netCashFlow = summary.income - summary.expenses
  categories : summary.topCategories.Perm
    ((tally (·.categorySlug) (fun t => .plus (outflow t)) ∅
      ((rowsOf transactions period currency).filter isSpent)).entries.map categoryTotal)

theorem summarizes (summarized : summarizePeriod transactions period currency = .ok summary) :
    Summarizes transactions period currency summary := by
  obtain ⟨income, expenses, byCategory⟩ := Running.sums {} (rowsOf transactions period currency)
  rw [summarizePeriod] at summarized
  cases days : daysBetweenInclusive period.start period.end with
  | error e =>
    rw [days] at summarized
    cases summarized
  | ok days =>
    rw [days] at summarized
    obtain rfl := Except.ok.inj summarized
    refine ⟨rfl, rfl, ?_, ?_, rfl, ?_⟩
    · exact income.trans (Int.zero_add _)
    · exact expenses.trans (Int.zero_add _)
    · rw [← byCategory]
      exact List.perm_insertionSort _ _

/-! ### The total of a category -/

/-- The rows that a summary sums into a category. -/
def summedInto (transactions : List Ledger.Transaction) (period : DateRange) (currency slug : String) :
    List Ledger.Transaction :=
  ((rowsOf transactions period currency).filter isSpent).filter (·.categorySlug = slug)

theorem mem_tally_entries {rows : List Ledger.Transaction} {entry : String × Totals}
    (there : entry ∈ (tally (·.categorySlug) (fun t => .plus (outflow t)) ∅ rows).entries) :
    ∃ row ∈ rows, row.categorySlug = entry.1 := by
  rcases Tally.mem_tally_keys (List.mem_map_of_mem (f := Prod.fst) there) with none_ | some_
  · cases none_
  · exact some_

theorem Summarizes.spending (summarizes : Summarizes transactions period currency summary)
    (there : slug ∈ (totalsBySlug summary.topCategories).entries.map Prod.fst) :
    isSpendingCategory slug = true := by
  rcases Tally.mem_tally_keys there with none_ | ⟨category, listed, rfl⟩
  · cases none_
  obtain ⟨entry, stored, rfl⟩ := List.mem_map.mp (summarizes.categories.mem_iff.mp listed)
  obtain ⟨row, spent, same⟩ := mem_tally_entries stored
  have spending := (List.mem_filter.mp spent).2
  rw [isSpent, Bool.and_eq_true] at spending
  show isSpendingCategory entry.1 = true
  rw [← same]
  exact spending.1

theorem total_tally : (((tally (·.categorySlug) (fun t => Totals.plus (outflow t)) ∅ rows).get? slug).map
    Totals.total).getD 0 = ((rows.filter (·.categorySlug = slug)).map outflow).sum := by
  have grows : ∀ (t : Ledger.Transaction) (value : Option Totals),
      (Totals.plus (outflow t) value).total = (value.map Totals.total).getD 0 + outflow t := by
    intro t value
    cases value <;> simp [Totals.plus]
  rw [Tally.measure_tally grows]
  exact Int.zero_add _

/-- The total that is compared is that of the rows. -/
theorem Summarizes.total (summarizes : Summarizes transactions period currency summary) (slug : String) :
    ((totalsBySlug summary.topCategories).get? slug).getD 0 =
      ((summedInto transactions period currency slug).map outflow).sum := by
  have entries := @Tally.get?_tally_entries _ _ _ _ (·.categorySlug) _ slug _ _ categoryTotal
    CategoryTotal.total (fun _ => rfl) summarizes.categories
  rw [summedInto, ← total_tally, totalsBySlug, entries]
  rfl

/-! ### Evidence -/

theorem isSpent_outflow {t : Ledger.Transaction} (spent : isSpent t = true) : outflow t = -t.amount := by
  rw [isSpent, Bool.and_eq_true, decide_eq_true_eq] at spent
  rw [outflow]
  omega

/-- What is summed is evidence that is not excluded, and that was spent. -/
theorem summedInto_eq (ofPeriod : summary.period = period) (ofCurrency : summary.currency = currency)
    (spending : isSpendingCategory slug = true) : summedInto transactions period currency slug =
      (transactions.filter (isEvidence summary slug)).filter fun t => !isExcluded t && decide (t.amount < 0) := by
  rw [summedInto, rowsOf, settled, List.filter_filter, List.filter_filter, List.filter_filter,
    List.filter_filter]
  apply List.filter_congr
  intro t _
  rw [isEvidence, ofPeriod, ofCurrency, isSpent]
  by_cases same : t.categorySlug = slug
  · rw [same, spending]
    grind
  · simp [same]

/-- The evidence of an insight is what was summed, and adds up to the total. -/
structure ExactEvidence (transactions : List Ledger.Transaction) (current : PeriodSummary) (slug : String)
    (insight : Insight) : Prop where
  ids : insight.evidenceTransactionIds =
    (summedInto transactions current.period current.currency slug).map (·.id)
  total : ((summedInto transactions current.period current.currency slug).map fun t => -t.amount).sum =
    ((totalsBySlug current.topCategories).get? slug).getD 0

theorem filter_ids_iff {ids : Ledger.Transaction → String} {p : Ledger.Transaction → Bool} :
    rows.map ids = (rows.filter p).map ids ↔ ∀ t ∈ rows, p t = true := by
  constructor
  · intro same
    have length := congrArg List.length same
    rw [List.length_map, List.length_map] at length
    exact List.filter_eq_self.mp (List.filter_sublist.eq_of_length length.symm)
  · intro all
    rw [List.filter_eq_self.mpr all]

theorem changeInsight_evidence (slug magnitude : String) (delta : Int) (pct : Rat) (evidence : List String) :
    (changeInsight slug magnitude delta pct evidence).categorySlug = some slug ∧
      (changeInsight slug magnitude delta pct evidence).evidenceTransactionIds = evidence := by
  unfold changeInsight
  split <;> exact ⟨rfl, rfl⟩

theorem categoryInsight_some {formatMoney : Int → String → Option String} {insight : Insight}
    (found : categoryInsight formatMoney current previous transactions slug = some (some insight)) :
    insight.categorySlug = some slug ∧
      insight.evidenceTransactionIds = (transactions.filter (isEvidence current slug)).map (·.id) := by
  unfold categoryInsight at found
  dsimp only at found
  split at found
  · cases found
  split at found
  · cases found
  obtain ⟨magnitude, -, made⟩ := Option.bind_eq_some_iff.mp found
  obtain rfl := Option.some.inj (Option.some.inj made)
  exact changeInsight_evidence _ _ _ _ _

theorem mem_mapM {α β : Type} {f : α → Option β} {l : List α} {results : List β} {b : β}
    (done : l.mapM f = some results) (there : b ∈ results) : ∃ a ∈ l, f a = some b := by
  induction l generalizing results with
  | nil =>
    obtain rfl := Option.some.inj done
    cases there
  | cons a l ih =>
    rw [List.mapM_cons] at done
    obtain ⟨first, found, rest⟩ := Option.bind_eq_some_iff.mp done
    obtain ⟨more, later, made⟩ := Option.bind_eq_some_iff.mp rest
    obtain rfl := Option.some.inj made
    rcases List.mem_cons.mp there with rfl | there
    · exact ⟨a, List.mem_cons_self, found⟩
    · obtain ⟨other, listed, found⟩ := ih later there
      exact ⟨other, List.mem_cons_of_mem _ listed, found⟩

/-- Each insight is of a category of one of the summaries. -/
theorem compareCategoryTotals_mem {formatMoney : Int → String → Option String} {insights : List Insight}
    {insight : Insight}
    (compared : compareCategoryTotals formatMoney current previous transactions = some insights)
    (there : insight ∈ insights) : ∃ slug,
      (slug ∈ (totalsBySlug previous.topCategories).entries.map Prod.fst ∨
        slug ∈ (totalsBySlug current.topCategories).entries.map Prod.fst) ∧
      categoryInsight formatMoney current previous transactions slug = some (some insight) := by
  obtain ⟨results, done, made⟩ := Option.bind_eq_some_iff.mp compared
  obtain rfl := Option.some.inj made
  have listed := (List.perm_insertionSort _ _).mem_iff.mp there
  obtain ⟨result, listed, rfl⟩ := List.mem_filterMap.mp listed
  obtain ⟨slug, listed, found⟩ := mem_mapM done listed
  exact ⟨slug, List.mem_append.mp (List.mem_eraseDups.mp listed), found⟩

/-- The evidence is exact just when no row of the category is excluded, or was no spending. -/
theorem evidence_exact_iff {formatMoney : Int → String → Option String} {insights : List Insight}
    {insight : Insight} (now : summarizePeriod transactions period currency = .ok current)
    (before : summarizePeriod transactions previousPeriod currency = .ok previous)
    (compared : compareCategoryTotals formatMoney current previous transactions = some insights)
    (there : insight ∈ insights) : ∃ slug, insight.categorySlug = some slug ∧
      (ExactEvidence transactions current slug insight ↔ ∀ t ∈ transactions,
        isEvidence current slug t = true → isExcluded t = false ∧ t.amount < 0) := by
  have ofCurrent := summarizes now
  obtain ⟨slug, listed, found⟩ := compareCategoryTotals_mem compared there
  obtain ⟨of, evidence⟩ := categoryInsight_some found
  have spending : isSpendingCategory slug = true := by
    rcases listed with listed | listed
    · exact (summarizes before).spending listed
    · exact ofCurrent.spending listed
  have summed := @summedInto_eq transactions current.period current.currency slug current rfl rfl spending
  have exact_ : insight.evidenceTransactionIds =
      (summedInto transactions current.period current.currency slug).map (·.id) ↔
      ∀ t ∈ transactions, isEvidence current slug t = true → isExcluded t = false ∧ t.amount < 0 := by
    rw [evidence, summed, filter_ids_iff]
    simp [List.mem_filter]
  refine ⟨slug, of, fun ⟨ids, _⟩ => exact_.mp ids, fun all => ⟨exact_.mpr all, ?_⟩⟩
  have total := ofCurrent.total slug
  rw [← ofCurrent.ofPeriod, ← ofCurrent.ofCurrency] at total
  rw [total]
  refine congrArg List.sum (List.map_congr_left fun t there => ?_)
  exact (isSpent_outflow (List.mem_filter.mp (List.mem_filter.mp there).1).2).symm

/-! ### A month and the one before -/

def march : DateRange := ⟨"2026-03-01", "2026-03-31"⟩

def february : DateRange := ⟨"2026-02-01", "2026-02-28"⟩

def grocery (id : String) (postedAt : IsoDate) (amount : Int) (excluded : Bool) : Ledger.Transaction where
  id
  accountId := "checking"
  providerTxnId := id
  postedAt
  amount
  currency := "USD"
  rawDescriptor := "GROCER"
  normalizedDescriptor := "grocer"
  excludedFromAnalytics := some excluded
  categorySlug := "groceries"
  categorySource := .lexicon
  categoryConfidence := 1
  isRecurring := false
  pending := false

/-- The text of an amount in cents. -/
def inCents (amount : Int) (currency : String) : Option String :=
  some (toString amount ++ " " ++ currency ++ " cents")

/-- The groceries of March, without the row that the user left out. -/
def groceriesUp (evidence : List String) : Insight where
  kind := .categoryIncrease
  severity := .warning
  title := "Groceries spending is up 100%"
  detail := "You spent 5000 USD cents more on Groceries than last period."
  categorySlug := some "groceries"
  deltaAmount := some 5000
  deltaPercent := some 100
  evidenceTransactionIds := evidence

def compareMonths (transactions : List Ledger.Transaction) : Option (List Insight) :=
  match summarizePeriod transactions march "USD", summarizePeriod transactions february "USD" with
  | .ok current, .ok previous => compareCategoryTotals inCents current previous transactions
  | _, _ => none

theorem compareMonths_some {insights : List Insight} (compared : compareMonths transactions = some insights) :
    ∃ current previous, summarizePeriod transactions march "USD" = .ok current ∧
      summarizePeriod transactions february "USD" = .ok previous ∧
      compareCategoryTotals inCents current previous transactions = some insights := by
  unfold compareMonths at compared
  split at compared
  · rename_i current previous now before
    exact ⟨current, previous, now, before, compared⟩
  · cases compared

def oneGrocery : List Ledger.Transaction := [grocery "a" "2026-03-05" (-5000) false]

/-- The second row is left out of the totals by the user. -/
def twoGroceries : List Ledger.Transaction :=
  [grocery "a" "2026-03-05" (-5000) false, grocery "b" "2026-03-06" (-700) true]

theorem one_grocery_exact : ∃ (current : PeriodSummary) (insights : List Insight) (insight : Insight),
    summarizePeriod oneGrocery march "USD" = .ok current ∧ insight ∈ insights ∧
      ∃ slug, insight.categorySlug = some slug ∧
        (ExactEvidence oneGrocery current slug insight ↔ ∀ t ∈ oneGrocery,
          isEvidence current slug t = true → isExcluded t = false ∧ t.amount < 0) := by
  have compared : compareMonths oneGrocery = some [groceriesUp ["a"]] := by decide +kernel
  obtain ⟨current, previous, now, before, compared⟩ := compareMonths_some compared
  exact ⟨current, [groceriesUp ["a"]], groceriesUp ["a"], now, List.mem_singleton.mpr rfl,
    evidence_exact_iff now before compared (List.mem_singleton.mpr rfl)⟩

/-- A row that is not in the total is evidence of it. -/
theorem excluded_row_is_evidence :
    ¬∀ (formatMoney : Int → String → Option String) (transactions : List Ledger.Transaction)
      (period previousPeriod : DateRange) (currency : String) (current previous : PeriodSummary)
      (insights : List Insight), summarizePeriod transactions period currency = .ok current →
      summarizePeriod transactions previousPeriod currency = .ok previous →
      compareCategoryTotals formatMoney current previous transactions = some insights →
      ∀ insight ∈ insights, ∃ slug, insight.categorySlug = some slug ∧
        ExactEvidence transactions current slug insight := by
  intro all
  have compared : compareMonths twoGroceries = some [groceriesUp ["a", "b"]] := by decide +kernel
  obtain ⟨current, previous, now, before, compared⟩ := compareMonths_some compared
  obtain ⟨slug, of, ids, -⟩ := all _ _ _ _ _ _ _ _ now before compared _ (List.mem_singleton.mpr rfl)
  obtain rfl : "groceries" = slug := Option.some.inj of
  rw [(summarizes now).ofPeriod, (summarizes now).ofCurrency] at ids
  exact absurd ids (by decide +kernel)

end Finverse.Insights
