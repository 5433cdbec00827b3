import Finverse.Insights.Conservation
import Finverse.Insights.Evidence
import Finverse.Insights.Trend

/-! The totals of the analytics, and the one answer to how much was saved. -/

namespace Finverse.Insights

open Categorization (Collation)
open Fuel (Settles)
open Ledger (DateRange IsoDate isWithin unitsBefore)
open Scheduled (DateError text)
open Tally (tally)
open Transactions (byCharacters)
open TrendBucket (Begins next startOf)

variable {bucket : TrendBucket} {start end_ : Date} {rows transactions : List Ledger.Transaction}
  {C : Collation} {currency : String} {asOf : IsoDate}

/-! ### The trend of a period -/

theorem buildTrend_settles (spans : Spans (bucketOf start end_) start end_) (within : Within start end_ rows) :
    Settles (buildTrend rows ⟨text start, text end_⟩)
      (.ok (pointsOf (bucketOf start end_) (bucketsOf (bucketOf start end_) start end_) rows).values) := by
  have first : start.year ≤ 9999 := (Date.year_le_of_digits spans.order).trans spans.small
  have ends := spans.begins.mono spans.order
  obtain ⟨last, loop⟩ := buckets_settle spans.begins spans.order spans.small spans.reach
  have points := Settles.of_eq (@addToTrend_tally (bucketOf start end_) rows
    (tally id (fun date _ => emptyTrendPoint date) ∅ ((bucketsOf (bucketOf start end_) start end_).map text))
    fun t listed => by
      obtain ⟨date, -, -, -, -, started, -⟩ := spans.row within listed
      exact ⟨_, started⟩)
  have sorted := points.map fun points => points.values.insertionSort fun a b => a.date ≤ b.date
  have listed := spans.sorted within
  rw [pointsOf] at listed
  rw [listed] at sorted
  exact (Settles.of_eq (trendBucket_text first spans.small)).bind
    ((Settles.of_eq (trendBucketStart_text first spans.begins)).bind
      ((Settles.of_eq (trendBucketStart_text spans.small ends)).bind (loop.bind sorted)))

/-- Past either end of the calendar the trend throws. -/
theorem buildTrend_fails (order : start ≤ end_) (small : end_.year ≤ 9999)
    (short : ¬Spans (bucketOf start end_) start end_) : ∃ e,
    Settles (buildTrend rows ⟨text start, text end_⟩) (.error e) := by
  have first : start.year ≤ 9999 := (Date.year_le_of_digits order).trans small
  have bucket_ := Settles.of_eq (trendBucket_text first small)
  by_cases begins : Begins (bucketOf start end_) start
  · have far : 9999 < (next (bucketOf start end_) (startOf (bucketOf start end_) end_)).year :=
      Nat.lt_of_not_le fun reach => short ⟨order, small, begins, reach⟩
    obtain ⟨e, loop⟩ := buckets_fail begins order small far
    have from_ := Settles.of_eq (trendBucketStart_text first begins)
    have to_ := Settles.of_eq (trendBucketStart_text small (begins.mono order))
    exact ⟨e, bucket_.bind (from_.bind (to_.bind loop.bind_error))⟩
  · obtain ⟨e, fails⟩ := trendBucketStart_early first begins
    exact ⟨e, bucket_.bind (Settles.of_eq fails).bind_error⟩

/-- A period that ends before it starts has days for buckets, and none of them. -/
theorem buildTrend_empty (first : start.year ≤ 9999) (small : end_.year ≤ 9999) (empty : ¬start ≤ end_) :
    Settles (buildTrend [] ⟨text start, text end_⟩) (.ok []) := by
  have day : bucketOf start end_ = .day := by
    rw [Date.le_iff_number] at empty
    have few : start.daysBetweenInclusive end_ ≤ 62 := by
      rw [Date.daysBetweenInclusive]
      omega
    exact if_pos few
  have bucket_ := Settles.of_eq (trendBucket_text first small)
  rw [day] at bucket_
  have stops : decide (text start ≤ text end_) = false := by
    rw [decide_eq_false_iff_not, Texts.text_le_iff first small]
    exact empty
  have loop := @Fuel.whileRun_settles _ _ (fun date => decide (date ≤ text end_))
    (fun date => nextTrendBucket date .day) (fun _ => text start) 0 (by simp) (by simp) stops
  exact bucket_.bind ((Settles.lift (.ok (text start))).bind ((Settles.lift (.ok (text end_))).bind
    (loop.bind (Settles.lift (.ok [])))))

/-! ### The report -/

/-- All dates are on the calendar. -/
def RealDates (transactions : List Ledger.Transaction) : Prop :=
  ∀ t ∈ transactions, ∃ date : Date, date.year ≤ 9999 ∧ t.postedAt = text date

variable (currency) in
theorem counts_within (real : RealDates transactions) (first : start.year ≤ 9999) (last : end_.year ≤ 9999) :
    Within start end_ (transactions.filter (counts currency ⟨text start, text end_⟩)) := by
  intro t listed
  obtain ⟨there, counted⟩ := List.mem_filter.mp listed
  obtain ⟨date, small, dated⟩ := real t there
  rw [counts, Bool.and_eq_true, dated, isWithin_text small first last] at counted
  exact ⟨date, dated, counted.2⟩

/-- The report is there if the trend is. -/
theorem computeAnalytics_settles {today : Date} {trend : Except DateError (List AnalyticsTrendPoint)}
    (first : start.year ≤ 9999) (last : end_.year ≤ 9999) (now : today.year ≤ 9999)
    (built : Settles (buildTrend (transactions.filter (counts currency ⟨text start, text end_⟩))
      ⟨text start, text end_⟩) trend) : ∃ periodDays elapsedDays history,
    Settles (computeAnalytics C transactions ⟨text start, text end_⟩ currency (text today))
      (trend.map (reportOf C transactions ⟨text start, text end_⟩ currency periodDays elapsedDays history)) := by
  have elapsed : ∃ elapsedDays, (if unitsBefore (text today) (text start) then .ok (some 0)
      else daysBetweenInclusive (text start)
        (if unitsBefore (text today) (text end_) then text today else text end_)) =
        (.ok elapsedDays : Except DateError (Option Int)) := by
    split
    · exact ⟨_, rfl⟩
    · split
      · exact ⟨_, daysBetweenInclusive_text first now⟩
      · exact ⟨_, daysBetweenInclusive_text first last⟩
  obtain ⟨elapsedDays, elapsed⟩ := elapsed
  obtain ⟨historyStart, started⟩ := subDays_ok first 90
  obtain ⟨historyEnd, ended⟩ := subDays_ok first 1
  refine ⟨some (start.daysBetweenInclusive end_), elapsedDays, ⟨historyStart, historyEnd⟩, ?_⟩
  have days := Settles.of_eq (daysBetweenInclusive_text first last)
  have report : Settles (fun fuel => buildTrend (transactions.filter (counts currency ⟨text start, text end_⟩))
      ⟨text start, text end_⟩ fuel >>= fun trend => pure (reportOf C transactions ⟨text start, text end_⟩
        currency (some (start.daysBetweenInclusive end_)) elapsedDays ⟨historyStart, historyEnd⟩ trend))
      (trend.map (reportOf C transactions ⟨text start, text end_⟩ currency
        (some (start.daysBetweenInclusive end_)) elapsedDays ⟨historyStart, historyEnd⟩)) := by
    cases trend with
    | error e => exact built.bind_error
    | ok trend => exact built.map _
  exact days.bind ((Settles.of_eq elapsed).bind ((Settles.of_eq started).bind ((Settles.of_eq ended).bind
    report)))

/-! ### Sums over the spending and the incomes -/

/-- What the loop over the spending comes to. -/
structure SpendingTotals.Sums (totals : SpendingTotals) (rows : List Ledger.Transaction) : Prop where
  amounts : totals.expenseAmounts = rows.map expenseAmount
  byCategory : totals.byCategory = tally (·.categorySlug) (fun t => .plus (expenseAmount t)) ∅ rows
  byMerchant : totals.byMerchant = tally label (fun t => .plus (expenseAmount t)) ∅ rows
  byAccount : totals.byAccount = tally (·.accountId) (fun t => .plus (expenseAmount t)) ∅ rows
  kinds : totals.essentialSpending + totals.discretionarySpending = sumOf expenseAmount rows

theorem SpendingTotals.sums (rows : List Ledger.Transaction) : (rows.foldl SpendingTotals.row {}).Sums rows := by
  induction rows using List.reverseRecOn with
  | nil => exact ⟨rfl, rfl, rfl, rfl, rfl⟩
  | append_singleton rows t ih =>
    rw [List.foldl_append]
    refine ⟨?_, ?_, ?_, ?_, ?_⟩
    · show _ ++ [expenseAmount t] = _
      rw [ih.amounts, List.map_append]
      rfl
    · rw [Tally.tally_snoc, ← ih.byCategory]
      rfl
    · rw [Tally.tally_snoc, ← ih.byMerchant]
      rfl
    · rw [Tally.tally_snoc, ← ih.byAccount]
      rfl
    · have kinds := ih.kinds
      simp only [List.foldl_cons, List.foldl_nil, SpendingTotals.row, sumOf, List.map_append, List.sum_append,
        List.map_cons, List.map_nil, List.sum_cons, List.sum_nil] at kinds ⊢
      split <;> omega

/-- What the loop over the incomes comes to. -/
structure IncomeTotals.Sums (totals : IncomeTotals) (rows : List Ledger.Transaction) : Prop where
  total : totals.totalIncome = sumOf (·.amount) rows
  bySource : totals.incomeBySource = tally sourceOf (fun t => .plus t.amount) ∅ rows

theorem IncomeTotals.sums (rows : List Ledger.Transaction) : (rows.foldl IncomeTotals.row {}).Sums rows := by
  induction rows using List.reverseRecOn with
  | nil => exact ⟨rfl, rfl⟩
  | append_singleton rows t ih =>
    rw [List.foldl_append]
    constructor
    · show _ + t.amount = _
      rw [ih.total, sumOf, sumOf, List.map_append, List.sum_append]
      simp
    · rw [Tally.tally_snoc, ← ih.bySource]
      rfl

theorem sum_sortedTotals (C : Collation) (key : Ledger.Transaction → String)
    (amount : Ledger.Transaction → Int) (rows : List Ledger.Transaction) :
    ((sortedTotals C (tally key (fun t => .plus (amount t)) ∅ rows)).map (·.total)).sum = sumOf amount rows := by
  have grows : ∀ (t : Ledger.Transaction) (value : Option Totals),
      (Totals.plus (amount t) value).total = (value.map Totals.total).getD 0 + amount t := by
    intro t value
    cases value <;> simp [Totals.plus]
  have sum := @Tally.sum_tally _ _ _ _ _ key _ rows ∅ _ _ _ grows
  have perm := (List.perm_insertionSort (totalOrder C)
    ((tally key (fun t => Totals.plus (amount t)) ∅ rows).entries.map fun entry =>
      (⟨entry.1, entry.2.total, entry.2.count⟩ : AnalyticsTotal))).map (·.total)
  rw [sortedTotals, perm.sum_eq, List.map_map, sumOf, ← zero_add (List.map amount rows).sum]
  rw [OrdMap.values, List.map_map] at sum
  exact sum

theorem reportOf_grossExpenses {period history : DateRange} {periodDays elapsedDays : Option Int}
    {trend : List AnalyticsTrendPoint} :
    (reportOf C transactions period currency periodDays elapsedDays history trend).grossExpenses =
      sumOf expenseAmount ((transactions.filter (counts currency period)).filter isSpending) := by
  have sums := SpendingTotals.sums ((transactions.filter (counts currency period)).filter isSpending)
  show (List.insertionSort (· ≤ ·) (SpendingTotals.expenseAmounts _)).sum = _
  rw [(List.perm_insertionSort _ _).sum_eq, sums.amounts, sumOf]

theorem reportOf_totalIncome {period history : DateRange} {periodDays elapsedDays : Option Int}
    {trend : List AnalyticsTrendPoint} :
    (reportOf C transactions period currency periodDays elapsedDays history trend).totalIncome =
      sumOf (·.amount) ((transactions.filter (counts currency period)).filter isIncome) :=
  (IncomeTotals.sums _).total

/-! ### Reconciliation -/

/-- All totals of the report agree, and its trend covers the period. -/
structure Reconciles (rows : List Ledger.Transaction) (start end_ : Date) (report : AnalyticsReport) : Prop where
  categories : (report.spendingByCategory.map (·.total)).sum = report.grossExpenses
  merchants : (report.spendingByMerchant.map (·.total)).sum = report.grossExpenses
  accounts : (report.spendingByAccount.map (·.total)).sum = report.grossExpenses
  kinds : report.essentialSpending + report.discretionarySpending = report.grossExpenses
  sources : (report.incomeBySource.map (·.total)).sum = report.totalIncome
  trendIncome : (report.trend.map (·.income)).sum = report.totalIncome
  trendExpenses : (report.trend.map (·.expenses)).sum = report.grossExpenses
  trendRefunds : (report.trend.map (·.refunds)).sum = report.refunds
  buckets : ∃ starts, Covers rows (bucketOf start end_) start end_ starts report.trend

theorem reconciles_reportOf {period history : DateRange} {periodDays elapsedDays : Option Int}
    {trend : List AnalyticsTrendPoint} (adds : AddsUp (transactions.filter (counts currency period)) trend)
    (covers : ∃ starts,
      Covers (transactions.filter (counts currency period)) (bucketOf start end_) start end_ starts trend) :
    Reconciles (transactions.filter (counts currency period)) start end_
      (reportOf C transactions period currency periodDays elapsedDays history trend) := by
  have spent := SpendingTotals.sums ((transactions.filter (counts currency period)).filter isSpending)
  have earned := IncomeTotals.sums ((transactions.filter (counts currency period)).filter isIncome)
  refine ⟨?_, ?_, ?_, ?_, ?_, ?_, ?_, adds.refunds, covers⟩
  · rw [reportOf_grossExpenses, reportOf, spent.byCategory, sum_sortedTotals]
  · rw [reportOf_grossExpenses, reportOf, spent.byMerchant, sum_sortedTotals]
  · rw [reportOf_grossExpenses, reportOf, spent.byAccount, sum_sortedTotals]
  · rw [reportOf_grossExpenses]
    exact spent.kinds
  · rw [reportOf_totalIncome, reportOf, earned.bySource, sum_sortedTotals]
  · rw [reportOf_totalIncome]
    exact adds.income
  · rw [reportOf_grossExpenses]
    exact adds.expenses

variable (C transactions currency) in
/-- The report is there within the calendar, and else an error. -/
theorem computeAnalytics_within {today : Date} (real : RealDates transactions) (order : start ≤ end_)
    (small : end_.year ≤ 9999) (now : today.year ≤ 9999) :
    (Spans (bucketOf start end_) start end_ → ∃ periodDays elapsedDays history trend,
      Settles (computeAnalytics C transactions ⟨text start, text end_⟩ currency (text today)) (.ok
        (reportOf C transactions ⟨text start, text end_⟩ currency periodDays elapsedDays history trend)) ∧
      AddsUp (transactions.filter (counts currency ⟨text start, text end_⟩)) trend ∧
      ∃ starts, Covers (transactions.filter (counts currency ⟨text start, text end_⟩)) (bucketOf start end_)
        start end_ starts trend) ∧
    (¬Spans (bucketOf start end_) start end_ → ∃ e,
      Settles (computeAnalytics C transactions ⟨text start, text end_⟩ currency (text today)) (.error e)) := by
  have first : start.year ≤ 9999 := (Date.year_le_of_digits order).trans small
  have within := counts_within currency real first small
  constructor
  · intro spans
    obtain ⟨periodDays, elapsedDays, history, settles⟩ :=
      computeAnalytics_settles first small now (buildTrend_settles spans within)
    exact ⟨periodDays, elapsedDays, history, _, settles, spans.addsUp, _, spans.covers within⟩
  · intro short
    obtain ⟨e, fails⟩ := buildTrend_fails order small short
    obtain ⟨periodDays, elapsedDays, history, settles⟩ := computeAnalytics_settles first small now fails
    exact ⟨e, settles⟩

/-- The totals reconcile just when the buckets are all within the calendar of four-digit years. -/
theorem computeAnalytics_reconciles_iff (C : Collation) (transactions : List Ledger.Transaction)
    (start end_ : Date) (currency : String) (today : Date) (real : RealDates transactions)
    (order : start ≤ end_) (small : end_.year ≤ 9999) (now : today.year ≤ 9999) :
    ∃ result, Settles (computeAnalytics C transactions ⟨text start, text end_⟩ currency (text today)) result ∧
      ((∃ report, result = .ok report ∧
        Reconciles (transactions.filter (counts currency ⟨text start, text end_⟩)) start end_ report) ↔
      Begins (bucketOf start end_) start ∧
        (next (bucketOf start end_) (startOf (bucketOf start end_) end_)).year ≤ 9999) := by
  obtain ⟨inside, outside⟩ := computeAnalytics_within transactions C currency real order small now
  by_cases spans : Spans (bucketOf start end_) start end_
  · obtain ⟨periodDays, elapsedDays, history, trend, settles, adds, covers⟩ := inside spans
    refine ⟨_, settles, fun _ => ⟨spans.begins, spans.reach⟩, fun _ => ⟨_, rfl, ?_⟩⟩
    exact reconciles_reportOf adds covers
  · obtain ⟨e, settles⟩ := outside spans
    refine ⟨_, settles, ?_, fun ⟨begins, reach⟩ => absurd ⟨order, small, begins, reach⟩ spans⟩
    rintro ⟨report, none_, -⟩
    cases none_

theorem new_year_reconciles : ∃ result,
    Settles (computeAnalytics byCharacters [grocery "a" (text newYear) (-5000) false] ⟨text newYear, text newYear⟩ "USD"
      (text newYear)) result ∧
      ((∃ report, result = .ok report ∧
        Reconciles ([grocery "a" (text newYear) (-5000) false].filter
          (counts "USD" ⟨text newYear, text newYear⟩)) newYear newYear report) ↔
      Begins (bucketOf newYear newYear) newYear ∧
        (next (bucketOf newYear newYear) (startOf (bucketOf newYear newYear) newYear)).year ≤ 9999) :=
  computeAnalytics_reconciles_iff byCharacters _ newYear newYear "USD" newYear
    (fun t there => ⟨newYear, by decide, by rw [List.mem_singleton.mp there]; rfl⟩) (Nat.le_refl _) (by decide)
    (by decide)

/-- There is no report on the last day. -/
theorem no_report_on_lastDay :
    ¬∀ (C : Collation) (transactions : List Ledger.Transaction) (start end_ : Date) (currency : String),
      RealDates transactions → start ≤ end_ → end_.year ≤ 9999 → ∃ report,
      Settles (computeAnalytics C transactions ⟨text start, text end_⟩ currency (text end_)) (.ok report) ∧
        Reconciles (transactions.filter (counts currency ⟨text start, text end_⟩)) start end_ report := by
  intro all
  obtain ⟨report, settles, -⟩ := all byCharacters [] Texts.lastDay Texts.lastDay "USD" (fun t there => absurd there List.not_mem_nil)
    (Nat.le_refl _) (by decide)
  have short : ¬Spans (bucketOf Texts.lastDay Texts.lastDay) Texts.lastDay Texts.lastDay := fun spans =>
    absurd spans.reach (by decide +kernel)
  obtain ⟨e, fails⟩ := (@computeAnalytics_within Texts.lastDay Texts.lastDay [] byCharacters "USD" Texts.lastDay
    (fun t there => absurd there List.not_mem_nil) (Nat.le_refl _) (by decide) (by decide)).2 short
  have both := settles.unique fails
  cases both

/-! ### One answer -/

/-- The rows of a summary are those that the analytics count. -/
theorem rowsOf_eq (transactions : List Ledger.Transaction) (period : DateRange) (currency : String) :
    rowsOf transactions period currency = transactions.filter (counts currency period) := by
  rw [rowsOf, settled, List.filter_filter]
  apply List.filter_congr
  intro t _
  rw [counts, Bool.and_assoc, Bool.and_assoc, Bool.and_assoc]

theorem sum_earned (rows : List Ledger.Transaction) : sumOf (·.amount) (rows.filter isEarned) =
    sumOf (·.amount) (rows.filter isIncome) + sumOf (·.amount) (rows.filter isRefund) := by
  have refunds : isIncomeCategory "refunds" = true := by decide +kernel
  induction rows with
  | nil => rfl
  | cons t rows ih =>
    simp only [sumOf, List.filter_cons] at ih ⊢
    by_cases refund : t.categorySlug = "refunds"
    · by_cases positive : 0 < t.amount
      · simp only [isEarned, isIncome, isRefund, refund, refunds, positive, decide_true, Bool.and_self, ne_eq,
          not_true_eq_false, decide_false, Bool.and_false, if_true, Bool.false_eq_true, if_false,
          List.map_cons, List.sum_cons, ih]
        omega
      · simp only [isEarned, isIncome, isRefund, positive, decide_false, Bool.and_false, Bool.false_and,
          Bool.false_eq_true, if_false, ih]
    · have same : isIncome t = isEarned t := by simp [isIncome, refund]
      have other : isRefund t = false := by simp [isRefund, refund]
      simp only [same, other, Bool.false_eq_true, if_false]
      split
      · simp only [List.map_cons, List.sum_cons, ih]
        omega
      · exact ih

/-- The three answers on what was saved are the same just when no more came back than was spent. -/
theorem saved_iff {period history : DateRange} {periodDays elapsedDays : Option Int} {summary : PeriodSummary}
    {trend : List AnalyticsTrendPoint} (summarized : summarizePeriod transactions period currency = .ok summary)
    (adds : AddsUp (transactions.filter (counts currency period)) trend) :
    (summary.netCashFlow =
        (reportOf C transactions period currency periodDays elapsedDays history trend).savings ∧
      (reportOf C transactions period currency periodDays elapsedDays history trend).savings =
        (trend.map (·.net)).sum) ↔
    sumOf (·.amount) ((transactions.filter (counts currency period)).filter isRefund) ≤
      sumOf expenseAmount ((transactions.filter (counts currency period)).filter isSpending) := by
  have summary_ := summarizes summarized
  have net := summary_.net
  rw [summary_.income, summary_.expenses, rowsOf_eq] at net
  have earned := sum_earned (transactions.filter (counts currency period))
  have gross := @reportOf_grossExpenses transactions C currency period history periodDays elapsedDays trend
  have income := @reportOf_totalIncome transactions C currency period history periodDays elapsedDays trend
  have savings : (reportOf C transactions period currency periodDays elapsedDays history trend).savings =
      (reportOf C transactions period currency periodDays elapsedDays history trend).totalIncome -
      max 0 ((reportOf C transactions period currency periodDays elapsedDays history trend).grossExpenses -
        sumOf (·.amount) ((transactions.filter (counts currency period)).filter isRefund)) := rfl
  have outflows : (((transactions.filter (counts currency period)).filter isSpent).map outflow).sum =
      sumOf expenseAmount ((transactions.filter (counts currency period)).filter isSpending) := rfl
  have incomes : (((transactions.filter (counts currency period)).filter isEarned).map (·.amount)).sum =
      sumOf (·.amount) ((transactions.filter (counts currency period)).filter isEarned) := rfl
  rw [outflows, incomes, earned] at net
  rw [savings, gross, income, adds.net, net]
  omega

/-- What was saved is one number just when there is a report, and no more came back than was spent. -/
theorem saved_agree_iff (C : Collation) (transactions : List Ledger.Transaction) (start end_ : Date)
    (currency : String) (today : Date) (real : RealDates transactions) (first : start.year ≤ 9999)
    (small : end_.year ≤ 9999) (now : today.year ≤ 9999) : ∃ summary result,
    summarizePeriod transactions ⟨text start, text end_⟩ currency = .ok summary ∧
    Settles (computeAnalytics C transactions ⟨text start, text end_⟩ currency (text today)) result ∧
      ((∃ report, result = .ok report ∧ summary.netCashFlow = report.savings ∧
        report.savings = (report.trend.map (·.net)).sum) ↔
      (start ≤ end_ → Begins (bucketOf start end_) start ∧
        (next (bucketOf start end_) (startOf (bucketOf start end_) end_)).year ≤ 9999) ∧
      sumOf (·.amount) ((transactions.filter (counts currency ⟨text start, text end_⟩)).filter isRefund) ≤
        sumOf expenseAmount
          ((transactions.filter (counts currency ⟨text start, text end_⟩)).filter isSpending)) := by
  obtain ⟨summary, summarized⟩ : ∃ summary,
      summarizePeriod transactions ⟨text start, text end_⟩ currency = .ok summary := by
    rw [summarizePeriod, daysBetweenInclusive_text first small]
    exact ⟨_, rfl⟩
  have within := counts_within currency real first small
  by_cases order : start ≤ end_
  · obtain ⟨inside, outside⟩ := computeAnalytics_within transactions C currency real order small now
    by_cases spans : Spans (bucketOf start end_) start end_
    · obtain ⟨periodDays, elapsedDays, history, trend, settles, adds, -⟩ := inside spans
      refine ⟨summary, _, summarized, settles, ?_⟩
      rw [← saved_iff summarized adds]
      constructor
      · rintro ⟨report, same, agree⟩
        obtain rfl := Except.ok.inj same
        exact ⟨fun _ => ⟨spans.begins, spans.reach⟩, agree⟩
      · intro holds
        exact ⟨_, rfl, holds.2⟩
    · obtain ⟨e, settles⟩ := outside spans
      refine ⟨summary, _, summarized, settles, ?_, ?_⟩
      · rintro ⟨report, none_, -⟩
        cases none_
      · intro holds
        obtain ⟨begins, reach⟩ := holds.1 order
        exact absurd ⟨order, small, begins, reach⟩ spans
  · have none_ : transactions.filter (counts currency ⟨text start, text end_⟩) = [] := by
      rw [List.eq_nil_iff_forall_not_mem]
      intro t there
      obtain ⟨date, -, low, high⟩ := within t there
      exact order (Date.le_trans low high)
    have empty := buildTrend_empty first small order
    rw [← none_] at empty
    obtain ⟨periodDays, elapsedDays, history, settles⟩ := computeAnalytics_settles first small now empty
    have adds : AddsUp (transactions.filter (counts currency ⟨text start, text end_⟩)) [] := by
      rw [none_]
      exact ⟨rfl, rfl, rfl, rfl⟩
    refine ⟨summary, _, summarized, settles, ?_⟩
    rw [← saved_iff summarized adds]
    constructor
    · rintro ⟨report, same, agree⟩
      obtain rfl := Except.ok.inj same
      exact ⟨fun le => absurd le order, agree⟩
    · intro holds
      exact ⟨_, rfl, holds.2⟩

def refundRow : Ledger.Transaction := { grocery "r" (text newYear) 1000 false with categorySlug := "refunds" }

theorem new_year_saved_agree : ∃ summary result,
    summarizePeriod [refundRow] ⟨text newYear, text newYear⟩ "USD" = .ok summary ∧
    Settles (computeAnalytics byCharacters [refundRow] ⟨text newYear, text newYear⟩ "USD" (text newYear))
      result ∧
      ((∃ report, result = .ok report ∧ summary.netCashFlow = report.savings ∧
        report.savings = (report.trend.map (·.net)).sum) ↔
      (newYear ≤ newYear → Begins (bucketOf newYear newYear) newYear ∧
        (next (bucketOf newYear newYear) (startOf (bucketOf newYear newYear) newYear)).year ≤ 9999) ∧
      sumOf (·.amount) (([refundRow].filter (counts "USD" ⟨text newYear, text newYear⟩)).filter isRefund) ≤
        sumOf expenseAmount
          (([refundRow].filter (counts "USD" ⟨text newYear, text newYear⟩)).filter isSpending)) :=
  saved_agree_iff byCharacters _ newYear newYear "USD" newYear
    (fun t there => ⟨newYear, by decide, by rw [List.mem_singleton.mp there]; rfl⟩) (by decide) (by decide)
    (by decide)

/-- A refund of 10.00 in a period without spending: 10.00 by the summary, nothing by the analytics. -/
theorem refund_saved_twice :
    ¬∀ (C : Collation) (transactions : List Ledger.Transaction) (start end_ : Date) (currency : String),
      RealDates transactions → start.year ≤ 9999 → end_.year ≤ 9999 → ∃ summary report,
      summarizePeriod transactions ⟨text start, text end_⟩ currency = .ok summary ∧
      Settles (computeAnalytics C transactions ⟨text start, text end_⟩ currency (text end_)) (.ok report) ∧
        summary.netCashFlow = report.savings ∧ report.savings = (report.trend.map (·.net)).sum := by
  intro all
  have real : RealDates [refundRow] := fun t there =>
    ⟨newYear, by decide, by rw [List.mem_singleton.mp there]; rfl⟩
  obtain ⟨summary, report, summarized, settles, agree⟩ := all byCharacters [refundRow] newYear newYear "USD" real
    (by decide) (by decide)
  have spans : Spans (bucketOf newYear newYear) newYear newYear :=
    ⟨Nat.le_refl _, by decide, by decide +kernel, by decide +kernel⟩
  obtain ⟨periodDays, elapsedDays, history, trend, settles', adds, -⟩ :=
    (@computeAnalytics_within newYear newYear [refundRow] byCharacters "USD" newYear real (Nat.le_refl _)
      (by decide) (by decide)).1 spans
  obtain rfl := Except.ok.inj (settles.unique settles')
  exact absurd ((saved_iff summarized adds).mp agree) (by decide +kernel)

end Finverse.Insights
