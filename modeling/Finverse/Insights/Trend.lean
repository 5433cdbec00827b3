import Finverse.Insights.Buckets
import Finverse.Ledger.Pages
import Mathlib.Data.List.Range

/-! The trend on texts: what its loop goes through, and what its points add up to. -/

namespace Finverse.Insights

open Analytics (startOfMonth)
open Fuel (Settles whileRun)
open Ledger (DateRange IsoDate charUnits codeUnits isWithin unitsBefore)
open Scheduled (DateError isIsoDate slice text)
open Tally (tally)
open TrendBucket (Opens Begins index later next startOf)

variable {bucket : TrendBucket} {date other start end_ : Date}

/-! ### The order of texts -/

theorem codeUnits_ascii {s : String} (ascii : ∀ c ∈ s.toList, c.toNat < 0x10000) :
    codeUnits s = s.toList.map Char.toNat := by
  rw [codeUnits]
  generalize s.toList = cs at ascii
  induction cs with
  | nil => rfl
  | cons c cs ih =>
    have one : charUnits c = [c.toNat] := if_pos (ascii c List.mem_cons_self)
    rw [List.flatMap_cons, List.map_cons, one, ih fun d there => ascii d (List.mem_cons_of_mem _ there)]
    rfl

theorem text_ascii (small : date.year ≤ 9999) : ∀ c ∈ (text date).toList, c.toNat < 0x10000 := by
  have digit {c : Char} (digit : c.isDigit = true) : c.toNat < 0x10000 :=
    Nat.lt_of_le_of_lt (Scheduled.digit_bounds digit).2 (by decide)
  have dash : '-'.toNat < 0x10000 := by decide
  intro c there
  rw [Scheduled.text_toList small, List.mem_append, List.mem_append, List.mem_cons, List.mem_cons] at there
  rcases there with (year | rfl | month) | rfl | day
  · exact digit (Imports.padStart_digits _ _ c year)
  · exact dash
  · exact digit (Imports.padStart_digits _ _ c month)
  · exact dash
  · exact digit (Imports.padStart_digits _ _ c day)

theorem lex_toNat_iff {cs ds : List Char} :
    List.Lex (· < ·) (cs.map Char.toNat) (ds.map Char.toNat) ↔ cs < ds := by
  induction cs generalizing ds with
  | nil => cases ds <;> simp
  | cons c cs ih =>
    cases ds with
    | nil => simp
    | cons d ds =>
      rw [List.map_cons, List.map_cons, List.cons_lex_cons_iff, List.cons_lt_cons_iff, ih, Char.toNat_inj,
        Char.lt_def, UInt32.lt_iff_toNat_lt]
      rfl

theorem unitsBefore_text (left : date.year ≤ 9999) (right : other.year ≤ 9999) :
    unitsBefore (text date) (text other) = true ↔ date.digits < other.digits := by
  rw [Ledger.unitsBefore_iff, codeUnits_ascii (text_ascii left), codeUnits_ascii (text_ascii right),
    lex_toNat_iff, ← String.lt_iff_toList_lt, Scheduled.text_lt_iff left right]

theorem isWithin_text (small : date.year ≤ 9999) (first : start.year ≤ 9999) (last : end_.year ≤ 9999) :
    isWithin (text date) ⟨text start, text end_⟩ = true ↔ start ≤ date ∧ date ≤ end_ := by
  rw [isWithin, Bool.and_eq_true, Bool.not_eq_true', Bool.not_eq_true', ← Bool.not_eq_true, ← Bool.not_eq_true,
    unitsBefore_text small first, unitsBefore_text last small]
  exact and_congr Nat.not_lt Nat.not_lt

/-! ### Days before a date, and weeks -/

theorem toUtcDate_head {value : IsoDate} {c : Char} {cs : List Char} (parts : value.toList = c :: cs)
    (other : c.isDigit = false) : ∃ e, Scheduled.toUtcDate value = .error e := by
  have not_iso : isIsoDate value = false := by
    by_contra iso
    obtain ⟨d, ds, same, digit⟩ := Scheduled.digit_head (Bool.eq_true_of_not_eq_false iso)
    rw [parts, List.cons.injEq] at same
    rw [← same.1, other] at digit
    cases digit
  rw [Scheduled.toUtcDate, Scheduled.assertIsoDate, throwIf, if_pos not_iso]
  exact ⟨_, rfl⟩

theorem subDays_text (small : date.year ≤ 9999) {days : Nat} (some_ : days < date.number) :
    subDays (text date) days = .ok (text (ofNumber (date.number - days))) := by
  rw [subDays, Scheduled.toUtcDate_text small]
  exact if_pos some_

theorem beforeZero_head (date : Date) : ∃ cs, (String.ofList (slice 0 10 (beforeZero date))).toList = '-' :: cs := by
  rw [String.toList_ofList]
  exact ⟨_, rfl⟩

/-- A day before the year 0 has a text that is of no date. -/
theorem subDays_before (small : date.year ≤ 9999) {days : Nat} (many : date.number ≤ days) :
    ∃ value, subDays (text date) days = .ok value ∧ ∃ cs, value.toList = '-' :: cs := by
  refine ⟨_, ?_, beforeZero_head (ofNumber (date.number + 146097 - days))⟩
  rw [subDays, Scheduled.toUtcDate_text small]
  exact if_neg (Nat.not_lt.mpr many)

theorem subDays_ok (small : date.year ≤ 9999) (days : Nat) : ∃ value, subDays (text date) days = .ok value := by
  rcases Nat.lt_or_ge days date.number with some_ | many
  · exact ⟨_, subDays_text small some_⟩
  · obtain ⟨value, done, -⟩ := subDays_before small many
    exact ⟨value, done⟩

theorem weekRange_eq (small : date.year ≤ 9999) {start : IsoDate}
    (monday : subDays (text date) ((getUTCDay date + 6) % 7) = .ok start) :
    weekRange (text date) = (Scheduled.addDays start 6).map fun end_ => ⟨start, end_⟩ := by
  unfold weekRange
  rw [Scheduled.toUtcDate_text small]
  dsimp only [bind, Except.bind]
  rw [monday]
  dsimp only
  cases Scheduled.addDays start 6 <;> rfl

theorem startOfMonth_text (small : date.year ≤ 9999) : startOfMonth (text date) = text (date.firstOfMonth 0) := by
  have month := date.month_valid
  have year : (date.firstOfMonth 0).year = date.year := by
    simp only [Date.firstOfMonth]
    omega
  have same : (date.firstOfMonth 0).month = date.month := by
    simp only [Date.firstOfMonth]
    omega
  have front : (text date).toList.take 7 = Imports.padStart 4 date.year ++ '-' :: Imports.padStart 2 date.month :=
    (Scheduled.slices_text small).2.2.2
  have first : Imports.padStart 2 (date.firstOfMonth 0).day = ['0', '1'] := by
    show Imports.padStart 2 1 = _
    decide +kernel
  rw [startOfMonth, front, ← String.toList_inj, Scheduled.text_toList (year.trans_le small), year, same, first,
    String.toList_append, String.toList_ofList]
  rfl

/-! ### The buckets of texts -/

theorem trendBucketStart_text (small : date.year ≤ 9999) (begins : Begins bucket date) :
    trendBucketStart (text date) bucket = .ok (text (startOf bucket date)) := by
  cases bucket with
  | day => rfl
  | week =>
    have three := begins rfl
    have some_ : (getUTCDay date + 6) % 7 < date.number := by
      rw [getUTCDay]
      omega
    have year : (startOf .week date).year ≤ 9999 :=
      (Date.year_le_of_digits (TrendBucket.startOf_le begins)).trans small
    rw [trendBucketStart, weekRange_eq small (subDays_text small some_)]
    show Except.map _ ((Scheduled.addDays (text (startOf .week date)) 6).map _) = _
    rw [Scheduled.addDays_text year 6]
    rfl
  | month => exact congrArg Except.ok (startOfMonth_text small)

/-- A week that begins before the year 0 throws. -/
theorem trendBucketStart_early (small : date.year ≤ 9999) (early : ¬Begins bucket date) :
    ∃ e, trendBucketStart (text date) bucket = .error e := by
  rw [Begins, Classical.not_imp, Nat.not_le] at early
  obtain ⟨rfl, few⟩ := early
  have pos := number_pos date
  have many : date.number ≤ (getUTCDay date + 6) % 7 := by
    rw [getUTCDay]
    omega
  obtain ⟨value, monday, cs, parts⟩ := subDays_before small many
  obtain ⟨e, fails⟩ := toUtcDate_head parts (by decide)
  rw [trendBucketStart, weekRange_eq small monday, Scheduled.addDays, fails]
  exact ⟨e, rfl⟩

theorem nextTrendBucket_turn (bucket : TrendBucket) : (fun date => nextTrendBucket date bucket) =
    Texts.turn id bucket.cadence bucket.interval := by
  funext date
  have same : nextTrendBucket date bucket = Texts.nextOccurrence date bucket.cadence bucket.interval := by
    cases bucket <;> rfl
  rw [same, Texts.turn]
  cases Texts.nextOccurrence date bucket.cadence bucket.interval <;> rfl

/-! ### The loop over the buckets -/

/-- The buckets from that of one date to that of another. -/
def bucketsOf (bucket : TrendBucket) (start end_ : Date) : List Date :=
  (List.range (index bucket end_ - index bucket start + 1)).map (later bucket (startOf bucket start))

variable {s : Date}

theorem mem_bucketsOf (begins : Begins bucket start) (order : start ≤ end_) : s ∈ bucketsOf bucket start end_ ↔
    Opens bucket s ∧ index bucket start ≤ index bucket s ∧ index bucket s ≤ index bucket end_ := by
  have opens := TrendBucket.opens_startOf begins
  have between := TrendBucket.index_mono bucket order
  constructor
  · intro there
    obtain ⟨k, low, rfl⟩ := List.mem_map.mp there
    obtain ⟨opens', index'⟩ := TrendBucket.opens_later opens k
    rw [TrendBucket.index_startOf begins] at index'
    have few := List.mem_range.mp low
    exact ⟨opens', by omega, by omega⟩
  · rintro ⟨opens', low, high⟩
    obtain ⟨same, index'⟩ := TrendBucket.opens_later opens (index bucket s - index bucket start)
    rw [TrendBucket.index_startOf begins] at index'
    refine List.mem_map.mpr ⟨index bucket s - index bucket start, List.mem_range.mpr (by omega), ?_⟩
    exact same.2.symm.trans ((TrendBucket.startOf_congr (by omega)).trans opens'.2)

theorem year_bucketsOf (begins : Begins bucket start) (order : start ≤ end_) (small : end_.year ≤ 9999)
    (there : s ∈ bucketsOf bucket start end_) : s.year ≤ 9999 := by
  obtain ⟨⟨begins', same⟩, -, last⟩ := (mem_bucketsOf begins order).mp there
  rcases Date.le_total s end_ with le | le
  · exact (Date.year_le_of_digits le).trans small
  · have equal : index bucket s = index bucket end_ := Nat.le_antisymm last (TrendBucket.index_mono bucket le)
    rw [← same, TrendBucket.startOf_congr equal]
    exact (Date.year_le_of_digits (TrendBucket.startOf_le (begins.mono order))).trans small

/-- Each date from the one to the other is in one bucket. -/
theorem bucketsOf_covers (begins : Begins bucket start) (order : start ≤ end_) (low : start ≤ date)
    (high : date ≤ end_) :
    ∃! s, s ∈ bucketsOf bucket start end_ ∧ s ≤ date ∧ date.digits < (next bucket s).digits := by
  have begins' := begins.mono low
  have opens := TrendBucket.opens_startOf begins'
  have within : startOf bucket date ∈ bucketsOf bucket start end_ := by
    rw [mem_bucketsOf begins order, TrendBucket.index_startOf begins']
    exact ⟨opens, TrendBucket.index_mono bucket low, TrendBucket.index_mono bucket high⟩
  refine ⟨startOf bucket date, ⟨within, (TrendBucket.startOf_eq_iff opens begins').mp rfl⟩, ?_⟩
  rintro other ⟨there, falls⟩
  exact ((TrendBucket.startOf_eq_iff ((mem_bucketsOf begins order).mp there).1 begins').mpr falls).symm

theorem bucketsOf_chain (bucket : TrendBucket) (start end_ : Date) :
    (bucketsOf bucket start end_).IsChain fun s s' => s' = next bucket s := by
  rw [bucketsOf, List.isChain_map, List.isChain_range]
  exact fun k _ => TrendBucket.later_succ _ k

theorem bucketsOf_sorted (bucket : TrendBucket) (start end_ : Date) :
    (bucketsOf bucket start end_).Pairwise fun s s' => s.digits < s'.digits := by
  rw [bucketsOf, List.pairwise_map]
  refine List.pairwise_lt_range.imp fun {j k} earlier => ?_
  exact strictMono_nat_of_lt_succ (Texts.after_lt bucket.steps (startOf bucket start)) earlier

/-- The bucket after the last one. -/
theorem later_last (begins : Begins bucket start) (order : start ≤ end_) :
    later bucket (startOf bucket start) (index bucket end_ - index bucket start + 1) =
      next bucket (startOf bucket end_) := by
  have first := TrendBucket.opens_startOf begins
  have low : startOf bucket start ≤ end_ := Date.le_trans (TrendBucket.startOf_le begins) order
  rw [TrendBucket.later_succ, TrendBucket.startOf_eq_later first low, TrendBucket.index_startOf begins]

section Loop

variable (begins : Begins bucket start) (order : start ≤ end_) (small : end_.year ≤ 9999)

include begins order

theorem later_before : ∀ j < index bucket end_ - index bucket start + 1,
    later bucket (startOf bucket start) j ≤ startOf bucket end_ := by
  intro j low
  have ends := begins.mono order
  obtain ⟨opens, index'⟩ := TrendBucket.opens_later (TrendBucket.opens_startOf begins) j
  have between := TrendBucket.index_mono bucket order
  refine TrendBucket.le_of_index opens (TrendBucket.opens_startOf ends) ?_
  rw [index', TrendBucket.index_startOf begins, TrendBucket.index_startOf ends]
  omega

include small

theorem year_startOf : (startOf bucket end_).year ≤ 9999 :=
  (Date.year_le_of_digits (TrendBucket.startOf_le (begins.mono order))).trans small

/-- The loop stops at the bucket after the last one. -/
theorem buckets_settle (reach : (next bucket (startOf bucket end_)).year ≤ 9999) : ∃ last,
    Settles (fun fuel => whileRun (fun date => decide (date ≤ text (startOf bucket end_)))
      (fun date => nextTrendBucket date bucket) fuel (text (startOf bucket start)))
      (.ok ((bucketsOf bucket start end_).map text, last)) := by
  have last := later_last begins order
  have past : (startOf bucket end_).digits <
      (later bucket (startOf bucket start) (index bucket end_ - index bucket start + 1)).digits := by
    rw [last]
    exact Texts.lt_nextOccurrence bucket.steps _
  rw [← last] at reach
  have settles := Texts.loop_settles id (year_startOf begins order small) (later_before begins order) past reach
  rw [nextTrendBucket_turn, bucketsOf, List.map_map]
  exact ⟨_, settles⟩

/-- The loop throws where that bucket begins past the year 9999. -/
theorem buckets_fail (far : 9999 < (next bucket (startOf bucket end_)).year) : ∃ e,
    Settles (fun fuel => whileRun (fun date => decide (date ≤ text (startOf bucket end_)))
      (fun date => nextTrendBucket date bucket) fuel (text (startOf bucket start))) (.error e) := by
  rw [nextTrendBucket_turn]
  refine Texts.loop_fails id (year_startOf begins order small) (later_before begins order) ?_
  rwa [← later_last begins order] at far

end Loop

/-! ### The rows in the buckets -/

/-- The key that a row goes into. -/
def bucketKey (bucket : TrendBucket) (t : Ledger.Transaction) : IsoDate :=
  (trendBucketStart t.postedAt bucket).toOption.getD t.postedAt

def intoBucket (bucket : TrendBucket) (t : Ledger.Transaction) (point : Option AnalyticsTrendPoint) :
    AnalyticsTrendPoint :=
  (point.getD (emptyTrendPoint (bucketKey bucket t))).row t

variable {rows : List Ledger.Transaction} {points : OrdMap IsoDate AnalyticsTrendPoint}

theorem addToTrend_tally (each : ∀ t ∈ rows, ∃ key, trendBucketStart t.postedAt bucket = .ok key) :
    rows.foldlM (addToTrend bucket) points =
      .ok (tally (bucketKey bucket) (intoBucket bucket) points rows) := by
  induction rows generalizing points with
  | nil => rfl
  | cons t rows ih =>
    obtain ⟨key, started⟩ := each t List.mem_cons_self
    have one : addToTrend bucket points t =
        .ok (Tally.add (bucketKey bucket) (intoBucket bucket) points t) := by
      rw [addToTrend, Tally.add, intoBucket, bucketKey, started]
      rfl
    rw [List.foldlM_cons, one]
    exact ih fun other there => each other (List.mem_cons_of_mem _ there)

/-- The rows are of dates from the one to the other. -/
def Within (start end_ : Date) (rows : List Ledger.Transaction) : Prop :=
  ∀ t ∈ rows, ∃ date : Date, t.postedAt = text date ∧ start ≤ date ∧ date ≤ end_

/-- The trend over some buckets, with the rows. -/
def pointsOf (bucket : TrendBucket) (starts : List Date) (rows : List Ledger.Transaction) :
    OrdMap IsoDate AnalyticsTrendPoint :=
  tally (bucketKey bucket) (intoBucket bucket)
    (tally id (fun date _ => emptyTrendPoint date) ∅ (starts.map text)) rows

theorem bucketKey_text {t : Ledger.Transaction} (small : date.year ≤ 9999) (begins : Begins bucket date)
    (dated : t.postedAt = text date) : bucketKey bucket t = text (startOf bucket date) := by
  rw [bucketKey, dated, trendBucketStart_text small begins]
  rfl

/-! ### What a row adds -/

def incomeAmount (t : Ledger.Transaction) : Int := if isIncome t then t.amount else 0

def refundAmount (t : Ledger.Transaction) : Int := if isRefund t then t.amount else 0

def spentAmount (t : Ledger.Transaction) : Int := if isSpending t then expenseAmount t else 0

theorem isRefund_income {t : Ledger.Transaction} (refund : isRefund t = true) : isIncome t = false := by
  rw [isRefund, Bool.and_eq_true, decide_eq_true_eq] at refund
  simp [isIncome, refund.1]

theorem isSpending_others {t : Ledger.Transaction} (spending : isSpending t = true) :
    isIncome t = false ∧ isRefund t = false := by
  rw [isSpending, Bool.and_eq_true, decide_eq_true_eq] at spending
  have less : ¬0 < t.amount := by omega
  constructor
  · simp [isIncome, isEarned, less]
  · simp [isRefund, less]

/-- A row counts once. -/
theorem row_adds (point : AnalyticsTrendPoint) (t : Ledger.Transaction) :
    (point.row t).date = point.date ∧ (point.row t).income = point.income + incomeAmount t ∧
      (point.row t).refunds = point.refunds + refundAmount t ∧
      (point.row t).expenses = point.expenses + spentAmount t ∧
      (point.row t).net = (point.row t).income + (point.row t).refunds - (point.row t).expenses := by
  unfold AnalyticsTrendPoint.row incomeAmount refundAmount spentAmount
  by_cases income : isIncome t = true
  · have refund : isRefund t = false := by
      by_contra refund
      rw [isRefund_income (Bool.eq_true_of_not_eq_false refund)] at income
      cases income
    have spending : isSpending t = false := by
      by_contra spending
      rw [(isSpending_others (Bool.eq_true_of_not_eq_false spending)).1] at income
      cases income
    simp [income, refund, spending]
  · by_cases refund : isRefund t = true
    · have spending : isSpending t = false := by
        by_contra spending
        rw [(isSpending_others (Bool.eq_true_of_not_eq_false spending)).2] at refund
        cases refund
      simp [income, refund, spending]
    · by_cases spending : isSpending t = true
      · simp [income, refund, spending]
      · simp [income, refund, spending]

theorem sum_incomeAmount (rows : List Ledger.Transaction) :
    (rows.map incomeAmount).sum = sumOf (·.amount) (rows.filter isIncome) :=
  (Tally.sum_filter _ _ _).symm

theorem sum_refundAmount (rows : List Ledger.Transaction) :
    (rows.map refundAmount).sum = sumOf (·.amount) (rows.filter isRefund) :=
  (Tally.sum_filter _ _ _).symm

theorem sum_spentAmount (rows : List Ledger.Transaction) :
    (rows.map spentAmount).sum = sumOf expenseAmount (rows.filter isSpending) :=
  (Tally.sum_filter _ _ _).symm

/-! ### What the points add up to -/

/-- A row is in a bucket: from its first day on, and before the next one. -/
def falls (bucket : TrendBucket) (s : Date) (t : Ledger.Transaction) : Bool :=
  decide (text s ≤ t.postedAt) && decide (t.postedAt < text (next bucket s))

/-- The point of a bucket, with the rows in it. -/
structure PointOf (rows : List Ledger.Transaction) (bucket : TrendBucket) (s : Date)
    (point : AnalyticsTrendPoint) : Prop where
  date : point.date = text s
  income : point.income = sumOf (·.amount) ((rows.filter (falls bucket s)).filter isIncome)
  refunds : point.refunds = sumOf (·.amount) ((rows.filter (falls bucket s)).filter isRefund)
  expenses : point.expenses = sumOf expenseAmount ((rows.filter (falls bucket s)).filter isSpending)
  net : point.net = point.income + point.refunds - point.expenses

/-- The points are those of the buckets that cover the period, one after another. -/
structure Covers (rows : List Ledger.Transaction) (bucket : TrendBucket) (start end_ : Date)
    (starts : List Date) (trend : List AnalyticsTrendPoint) : Prop where
  consecutive : starts.IsChain fun s s' => s' = next bucket s
  covers : ∀ date, start ≤ date → date ≤ end_ →
    ∃! s, s ∈ starts ∧ s ≤ date ∧ date.digits < (next bucket s).digits
  points : List.Forall₂ (PointOf rows bucket) starts trend
  once : ∀ t ∈ rows, ∃! s, s ∈ starts ∧ falls bucket s t = true

/-- All points together have all rows. -/
structure AddsUp (rows : List Ledger.Transaction) (trend : List AnalyticsTrendPoint) : Prop where
  income : (trend.map (·.income)).sum = sumOf (·.amount) (rows.filter isIncome)
  refunds : (trend.map (·.refunds)).sum = sumOf (·.amount) (rows.filter isRefund)
  expenses : (trend.map (·.expenses)).sum = sumOf expenseAmount (rows.filter isSpending)
  net : (trend.map (·.net)).sum = sumOf (·.amount) (rows.filter isIncome) +
    sumOf (·.amount) (rows.filter isRefund) - sumOf expenseAmount (rows.filter isSpending)

theorem sum_nets (points : List AnalyticsTrendPoint) :
    (points.map fun point => point.income + point.refunds - point.expenses).sum =
      (points.map (·.income)).sum + (points.map (·.refunds)).sum - (points.map (·.expenses)).sum := by
  induction points with
  | nil => rfl
  | cons point points ih =>
    simp only [List.map_cons, List.sum_cons, ih]
    omega

section Points

variable {starts : List Date} {key : IsoDate} {measure : AnalyticsTrendPoint → Int}
  {amount : Ledger.Transaction → Int}

theorem empty_points (nodup : (starts.map text).Nodup) :
    (tally id (fun date _ => emptyTrendPoint date) ∅ (starts.map text)).entries =
      (starts.map text).map fun date => (date, emptyTrendPoint date) :=
  Tally.entries_tally (by rwa [List.map_id])

theorem pointsOf_keys (nodup : (starts.map text).Nodup)
    (known : ∀ t ∈ rows, bucketKey bucket t ∈ starts.map text) :
    (pointsOf bucket starts rows).entries.map Prod.fst = starts.map text := by
  have keys : (tally id (fun date _ => emptyTrendPoint date) ∅ (starts.map text)).entries.map Prod.fst =
      starts.map text := by
    rw [empty_points nodup, List.map_map]
    exact List.map_id _
  rw [pointsOf, Tally.keys_tally (by rwa [keys]), keys]

theorem pointsOf_entries (nodup : (starts.map text).Nodup) : ∀ e ∈ (pointsOf bucket starts rows).entries,
    e.2.date = e.1 ∧ e.2.net = e.2.income + e.2.refunds - e.2.expenses := by
  refine @Tally.forall_tally _ _ _ _ (bucketKey bucket) (intoBucket bucket) rows _
    (fun key point => point.date = key ∧ point.net = point.income + point.refunds - point.expenses) ?_ ?_
  · rw [empty_points nodup]
    intro e there
    obtain ⟨date, -, rfl⟩ := List.mem_map.mp there
    exact ⟨rfl, rfl⟩
  · intro t point before
    obtain ⟨date, -, -, -, net⟩ := row_adds (point.getD (emptyTrendPoint (bucketKey bucket t))) t
    refine ⟨date.trans ?_, net⟩
    cases point with
    | none => rfl
    | some point => exact (before point rfl).1

theorem intoBucket_adds (adds : ∀ point t, measure (AnalyticsTrendPoint.row point t) = measure point + amount t)
    (zero : ∀ date, measure (emptyTrendPoint date) = 0) (t : Ledger.Transaction)
    (point : Option AnalyticsTrendPoint) :
    measure (intoBucket bucket t point) = (point.map measure).getD 0 + amount t := by
  rw [intoBucket, adds]
  cases point with
  | none => rw [Option.getD_none, zero]; rfl
  | some point => rfl

variable (bucket rows) in
theorem pointsOf_sum (nodup : (starts.map text).Nodup)
    (adds : ∀ point t, measure (AnalyticsTrendPoint.row point t) = measure point + amount t)
    (zero : ∀ date, measure (emptyTrendPoint date) = 0) :
    ((pointsOf bucket starts rows).values.map measure).sum = (rows.map amount).sum := by
  have none_ : ((tally id (fun date _ => emptyTrendPoint date) ∅ (starts.map text)).values.map measure).sum =
      0 := by
    rw [OrdMap.values, empty_points nodup, List.map_map, List.map_map]
    refine List.sum_eq_zero fun x there => ?_
    obtain ⟨date, -, rfl⟩ := List.mem_map.mp there
    exact zero date
  rw [pointsOf, Tally.sum_tally (intoBucket_adds adds zero), none_, zero_add]

theorem pointsOf_measure (nodup : (starts.map text).Nodup)
    (adds : ∀ point t, measure (AnalyticsTrendPoint.row point t) = measure point + amount t)
    (zero : ∀ date, measure (emptyTrendPoint date) = 0) {point : AnalyticsTrendPoint}
    (found : (pointsOf bucket starts rows).get? key = some point) :
    measure point = ((rows.filter (bucketKey bucket · = key)).map amount).sum := by
  have none_ : (((tally id (fun date _ => emptyTrendPoint date) ∅ (starts.map text)).get? key).map
      measure).getD 0 = 0 := by
    cases first : (tally id (fun date _ => emptyTrendPoint date) ∅ (starts.map text)).get? key with
    | none => rfl
    | some point =>
      rw [OrdMap.get?_eq_some, empty_points nodup] at first
      obtain ⟨date, -, same⟩ := List.mem_map.mp first
      obtain ⟨-, rfl⟩ := Prod.mk.inj same
      exact zero date
  have measured := @Tally.measure_tally _ _ _ _ _ (bucketKey bucket) (intoBucket bucket) rows
    (tally id (fun date _ => emptyTrendPoint date) ∅ (starts.map text)) key _ _ _
    (intoBucket_adds adds zero)
  rw [none_, zero_add] at measured
  rw [pointsOf] at found
  rw [← measured, found]
  rfl

end Points

/-! ### The whole trend -/

theorem daysBetweenInclusive_text (first : start.year ≤ 9999) (last : end_.year ≤ 9999) :
    daysBetweenInclusive (text start) (text end_) = .ok (some (start.daysBetweenInclusive end_)) := by
  rw [daysBetweenInclusive, Scheduled.toUtcDate_text last, Scheduled.toUtcDate_text first]
  rfl

/-- How long the buckets of a period are. -/
def bucketOf (start end_ : Date) : TrendBucket := bucketFor (some (start.daysBetweenInclusive end_))

theorem trendBucket_text (first : start.year ≤ 9999) (last : end_.year ≤ 9999) :
    trendBucket ⟨text start, text end_⟩ = .ok (bucketOf start end_) := by
  rw [trendBucket, daysBetweenInclusive_text first last]
  rfl

theorem forall₂_of_keys {α β κ : Type} {R : α → β → Prop} {g : α → κ} {l : List α} {entries : List (κ × β)}
    (keys : entries.map Prod.fst = l.map g) (each : ∀ a ∈ l, ∀ e ∈ entries, e.1 = g a → R a e.2) :
    List.Forall₂ R l (entries.map Prod.snd) := by
  induction l generalizing entries with
  | nil =>
    rw [List.map_nil, List.map_eq_nil_iff] at keys
    subst keys
    exact .nil
  | cons a l ih =>
    obtain ⟨e, rest, rfl, same, keys⟩ := List.map_eq_cons_iff.mp keys
    refine .cons (each a List.mem_cons_self e List.mem_cons_self same) (ih keys fun b there other listed => ?_)
    exact each b (List.mem_cons_of_mem _ there) other (List.mem_cons_of_mem _ listed)

/-- The buckets of the period all have texts, and the one after them too. -/
structure Spans (bucket : TrendBucket) (start end_ : Date) : Prop where
  order : start ≤ end_
  small : end_.year ≤ 9999
  begins : Begins bucket start
  reach : (next bucket (startOf bucket end_)).year ≤ 9999

namespace Spans

variable (spans : Spans bucket start end_) (within : Within start end_ rows)

include spans

theorem year (there : s ∈ bucketsOf bucket start end_) : s.year ≤ 9999 :=
  year_bucketsOf spans.begins spans.order spans.small there

theorem nodup : ((bucketsOf bucket start end_).map text).Nodup := by
  refine (nodup_of_digits (bucketsOf_sorted bucket start end_)).map_on fun s there s' there' same => ?_
  exact (Scheduled.text_inj (spans.year there) (spans.year there')).mp same

theorem year_next (there : s ∈ bucketsOf bucket start end_) : (next bucket s).year ≤ 9999 := by
  have ends := spans.begins.mono spans.order
  obtain ⟨opens, -, low⟩ := (mem_bucketsOf spans.begins spans.order).mp there
  obtain ⟨opens', index'⟩ := TrendBucket.opens_next opens
  obtain ⟨last, index''⟩ := TrendBucket.opens_next (TrendBucket.opens_startOf ends)
  rw [TrendBucket.index_startOf ends] at index''
  exact (Date.year_le_of_digits (TrendBucket.le_of_index opens' last (by omega))).trans spans.reach

theorem startOf_mem (low : start ≤ date) (high : date ≤ end_) :
    startOf bucket date ∈ bucketsOf bucket start end_ := by
  have begins := spans.begins.mono low
  rw [mem_bucketsOf spans.begins spans.order, TrendBucket.index_startOf begins]
  exact ⟨TrendBucket.opens_startOf begins, TrendBucket.index_mono bucket low, TrendBucket.index_mono bucket high⟩

include within

theorem row {t : Ledger.Transaction} (there : t ∈ rows) : ∃ date : Date, t.postedAt = text date ∧
    start ≤ date ∧ date ≤ end_ ∧ date.year ≤ 9999 ∧
    trendBucketStart t.postedAt bucket = .ok (text (startOf bucket date)) ∧
    bucketKey bucket t = text (startOf bucket date) := by
  obtain ⟨date, dated, low, high⟩ := within t there
  have year : date.year ≤ 9999 := (Date.year_le_of_digits high).trans spans.small
  have begins := spans.begins.mono low
  exact ⟨date, dated, low, high, year, dated ▸ trendBucketStart_text year begins,
    bucketKey_text year begins dated⟩

/-- A row goes into the bucket that it is in. -/
theorem bucketKey_iff (there : s ∈ bucketsOf bucket start end_) {t : Ledger.Transaction} (listed : t ∈ rows) :
    bucketKey bucket t = text s ↔ falls bucket s t = true := by
  obtain ⟨date, dated, low, high, year, -, key⟩ := spans.row within listed
  have opens := ((mem_bucketsOf spans.begins spans.order).mp there).1
  rw [key, Scheduled.text_inj (spans.year (spans.startOf_mem low high)) (spans.year there),
    TrendBucket.startOf_eq_iff opens (spans.begins.mono low), falls, dated, Bool.and_eq_true,
    decide_eq_true_eq, decide_eq_true_eq, Texts.text_le_iff (spans.year there) year,
    Scheduled.text_lt_iff year (spans.year_next there)]

theorem once {t : Ledger.Transaction} (listed : t ∈ rows) :
    ∃! s, s ∈ bucketsOf bucket start end_ ∧ falls bucket s t = true := by
  obtain ⟨date, dated, low, high, year, -, key⟩ := spans.row within listed
  have mine := spans.startOf_mem low high
  refine ⟨startOf bucket date, ⟨mine, (spans.bucketKey_iff within mine listed).mp key⟩, ?_⟩
  rintro other ⟨there, fallen⟩
  have same := (spans.bucketKey_iff within there listed).mpr fallen
  rw [key, Scheduled.text_inj (spans.year mine) (spans.year there)] at same
  exact same.symm

theorem keys : (pointsOf bucket (bucketsOf bucket start end_) rows).entries.map Prod.fst =
    (bucketsOf bucket start end_).map text := by
  refine pointsOf_keys spans.nodup fun t listed => ?_
  obtain ⟨date, -, low, high, -, -, key⟩ := spans.row within listed
  rw [key]
  exact List.mem_map_of_mem (spans.startOf_mem low high)

theorem pointOf (there : s ∈ bucketsOf bucket start end_) {e : IsoDate × AnalyticsTrendPoint}
    (stored : e ∈ (pointsOf bucket (bucketsOf bucket start end_) rows).entries) (same : e.1 = text s) :
    PointOf rows bucket s e.2 := by
  obtain ⟨date, net⟩ := pointsOf_entries spans.nodup e stored
  have found : (pointsOf bucket (bucketsOf bucket start end_) rows).get? (text s) = some e.2 := by
    rw [OrdMap.get?_eq_some, ← same]
    exact stored
  have those : rows.filter (bucketKey bucket · = text s) = rows.filter (falls bucket s) := by
    apply List.filter_congr
    intro t listed
    have iff_ := spans.bucketKey_iff within there listed
    cases fallen : falls bucket s t with
    | true => exact decide_eq_true (iff_.mpr fallen)
    | false => exact decide_eq_false fun key => Bool.false_ne_true (fallen ▸ iff_.mp key)
  have income := pointsOf_measure spans.nodup (fun point t => (row_adds point t).2.1) (fun _ => rfl) found
  have refunds := pointsOf_measure spans.nodup (fun point t => (row_adds point t).2.2.1) (fun _ => rfl) found
  have expenses := pointsOf_measure spans.nodup (fun point t => (row_adds point t).2.2.2.1) (fun _ => rfl) found
  rw [those] at income refunds expenses
  exact ⟨date.trans same, income.trans (sum_incomeAmount _), refunds.trans (sum_refundAmount _),
    expenses.trans (sum_spentAmount _), net⟩

theorem covers : Covers rows bucket start end_ (bucketsOf bucket start end_)
    (pointsOf bucket (bucketsOf bucket start end_) rows).values where
  consecutive := bucketsOf_chain bucket start end_
  covers := fun _ => bucketsOf_covers spans.begins spans.order
  points := forall₂_of_keys (spans.keys within) fun _ there _ stored same =>
    spans.pointOf within there stored same
  once := fun _ listed => spans.once within listed

omit within in
theorem addsUp : AddsUp rows (pointsOf bucket (bucketsOf bucket start end_) rows).values := by
  have income := pointsOf_sum bucket rows spans.nodup
    (fun point t => (row_adds point t).2.1) fun _ => rfl
  have refunds := pointsOf_sum bucket rows spans.nodup
    (fun point t => (row_adds point t).2.2.1) fun _ => rfl
  have expenses := pointsOf_sum bucket rows spans.nodup
    (fun point t => (row_adds point t).2.2.2.1) fun _ => rfl
  rw [sum_incomeAmount] at income
  rw [sum_refundAmount] at refunds
  rw [sum_spentAmount] at expenses
  refine ⟨income, refunds, expenses, ?_⟩
  have nets : (pointsOf bucket (bucketsOf bucket start end_) rows).values.map (·.net) =
      (pointsOf bucket (bucketsOf bucket start end_) rows).values.map
        fun point => point.income + point.refunds - point.expenses := by
    rw [OrdMap.values, List.map_map, List.map_map]
    exact List.map_congr_left fun e stored => (pointsOf_entries spans.nodup e stored).2
  rw [nets, sum_nets, income, refunds, expenses]

theorem sorted : (pointsOf bucket (bucketsOf bucket start end_) rows).values.insertionSort
    (fun a b => a.date ≤ b.date) = (pointsOf bucket (bucketsOf bucket start end_) rows).values := by
  have dates : (pointsOf bucket (bucketsOf bucket start end_) rows).values.map (·.date) =
      (bucketsOf bucket start end_).map text := by
    rw [← spans.keys within, OrdMap.values, List.map_map]
    exact List.map_congr_left fun e stored => (pointsOf_entries spans.nodup e stored).1
  apply List.Pairwise.insertionSort_eq
  rw [← List.pairwise_map (f := AnalyticsTrendPoint.date) (R := (· ≤ ·)), dates, List.pairwise_map]
  refine (bucketsOf_sorted bucket start end_).imp_of_mem fun {s s'} there there' earlier => ?_
  exact le_of_lt ((Scheduled.text_lt_iff (spans.year there) (spans.year there')).mpr earlier)

end Spans

end Finverse.Insights
