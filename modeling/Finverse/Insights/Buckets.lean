import Finverse.Insights.Analytics
import Finverse.Insights.ForecastTexts

/-! The days, weeks and months of the trend: each date is in one of them. -/

namespace Finverse.Insights

open Ledger (IsoDate)
open Scheduled (DateError slice text)
open Texts (Steps after)

/-! ### Numbers -/

theorem number_pos (date : Date) : 1 ≤ date.number := by
  have day := date.day_valid
  rw [Date.number_eq]
  omega

theorem number_ofNumber {n : Nat} (pos : 1 ≤ n) : (ofNumber n).number = n := by
  have zero : yearZero.number = 1 := by decide +kernel
  rw [ofNumber, Date.number_addDays, zero]
  omega

theorem le_of_months {a b : Date} (le : a ≤ b) : a.months ≤ b.months := by
  by_contra later
  exact absurd (Date.digits_lt_of_months (Nat.lt_of_not_le later)) (Nat.not_lt.mpr le)

namespace TrendBucket

variable {bucket : TrendBucket} {first date other : Date}

/-- The days since Monday. -/
def dow (date : Date) : Nat := (getUTCDay date + 6) % 7

/-- Of dates, what `trendBucketStart` gives of their texts. -/
def startOf (bucket : TrendBucket) (date : Date) : Date :=
  match bucket with
  | .day => date
  | .week => ofNumber (date.number - dow date)
  | .month => date.firstOfMonth 0

def cadence : TrendBucket → Cadence
  | .day | .week => .weekly
  | .month => .monthly

def interval : TrendBucket → Int
  | .day => 1
  | .week => 7
  | .month => 30

/-- Of dates, what `nextTrendBucket` gives of their texts. -/
def next (bucket : TrendBucket) (date : Date) : Date := nextOccurrence date bucket.cadence bucket.interval

/-- The number of the bucket. -/
def index (bucket : TrendBucket) (date : Date) : Nat :=
  match bucket with
  | .day => date.number
  | .week => (date.number + 4) / 7
  | .month => date.months

/-- The bucket does not begin before the year 0. -/
def Begins (bucket : TrendBucket) (date : Date) : Prop := bucket = .week → 3 ≤ date.number

instance : Decidable (Begins bucket date) := inferInstanceAs (Decidable (_ → _))

def Opens (bucket : TrendBucket) (date : Date) : Prop := Begins bucket date ∧ startOf bucket date = date

theorem steps (bucket : TrendBucket) : Steps bucket.cadence bucket.interval := by
  intro _
  cases bucket <;> decide

theorem dow_eq (date : Date) : dow date = (date.number + 4) % 7 := by
  rw [dow, getUTCDay]
  omega

variable (bucket) in
theorem index_mono (le : date ≤ other) : index bucket date ≤ index bucket other := by
  have number := Date.number_le le
  cases bucket with
  | day => exact number
  | week => exact Nat.div_le_div_right (Nat.add_le_add_right number 4)
  | month => exact le_of_months le

theorem startOf_congr (same : index bucket date = index bucket other) :
    startOf bucket date = startOf bucket other := by
  cases bucket with
  | day => exact Date.eq_of_number same
  | week =>
    have monday : date.number - (date.number + 4) % 7 = other.number - (other.number + 4) % 7 := by
      simp only [index] at same
      omega
    rw [startOf, startOf, dow_eq, dow_eq, monday]
  | month =>
    have month := date.month_valid
    have month' := other.month_valid
    simp only [index, Date.months] at same
    refine Date.ext_parts ?_ ?_ rfl
    · simp only [startOf, Date.firstOfMonth]
      omega
    · simp only [startOf, Date.firstOfMonth]
      omega

theorem number_monday (begins : Begins .week date) :
    (startOf .week date).number = date.number - (date.number + 4) % 7 := by
  have three := begins rfl
  rw [startOf, dow_eq]
  exact number_ofNumber (by omega)

theorem index_startOf (begins : Begins bucket date) : index bucket (startOf bucket date) = index bucket date := by
  cases bucket with
  | day => rfl
  | week =>
    have three := begins rfl
    rw [index, number_monday begins, index]
    omega
  | month => exact Date.months_firstOfMonth date 0

theorem startOf_le (begins : Begins bucket date) : startOf bucket date ≤ date := by
  rw [Date.le_iff_number]
  cases bucket with
  | day => exact Nat.le_refl _
  | week =>
    rw [number_monday begins]
    exact Nat.sub_le _ _
  | month =>
    rw [← Date.le_iff_number]
    have month := date.month_valid
    have day := date.day_valid
    show (date.firstOfMonth 0).digits ≤ date.digits
    simp only [Date.digits, Date.firstOfMonth]
    omega

theorem Begins.mono (begins : Begins bucket date) (le : date ≤ other) : Begins bucket other :=
  fun week => (begins week).trans (Date.number_le le)

theorem Begins.startOf (begins : Begins bucket date) : Begins bucket (startOf bucket date) := by
  rintro rfl
  have three := begins rfl
  rw [number_monday begins]
  omega

theorem opens_startOf (begins : Begins bucket date) : Opens bucket (startOf bucket date) :=
  ⟨begins.startOf, startOf_congr (index_startOf begins)⟩

/-- The next bucket is the one of the next number. -/
theorem opens_next (opens : Opens bucket date) :
    Opens bucket (next bucket date) ∧ index bucket (next bucket date) = index bucket date + 1 := by
  obtain ⟨begins, same⟩ := opens
  cases bucket with
  | day =>
    refine ⟨⟨fun week => absurd week (by decide), rfl⟩, ?_⟩
    exact Date.number_addDays date 1
  | week =>
    have three := begins rfl
    have later : (next .week date).number = date.number + 7 := Date.number_addDays date 7
    have monday := number_monday begins
    rw [same] at monday
    refine ⟨⟨fun _ => by omega, ?_⟩, ?_⟩
    · apply Date.eq_of_number
      rw [number_monday fun _ => by omega, later]
      omega
    · rw [index, index, later]
      omega
  | month =>
    have first : date.firstOfMonth 0 = date := same
    have month : next .month date = date.firstOfMonth 1 := by
      show date.addMonths 1 = _
      rw [← first, Date.firstOfMonth_addMonths, Date.firstOfMonth_firstOfMonth]
    rw [month]
    refine ⟨⟨fun week => absurd week (by decide), ?_⟩, Date.months_firstOfMonth date 1⟩
    exact Date.firstOfMonth_firstOfMonth date 1 0

theorem lt_next_startOf (begins : Begins bucket date) :
    date.digits < (next bucket (startOf bucket date)).digits := by
  by_contra early
  have index := index_mono bucket (Nat.le_of_not_lt early : next bucket (startOf bucket date) ≤ date)
  rw [(opens_next (opens_startOf begins)).2, index_startOf begins] at index
  omega

/-- The bucket with a date is the one that begins by then, with the next one after. -/
theorem startOf_eq_iff (opens : Opens bucket first) (begins : Begins bucket date) :
    startOf bucket date = first ↔ first ≤ date ∧ date.digits < (next bucket first).digits := by
  constructor
  · rintro rfl
    exact ⟨startOf_le begins, lt_next_startOf begins⟩
  · rintro ⟨low, high⟩
    have from_ := index_mono bucket low
    have to_ : index bucket date < index bucket first + 1 := by
      by_contra late
      rw [← (opens_next opens).2] at late
      have next_ := opens_next opens
      have later : next bucket first ≤ date := by
        have start := startOf_le begins
        have same := index_mono bucket (Nat.le_of_lt high : date ≤ next bucket first)
        have equal : index bucket date = index bucket (next bucket first) := by omega
        rw [startOf_congr equal, next_.1.2] at start
        exact start
      exact absurd high (Nat.not_lt.mpr later)
    rw [← opens.2]
    exact startOf_congr (by omega)

theorem le_of_index (opens : Opens bucket date) (opens' : Opens bucket other)
    (le : index bucket date ≤ index bucket other) : date ≤ other := by
  rcases Date.le_total date other with le' | ge
  · exact le'
  · have same := Nat.le_antisymm le (index_mono bucket ge)
    rw [← opens.2, ← opens'.2, startOf_congr same]
    exact Nat.le_refl _

/-! ### All buckets from one on -/

/-- The bucket that comes so many after. -/
def later (bucket : TrendBucket) (first : Date) (k : Nat) : Date := after first bucket.cadence bucket.interval k

theorem later_succ (first : Date) (k : Nat) : later bucket first (k + 1) = next bucket (later bucket first k) :=
  Texts.after_succ first k

theorem opens_later (opens : Opens bucket first) (k : Nat) :
    Opens bucket (later bucket first k) ∧ index bucket (later bucket first k) = index bucket first + k := by
  induction k with
  | zero => exact ⟨opens, rfl⟩
  | succ k ih =>
    rw [later_succ]
    obtain ⟨opens', index'⟩ := opens_next ih.1
    exact ⟨opens', by rw [index', ih.2, Nat.add_assoc]⟩

/-- Each later date is in one of the buckets. -/
theorem startOf_eq_later (opens : Opens bucket first) (le : first ≤ date) :
    startOf bucket date = later bucket first (index bucket date - index bucket first) := by
  obtain ⟨⟨begins, same⟩, index'⟩ := opens_later opens (index bucket date - index bucket first)
  have order := index_mono bucket le
  rw [← same]
  exact startOf_congr (by omega)

end TrendBucket

end Finverse.Insights
