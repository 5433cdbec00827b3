import Finverse.Insights.CurrencyIsolation
import Finverse.Insights.Projection

/-! How often the forecast pays an income that comes once a month. -/

namespace Finverse.Insights

open Grouping
open Imports (daysInMonth)

/-! ### Medians -/

theorem round_between {lo hi : Int} {x : Rat} (low : lo ≤ x) (high : x ≤ hi) :
    lo ≤ round x ∧ round x ≤ hi := by
  rw [round, Int.le_floor, ← Int.lt_add_one_iff, Int.floor_lt]
  push_cast
  constructor <;> linarith

/-- The median is between the least and the greatest. -/
theorem median_between {lo hi : Int} {values : List Int} (some_ : values ≠ [])
    (all : ∀ v ∈ values, lo ≤ v ∧ v ≤ hi) : lo ≤ median values ∧ median values ≤ hi := by
  have length : (values.insertionSort (· ≤ ·)).length = values.length := List.length_insertionSort _ _
  have pos : 0 < values.length := List.length_pos_iff.mpr some_
  have at_ : ∀ i < values.length, lo ≤ (values.insertionSort (· ≤ ·))[i]?.getD 0 ∧
      (values.insertionSort (· ≤ ·))[i]?.getD 0 ≤ hi := by
    intro i within
    rw [← length] at within
    rw [List.getElem?_eq_getElem within, Option.getD_some]
    exact all _ ((List.perm_insertionSort _ _).mem_iff.mp (List.getElem_mem within))
  have sorted : values.insertionSort (· ≤ ·) ≠ [] := by
    apply List.ne_nil_of_length_pos
    rw [length]
    exact pos
  rw [median, length, if_neg sorted]
  split
  · exact at_ _ (by omega)
  · have left := at_ (values.length / 2 - 1) (by omega)
    have right := at_ (values.length / 2) (by omega)
    apply round_between
    · rw [le_div_iff₀ (by norm_num)]
      norm_cast
      omega
    · rw [div_le_iff₀ (by norm_num)]
      norm_cast
      omega

/-! ### The same day of every month -/

namespace Date

variable {a b : Date}

/-- A month later the same day is 28 to 31 days later. -/
theorem number_monthLater (months_ : b.months = a.months + 1) (day : b.day = a.day) :
    a.number + 28 ≤ b.number ∧ b.number ≤ a.number + 31 := by
  have month := a.month_valid
  have month' := b.month_valid
  have low := daysInMonth_pos a.year a.month
  have high := daysInMonth_le a.year a.month
  have next : Imports.daysBeforeMonth a.year (a.month + 1) =
      Imports.daysBeforeMonth a.year a.month + daysInMonth a.year a.month := daysBeforeMonth_add month.1
  rw [months, months] at months_
  rw [number_eq, number_eq, day]
  rcases Nat.lt_or_eq_of_le month.2 with within | december
  · have year : b.year = a.year := by omega
    have later : b.month = a.month + 1 := by omega
    rw [year, later]
    omega
  · have year : b.year = a.year + 1 := by omega
    have january : b.month = 1 := by omega
    have none_before : Imports.daysBeforeMonth (a.year + 1) 1 = 0 := rfl
    have thirteen : Imports.daysBeforeMonth a.year 13 =
        Imports.daysBeforeMonth a.year 12 + daysInMonth a.year 12 := by
      rw [december] at next
      exact next
    rw [december] at low high ⊢
    rw [year, january, daysBeforeYear_succ, none_before]
    omega

end Date

/-- At least three deposits of one amount, one on the day of each of so many months on end. -/
structure Monthly (day : Nat) (amount : Int) (run : List Transaction) : Prop where
  many : 3 ≤ run.length
  amounts : ∀ row ∈ run, row.amount = amount
  days : ∀ row ∈ run, row.postedAt.day = day
  consecutive : run.IsChain fun a b => b.postedAt.months = a.postedAt.months + 1
  early : day ≤ 28

section Run

variable {day : Nat} {amount : Int} {run rows : List Transaction}

theorem intervals_between (monthly : Monthly day amount run) :
    ∀ interval ∈ intervalsOf run, 28 ≤ interval ∧ interval ≤ 31 := by
  have days := monthly.days
  have chain := monthly.consecutive
  clear monthly
  induction run with
  | nil => simp [intervalsOf]
  | cons a rest ih =>
    cases rest with
    | nil => simp [intervalsOf]
    | cons b rest =>
      rw [List.isChain_cons_cons] at chain
      have later := ih (fun row there => days row (List.mem_cons_of_mem _ there)) chain.2
      have same : b.postedAt.day = a.postedAt.day := by
        rw [days b (by simp), days a (by simp)]
      have first := Date.number_monthLater chain.1 same
      intro interval there
      have split : intervalsOf (a :: b :: rest) =
          (a.postedAt.daysBetweenInclusive b.postedAt - 1) :: intervalsOf (b :: rest) := rfl
      rw [split, List.mem_cons] at there
      rcases there with rfl | there
      · rw [Date.daysBetweenInclusive]
        omega
      · exact later interval there

theorem length_intervalsOf (sorted : List Transaction) : (intervalsOf sorted).length = sorted.length - 1 := by
  simp [intervalsOf]

/-- In a run of months the dates are in order. -/
theorem Monthly.ordered (monthly : Monthly day amount run) :
    run.Pairwise fun a b => a.postedAt.months < b.postedAt.months := by
  apply List.isChain_iff_pairwise.mp
  refine monthly.consecutive.imp fun a b next => ?_
  rw [next]
  exact Nat.lt_add_one _

theorem Monthly.byDate_perm (monthly : Monthly day amount run) (perm : rows.Perm run) :
    byDate rows = run := by
  have ordered : run.Pairwise fun a b => a.postedAt ≤ b.postedAt :=
    monthly.ordered.imp fun earlier => Nat.le_of_lt (Date.digits_lt_of_months earlier)
  have sorted : (byDate rows).Pairwise fun a b => a.postedAt ≤ b.postedAt := by
    have total : Std.Total fun a b : Transaction => a.postedAt ≤ b.postedAt :=
      ⟨fun a b => Date.le_total a.postedAt b.postedAt⟩
    have trans : IsTrans Transaction fun a b => a.postedAt ≤ b.postedAt :=
      ⟨fun _ _ _ first second => Date.le_trans first second⟩
    exact List.pairwise_insertionSort _ _
  have same : (byDate rows).Perm run := (List.perm_insertionSort _ _).trans perm
  refine List.Perm.eq_of_pairwise ?_ sorted ordered same
  intro a b there there' before after
  have distinct : (run.map fun row => row.postedAt.months).Nodup := by
    rw [List.Nodup, List.pairwise_map]
    exact monthly.ordered.imp Nat.ne_of_lt
  exact List.inj_on_of_nodup_map distinct (same.mem_iff.mp there) there'
    (congrArg Date.months (Date.le_antisymm before after))

/-! ### What is detected -/

/-- The days that are taken for one of two paydays in a month. -/
def semimonthlyDays : List Nat := [1, 2, 14, 15, 16]

theorem looksSemimonthly_iff (monthly : Monthly day amount run) :
    (run.all fun row => |(row.postedAt.day : Int) - 1| ≤ 1 || |(row.postedAt.day : Int) - 15| ≤ 1) =
      decide (day ∈ semimonthlyDays) := by
  obtain ⟨row, there⟩ : ∃ row, row ∈ run := by
    apply List.exists_mem_of_length_pos
    have many := monthly.many
    omega
  have valid := row.postedAt.day_valid.1
  rw [monthly.days row there] at valid
  have near : (|(day : Int) - 1| ≤ 1 ∨ |(day : Int) - 15| ≤ 1) ↔ day ∈ semimonthlyDays := by
    simp only [semimonthlyDays, List.mem_cons, List.not_mem_nil, or_false, abs_le]
    omega
  rw [Bool.eq_iff_iff, List.all_eq_true, decide_eq_true_eq, ← near]
  simp only [Bool.or_eq_true, decide_eq_true_eq]
  constructor
  · intro all
    have first := all row there
    rwa [monthly.days row there] at first
  · intro close row there
    rw [monthly.days row there]
    exact close

theorem incomeCadenceFor_month {interval : Int} (low : 28 ≤ interval) (high : interval ≤ 31) :
    incomeCadenceFor interval = some (Cadence.monthly, (1 : Rat) - (|interval - 30| : Int) / (5 : Int)) := by
  have week : ¬|interval - 7| ≤ 2 := by
    rw [abs_le]
    omega
  have fortnight : ¬|interval - 14| ≤ 2 := by
    rw [abs_le]
    omega
  have month : |interval - 30| ≤ 5 := by
    rw [abs_le]
    omega
  simp [incomeCadenceFor, INCOME_WINDOWS, classify, week, fortnight, month]

/-- The intervals stray from the usual one by three days at most. -/
theorem averageDrift_le {intervals : List Int} {typical : Int}
    (near : ∀ interval ∈ intervals, |interval - typical| ≤ 3) : averageDrift intervals typical ≤ 3 := by
  have sum : ∀ l : List Int, (∀ interval ∈ l, |interval - typical| ≤ 3) →
      (l.map fun interval => |interval - typical|).sum ≤ 3 * l.length := by
    intro l
    induction l with
    | nil => simp
    | cons interval l ih =>
      intro near
      have first := near interval List.mem_cons_self
      have rest := ih fun other there => near other (List.mem_cons_of_mem _ there)
      rw [List.map_cons, List.sum_cons, List.length_cons]
      push_cast
      omega
  have total := sum intervals near
  have pos : (0 : Rat) < (max intervals.length 1 : Nat) := by
    exact_mod_cast Nat.lt_of_lt_of_le Nat.one_pos (le_max_right _ _)
  rw [averageDrift, div_le_iff₀ pos]
  have bound : (intervals.map fun interval => |interval - typical|).sum ≤
      3 * (max intervals.length 1 : Nat) := by omega
  exact_mod_cast bound

theorem regularity_month {intervals : List Int} {typical : Int} (low : 28 ≤ typical)
    (near : ∀ interval ∈ intervals, |interval - typical| ≤ 3) :
    25 / 28 ≤ regularity intervals typical := by
  have drift := averageDrift_le near
  have typical_ : (28 : Rat) ≤ (max typical 1 : Int) := by
    exact_mod_cast low.trans (le_max_left typical 1)
  have share : averageDrift intervals typical / (max typical 1 : Int) ≤ 3 / 28 := by
    rw [div_le_iff₀ (by linarith)]
    linarith
  rw [regularity]
  apply le_max_of_le_right
  linarith

theorem regularity_nonneg (intervals : List Int) (typical : Int) : 0 ≤ regularity intervals typical :=
  le_max_left _ _

theorem consistencyOf_same {amounts : List Int} (some_ : amounts ≠ [])
    (same : ∀ a ∈ amounts, a = amount) : consistencyOf amounts amount = 1 := by
  have all : (amounts.countP fun a => drift a amount ≤ AMOUNT_TOLERANCE) = amounts.length := by
    rw [List.countP_eq_length]
    intro a there
    rw [same a there, drift, sub_self, abs_zero, AMOUNT_TOLERANCE]
    simp
    norm_num
  have length : (amounts.length : Rat) ≠ 0 := by
    exact_mod_cast (List.length_pos_iff.mpr some_).ne'
  rw [consistencyOf, all, div_self length]

/-- The cadence that is found for a monthly income. -/
def cadenceOn (day : Nat) : Cadence :=
  if day ∈ semimonthlyDays then .semimonthly else .monthly

/-- An income that comes once a month is detected, but not always as a monthly one. -/
theorem Monthly.detected (payer : String) {last : Transaction} (monthly : Monthly day amount run)
    (perm : rows.Perm run) (pos : 0 < amount) (latest : run.getLast? = some last) :
    ∃ income, incomeOf payer rows = some income ∧ income.cadence = cadenceOn day ∧
      income.lastSeen = last.postedAt := by
  have many : ¬rows.length < 3 := by
    rw [perm.length_eq]
    have many := monthly.many
    omega
  have amounts : ∀ a ∈ run.map (·.amount), a = amount := by
    intro a there
    obtain ⟨row, listed, rfl⟩ := List.mem_map.mp there
    exact monthly.amounts row listed
  have some_ : run.map (·.amount) ≠ [] := by
    apply List.ne_nil_of_length_pos
    have many := monthly.many
    rw [List.length_map]
    omega
  have typical : median (run.map (·.amount)) = amount := by
    have all : ∀ a ∈ run.map (·.amount), amount ≤ a ∧ a ≤ amount := fun a there => by
      rw [amounts a there]
      exact ⟨le_refl _, le_refl _⟩
    obtain ⟨low, high⟩ := median_between some_ all
    exact le_antisymm high low
  have consistent := consistencyOf_same some_ amounts
  have between := intervals_between monthly
  have apart : intervalsOf run ≠ [] := by
    apply List.ne_nil_of_length_pos
    rw [length_intervalsOf]
    have many := monthly.many
    omega
  obtain ⟨low, high⟩ := median_between apart between
  have near : ∀ interval ∈ intervalsOf run, |interval - median (intervalsOf run)| ≤ 3 := by
    intro interval there
    have within := between interval there
    rw [abs_le]
    omega
  have regular := regularity_month low near
  rw [incomeOf, if_neg many, monthly.byDate_perm perm]
  simp only [latest, typical, consistent, looksSemimonthly_iff monthly, decide_eq_true_eq]
  rw [if_neg (by
    rw [MIN_AMOUNT_CONSISTENCY]
    norm_num
    exact pos)]
  by_cases twice : day ∈ semimonthlyDays
  · simp only [if_pos twice]
    rw [if_neg (by
      rw [MIN_CONFIDENCE]
      linarith)]
    exact ⟨_, rfl, (if_pos twice).symm, rfl⟩
  · have fit : (3 / 5 : Rat) ≤ 1 - (|median (intervalsOf run) - 30| : Int) / (5 : Int) := by
      have close : |median (intervalsOf run) - 30| ≤ 2 := by
        rw [abs_le]
        omega
      have close : ((|median (intervalsOf run) - 30| : Int) : Rat) ≤ 2 := by exact_mod_cast close
      push_cast at close ⊢
      linarith
    simp only [if_neg twice, incomeCadenceFor_month low high]
    rw [if_neg (by
      rw [MIN_CONFIDENCE]
      linarith)]
    exact ⟨_, rfl, (if_neg twice).symm, rfl⟩

end Run

/-! ### The days of two paydays a month -/

namespace Date

/-- The first and the fifteenth of a month, and of the months after it. -/
def payday (date : Date) (j : Nat) : Date :=
  if j % 2 = 0 then date.firstOfMonth (j / 2) else (date.firstOfMonth (j / 2)).fifteenth

theorem months_fifteenth (date : Date) : date.fifteenth.months = date.months := rfl

theorem months_payday (date : Date) (j : Nat) : (date.payday j).months = date.months + j / 2 := by
  rw [payday]
  split
  · exact months_firstOfMonth _ _
  · rw [months_fifteenth, months_firstOfMonth]

theorem day_payday (date : Date) (j : Nat) : (date.payday j).day = if j % 2 = 0 then 1 else 15 := by
  rw [payday]
  split <;> rfl

theorem nextOccurrence_payday (date : Date) (j : Nat) (intervalDays : Int) :
    nextOccurrence (date.payday j) .semimonthly intervalDays = date.payday (j + 1) := by
  have day := day_payday date j
  have months_ := months_payday date j
  show (if (date.payday j).day ≤ 7 then (date.payday j).fifteenth else (date.payday j).firstOfMonth 1) =
    date.payday (j + 1)
  by_cases even : j % 2 = 0
  · rw [if_pos even] at day
    rw [if_pos (by omega)]
    apply eq_of_months
    · rw [months_fifteenth, months_, months_payday]
      omega
    · rw [day_payday, if_neg (by omega)]
      rfl
  · rw [if_neg even] at day
    rw [if_neg (by omega)]
    apply eq_of_months
    · rw [months_firstOfMonth, months_, months_payday]
      omega
    · rw [day_payday, if_pos (by omega)]
      rfl

theorem payday_lt (date : Date) (j : Nat) : (date.payday j).digits < (date.payday (j + 1)).digits := by
  have day := day_payday date j
  have day' := day_payday date (j + 1)
  have months_ := months_payday date j
  have months_' := months_payday date (j + 1)
  by_cases even : j % 2 = 0
  · have month := (date.payday j).month_valid
    have month' := (date.payday (j + 1)).month_valid
    rw [if_pos even] at day
    rw [if_neg (by omega)] at day'
    rw [months] at months_ months_'
    rw [digits, digits, day, day']
    omega
  · apply digits_lt_of_months
    rw [months_, months_']
    omega

/-- From which payday on they come after the date. -/
def firstPayday (date : Date) : Nat := if date.day ≤ 7 then 1 else 2

theorem nextOccurrence_firstPayday (date : Date) (intervalDays : Int) :
    nextOccurrence date .semimonthly intervalDays = date.payday date.firstPayday := by
  show (if date.day ≤ 7 then date.fifteenth else date.firstOfMonth 1) = date.payday date.firstPayday
  rw [firstPayday]
  split
  · apply eq_of_months
    · rw [months_fifteenth, months_payday]
      rfl
    · rfl
  · rfl

end Date

/-! ### The months in which it is paid -/

section Once

variable {asOf end_ lastSeen : Date} {month : Nat}

theorem length_filter_eq_one_iff {α : Type} {l : List α} {p : α → Bool} (distinct : l.Nodup) :
    (l.filter p).length = 1 ↔ ∃ x, ∀ y, (y ∈ l ∧ p y = true) ↔ y = x := by
  rw [List.length_eq_one_iff]
  constructor
  · rintro ⟨x, only⟩
    refine ⟨x, fun y => ?_⟩
    rw [← List.mem_filter, only, List.mem_singleton]
  · rintro ⟨x, only⟩
    refine ⟨x, List.perm_singleton.mp ?_⟩
    rw [List.perm_ext_iff_of_nodup (distinct.filter p) (List.nodup_singleton x)]
    intro y
    rw [List.mem_filter, List.mem_singleton]
    exact only y

/-- The whole month is within the horizon. -/
def WholeMonth (asOf end_ : Date) (month : Nat) : Prop :=
  ∀ date : Date, date.months = month → InHorizon asOf end_ date

/-- A whole month comes after the month that the forecast is made in. -/
theorem WholeMonth.after (whole : WholeMonth asOf end_ month) : asOf.months < month := by
  have first : month % 12 + 1 ≤ 12 := by omega
  let date : Date := ⟨month / 12, month % 12 + 1, 1, ⟨Nat.le_add_left 1 _, first⟩, Nat.le_refl 1,
    Nat.le_trans (by omega) (daysInMonth_pos _ _)⟩
  have here : date.months = month := by
    show month / 12 * 12 + (month % 12 + 1 - 1) = month
    omega
  by_contra early
  rcases Nat.lt_or_eq_of_le (Nat.not_lt.mp early) with before | same
  · rw [← here] at before
    exact Nat.lt_asymm (Date.digits_lt_of_months before) (whole date here).1
  · exact Nat.lt_irrefl _ (whole asOf same.symm).1

/-- The dates of the income in the month. -/
def datesIn (asOf end_ lastSeen : Date) (cadence : Cadence) (intervalDays : Int) (month : Nat) : List Date :=
  (occurrences (nextOccurrence lastSeen cadence intervalDays)
    (fun date => nextOccurrence date cadence intervalDays) asOf end_).filter (·.months = month)

theorem monthly_once_iff {intervalDays : Int} (whole : WholeMonth asOf end_ month) :
    (datesIn asOf end_ lastSeen .monthly intervalDays month).length = 1 ↔ lastSeen.months < month := by
  obtain ⟨sorted, mem⟩ := @occurrences_repeated asOf end_ lastSeen 1 Nat.one_pos
  have same : datesIn asOf end_ lastSeen .monthly intervalDays month =
      (occurrences (lastSeen.addMonths 1) (·.addMonths 1) asOf end_).filter (·.months = month) := rfl
  rw [same, length_filter_eq_one_iff (nodup_of_digits sorted)]
  simp only [mem, decide_eq_true_eq]
  constructor
  · rintro ⟨date, only⟩
    obtain ⟨⟨k, low, rfl, -⟩, here⟩ := (only date).mpr rfl
    rw [Date.months_repeated] at here
    omega
  · intro later
    refine ⟨lastSeen.repeated 1 (month - lastSeen.months), fun date => ?_⟩
    constructor
    · rintro ⟨⟨k, low, rfl, -⟩, here⟩
      rw [Date.months_repeated] at here
      have steps : month - lastSeen.months = k := by omega
      rw [steps]
    · rintro rfl
      have here : (lastSeen.repeated 1 (month - lastSeen.months)).months = month := by
        rw [Date.months_repeated]
        omega
      exact ⟨⟨_, by omega, rfl, whole _ here⟩, here⟩

/-- Of two paydays a month only the one that is left of the month of the last payment comes alone. -/
theorem semimonthly_once_iff {intervalDays : Int} (whole : WholeMonth asOf end_ month) :
    (datesIn asOf end_ lastSeen .semimonthly intervalDays month).length = 1 ↔
      lastSeen.day ≤ 7 ∧ month = lastSeen.months := by
  obtain ⟨sorted, mem⟩ := @occurrences_steps asOf end_
    (fun k => lastSeen.payday (lastSeen.firstPayday + k))
    (fun date => nextOccurrence date .semimonthly intervalDays)
    (fun k => Date.nextOccurrence_payday lastSeen _ intervalDays) (fun k => Date.payday_lt lastSeen _)
  have same : datesIn asOf end_ lastSeen .semimonthly intervalDays month =
      (occurrences (lastSeen.payday (lastSeen.firstPayday + 0))
        (fun date => nextOccurrence date .semimonthly intervalDays) asOf end_).filter
          (·.months = month) := by
    rw [datesIn, Date.nextOccurrence_firstPayday]
    rfl
  rw [same, length_filter_eq_one_iff (nodup_of_digits sorted)]
  simp only [mem, decide_eq_true_eq]
  have first : lastSeen.firstPayday = if lastSeen.day ≤ 7 then 1 else 2 := rfl
  constructor
  · rintro ⟨date, only⟩
    obtain ⟨⟨k, rfl, -⟩, here⟩ := (only date).mpr rfl
    rw [Date.months_payday] at here
    by_contra other
    have later : lastSeen.months < month := by
      by_contra early
      split_ifs at first with low <;> omega
    -- both paydays of a later month are within the horizon
    have each : ∀ j, j / 2 = month - lastSeen.months →
        lastSeen.payday j = lastSeen.payday (lastSeen.firstPayday + k) := by
      intro j half
      have placed : (lastSeen.payday j).months = month := by
        rw [Date.months_payday]
        omega
      have reached : lastSeen.firstPayday + (j - lastSeen.firstPayday) = j := by
        split_ifs at first <;> omega
      refine (only _).mp ⟨⟨j - lastSeen.firstPayday, ?_, whole _ placed⟩, placed⟩
      rw [reached]
    have twice := (each (2 * (month - lastSeen.months)) (by omega)).trans
      (each (2 * (month - lastSeen.months) + 1) (by omega)).symm
    have days := congrArg Date.day twice
    rw [Date.day_payday, Date.day_payday, if_pos (by omega), if_neg (by omega)] at days
    omega
  · rintro ⟨low, rfl⟩
    rw [if_pos low] at first
    refine ⟨lastSeen.payday 1, fun date => ?_⟩
    constructor
    · rintro ⟨⟨k, rfl, -⟩, here⟩
      rw [Date.months_payday, first] at here
      have only : k = 0 := by omega
      rw [first, only]
    · rintro rfl
      have here : (lastSeen.payday 1).months = lastSeen.months := Date.months_payday _ _
      exact ⟨⟨0, by rw [first], whole _ here⟩, here⟩

end Once

/-! ### The events of a payer -/

section Payer

variable {transactions run : List Transaction} {asOf end_ : Date} {payer : String} {day : Nat} {amount : Int}

/-- The events of the income that these deposits are of. -/
def eventsOf (run : List Transaction) (events : List ForecastEvent) : List ForecastEvent :=
  events.filter fun event => event.kind = .income && event.transactionIds = run.map (·.id)

/-- No other income is of the same deposits. -/
theorem incomeEventsOf_other (unique : (transactions.map (·.id)).Nodup)
    (deposits : (depositsOf transactions payer).Perm run) {descriptor : String} (other : descriptor ≠ payer) :
    (incomeEventsOf asOf end_ descriptor (depositsOf transactions descriptor)).filter
      (fun event => event.transactionIds = run.map (·.id)) = [] := by
  rw [List.filter_eq_nil_iff]
  intro event there same
  obtain ⟨ids, -, some_⟩ := mem_incomeEventsOf there
  obtain ⟨row, listed⟩ := List.exists_mem_of_ne_nil _ some_
  have named : row.id ∈ run.map (·.id) := by
    rw [← of_decide_eq_true same, ids]
    exact List.mem_map_of_mem (mem_byDate.mpr listed)
  obtain ⟨paid, there', same_id⟩ := List.mem_map.mp named
  have first := mem_depositsOf.mp listed
  have second := mem_depositsOf.mp (deposits.mem_iff.mpr there')
  obtain rfl := List.inj_on_of_nodup_map unique second.1.1 first.1.1 same_id
  exact other (first.2.symm.trans second.2)

theorem eventsOf_forecastEvents (unique : (transactions.map (·.id)).Nodup)
    (deposits : (depositsOf transactions payer).Perm run) (sorted : byDate (depositsOf transactions payer) = run)
    (some_ : run ≠ []) : (eventsOf run (forecastEvents transactions asOf end_)).Perm
      (incomeEventsOf asOf end_ payer (depositsOf transactions payer)) := by
  have kinds : eventsOf run (forecastEvents transactions asOf end_) =
      ((forecastEvents transactions asOf end_).filter (·.kind = .income)).filter
        fun event => event.transactionIds = run.map (·.id) := by
    rw [List.filter_filter]
    apply List.filter_congr
    intro event _
    exact Bool.and_comm _ _
  rw [kinds]
  refine (forecastEvents_kind.1.filter _).trans (.of_eq ?_)
  have paid : depositsOf transactions payer ≠ [] := fun none_ => some_ (by rw [← sorted, none_]; rfl)
  have found : (group Transaction.normalizedDescriptor (transactions.filter isDeposit)).get? payer =
      some (depositsOf transactions payer) := by
    rw [get?_group]
    exact if_neg paid
  rw [recurringEvents_eq, List.filter_flatMap, OrdMap.flatMap_of_others_nil _ payer, found]
  · rw [Option.map_some, Option.getD_some, List.filter_eq_self]
    intro event there
    rw [(mem_incomeEventsOf there).1, sorted]
    exact decide_eq_true rfl
  · intro entry there other
    obtain ⟨descriptor, rows⟩ := entry
    obtain ⟨rfl, -⟩ := mem_entries there
    exact incomeEventsOf_other unique deposits other

/-- In every month that lies within the horizon there is one event of the income. -/
def PaidOnceAMonth (asOf end_ : Date) (run : List Transaction) (events : List ForecastEvent) : Prop :=
  ∀ month, WholeMonth asOf end_ month →
    ((eventsOf run events).filter (·.date.months = month)).length = 1

/-- The months in which one event is right: all after the last deposit, but for the days that are taken
for one of two paydays. -/
def OnceIn (lastSeen : Date) (month : Nat) : Prop :=
  if lastSeen.day ∈ semimonthlyDays then lastSeen.day ≤ 7 ∧ month = lastSeen.months
  else lastSeen.months < month

theorem paidOnceAMonth_iff {accounts : List Account} {days : Int} {currency : String}
    {forecast : CashFlowForecast} {last : Transaction} (unique : (transactions.map (·.id)).Nodup)
    (answered : forecastCashFlow accounts transactions asOf days currency = .ok forecast)
    (deposits : (depositsOf transactions payer).Perm run) (monthly : Monthly day amount run)
    (latest : run.getLast? = some last) :
    PaidOnceAMonth asOf (asOf.addDays days.toNat) run forecast.events ↔
      ∀ month, WholeMonth asOf (asOf.addDays days.toNat) month → OnceIn last.postedAt month := by
  have listed : last ∈ run := List.mem_of_getLast? latest
  have pos : 0 < amount := by
    have deposit := (mem_depositsOf.mp (deposits.mem_iff.mpr listed)).1.2
    rw [← monthly.amounts last listed]
    simp only [isDeposit, Bool.and_eq_true, decide_eq_true_eq] at deposit
    exact deposit.1.2
  obtain ⟨income, found, cadence, lastSeen⟩ := monthly.detected payer deposits pos latest
  rw [forecastCashFlow] at answered
  split at answered
  · cases answered
  obtain rfl := Except.ok.inj answered
  apply forall_congr'
  intro month
  apply imp_congr_right
  intro whole
  have events : (eventsOf run (forecastEvents transactions asOf (asOf.addDays days.toNat))).Perm
      (incomeEventsOf asOf (asOf.addDays days.toNat) payer (depositsOf transactions payer)) :=
    eventsOf_forecastEvents unique deposits (monthly.byDate_perm deposits) (List.ne_nil_of_mem listed)
  have length : ((eventsOf run (forecastEvents transactions asOf (asOf.addDays days.toNat))).filter
      (·.date.months = month)).length =
        (datesIn asOf (asOf.addDays days.toNat) last.postedAt (cadenceOn day) income.intervalDays
          month).length := by
    rw [(events.filter _).length_eq, incomeEventsOf, found, Option.map_some, Option.getD_some, datesIn,
      incomeEvents, List.filter_map, List.length_map, lastSeen, cadence]
    rfl
  rw [OnceIn, monthly.days last listed]
  show _ = 1 ↔ _
  rw [length, cadenceOn]
  by_cases twice : day ∈ semimonthlyDays
  · rw [if_pos twice, if_pos twice, semimonthly_once_iff whole, monthly.days last listed]
  · rw [if_neg twice, if_neg twice, monthly_once_iff whole]

end Payer

/-! ### A salary -/

def salary (id : String) (postedAt : Date) : Transaction :=
  ⟨id, postedAt, 250000, "USD", "payroll", none, "salary", false, false⟩

theorem salary_postedAt (id : String) (postedAt : Date) : (salary id postedAt).postedAt = postedAt := rfl

/-- Paid on the tenth of January, February and March. -/
def paidOnTenth : List Transaction :=
  [salary "a" (newYear.addDays 9), salary "b" (newYear.addDays 40), salary "c" (newYear.addDays 68)]

/-- Paid on the first of January, February and March. -/
def paidOnFirst : List Transaction :=
  [salary "a" newYear, salary "b" (newYear.addDays 31), salary "c" (newYear.addDays 59)]

theorem paidOnTenth_monthly : Monthly 10 250000 paidOnTenth where
  many := by decide
  amounts := by decide
  days := by decide +kernel
  consecutive := by decide +kernel
  early := by decide

theorem paidOnFirst_monthly : Monthly 1 250000 paidOnFirst where
  many := by decide
  amounts := by decide
  days := by decide +kernel
  consecutive := by decide +kernel
  early := by decide

theorem tenth_once_a_month : ∃ forecast,
    forecastCashFlow [] paidOnTenth (newYear.addDays 70) 90 "USD" = .ok forecast ∧
      PaidOnceAMonth (newYear.addDays 70) ((newYear.addDays 70).addDays 90) paidOnTenth
        forecast.events := by
  have deposits : depositsOf paidOnTenth "payroll" = paidOnTenth := by decide +kernel
  have latest : paidOnTenth.getLast? = some (salary "c" (newYear.addDays 68)) := rfl
  have march : (newYear.addDays 70).months = (newYear.addDays 68).months := by decide +kernel
  have day : (newYear.addDays 68).day ∉ semimonthlyDays := by decide +kernel
  refine ⟨_, if_neg (by decide), (@paidOnceAMonth_iff paidOnTenth paidOnTenth (newYear.addDays 70) "payroll"
    10 250000 [] 90 "USD" _ _ (by decide) (if_neg (by decide)) (.of_eq deposits) paidOnTenth_monthly
    latest).mpr ?_⟩
  intro month whole
  rw [salary_postedAt, OnceIn, if_neg day, ← march]
  exact whole.after

/-- What comes on the first of every month is also expected on the fifteenth. -/
theorem first_twice_a_month :
    ¬∀ (accounts : List Account) (transactions : List Transaction) (asOf : Date) (days : Int)
      (currency : String) (forecast : CashFlowForecast) (payer : String) (day : Nat) (amount : Int)
      (run : List Transaction), (transactions.map (·.id)).Nodup →
      forecastCashFlow accounts transactions asOf days currency = .ok forecast →
      (depositsOf transactions payer).Perm run → Monthly day amount run →
      PaidOnceAMonth asOf (asOf.addDays days.toNat) run forecast.events := by
  intro all
  have deposits : depositsOf paidOnFirst "payroll" = paidOnFirst := by decide +kernel
  have once := all [] paidOnFirst (newYear.addDays 60) 90 "USD" _ "payroll" 1 250000 paidOnFirst
    (by decide) (if_neg (by decide)) (.of_eq deposits) paidOnFirst_monthly
  have april : WholeMonth (newYear.addDays 60) ((newYear.addDays 60).addDays 90) (2026 * 12 + 3) := by
    intro date here
    have start : (newYear.addDays 60).digits = 20260302 := by decide +kernel
    have stop : ((newYear.addDays 60).addDays 90).digits = 20260531 := by decide +kernel
    have month := date.month_valid
    have day := date.digits_day
    rw [Date.months] at here
    constructor
    · rw [start, Date.digits]
      omega
    · show date.digits ≤ ((newYear.addDays 60).addDays 90).digits
      rw [stop, Date.digits]
      omega
  exact absurd (once _ april) (by decide +kernel)

end Finverse.Insights
