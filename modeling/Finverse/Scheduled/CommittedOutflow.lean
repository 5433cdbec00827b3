import Finverse.Framework.Tally
import Finverse.Framework.Writes
import Finverse.Scheduled.StoredSchedules
import Mathlib.Algebra.Order.BigOperators.Group.List

/-! The currencies of the committed outflow. -/

namespace Finverse.Scheduled

open Ledger (IsoDate)
open ScheduledService (entriesOf upcoming)

variable {X : ScheduleContext} {st : InMemoryScheduleStore} {userId : String} {stamp : Stamp}

section Outflow

variable (today : IsoDate) (days : Nat)

/-- The schedule has an occurrence up to the horizon. -/
def Occurs (schedule : ScheduledTransaction) : Prop :=
  ∃ found, upcomingOccurrences schedule today days = .ok found ∧ found ≠ []

/-- What the schedule adds to the figure. -/
def outflowOf (schedule : ScheduledTransaction) : Int :=
  match upcomingOccurrences schedule today days with
  | .ok found => if 0 ≤ schedule.amount then 0 else schedule.amount.natAbs * found.length
  | .error _ => 0

variable {today days} {schedules : List ScheduledTransaction}

theorem outflowOf_ok {schedule : ScheduledTransaction} {found : List Occurrence}
    (given : upcomingOccurrences schedule today days = .ok found) :
    outflowOf today days schedule =
      if 0 ≤ schedule.amount then (0 : Int) else schedule.amount.natAbs * found.length := by
  rw [outflowOf, given]

theorem committedOutflow_sum (given : ∀ schedule ∈ schedules, ∃ found,
    upcomingOccurrences schedule today days = .ok found) :
    committedOutflow schedules today days = .ok (schedules.map (outflowOf today days)).sum := by
  have sum : ∀ total : Int, schedules.foldlM (fun total schedule =>
      if 0 ≤ schedule.amount then (.ok total : Except DateError Int)
      else do
        let upcoming ← upcomingOccurrences schedule today days
        return total + schedule.amount.natAbs * upcoming.length) total =
      .ok (total + (schedules.map (outflowOf today days)).sum) := by
    induction schedules with
    | nil =>
      intro total
      rw [List.map_nil, List.sum_nil, Int.add_zero]
      rfl
    | cons schedule schedules ih =>
      intro total
      rw [List.forall_mem_cons] at given
      obtain ⟨found, first⟩ := given.1
      rw [List.foldlM_cons, List.map_cons, List.sum_cons, outflowOf_ok first]
      split
      · rw [Int.zero_add]
        exact ih given.2 total
      · rw [first, ← Int.add_assoc]
        exact ih given.2 _
  rw [committedOutflow, sum 0, Int.zero_add]

theorem outflowOf_nonneg (schedule : ScheduledTransaction) : 0 ≤ outflowOf today days schedule := by
  rw [outflowOf]
  split
  · split
    · exact Int.le_refl 0
    · exact Int.mul_nonneg (Int.natCast_nonneg _) (Int.natCast_nonneg _)
  · exact Int.le_refl 0

theorem outflowOf_pos_iff (schedule : ScheduledTransaction) :
    0 < outflowOf today days schedule ↔ schedule.amount < 0 ∧ Occurs today days schedule := by
  rw [outflowOf, Occurs]
  cases upcomingOccurrences schedule today days with
  | error e => simp
  | ok found =>
    dsimp only
    split
    · rename_i income
      simp [Int.not_lt.mpr income]
    · rename_i outflow
      have some_ : 0 < (schedule.amount.natAbs : Int) := by omega
      rw [mul_pos_iff_of_pos_left some_]
      simp [Int.not_le.mp outflow, List.length_pos_iff]

end Outflow

/-! ### The figure of a request -/

/-- What is returned: the horizon is allowed, the dates of every live schedule are read, and the figure
is their sum. -/
theorem upcoming_ok {days : Int} {result : UpcomingResult}
    (returned : upcoming X st userId (some days) stamp = .ok result) :
    (∀ schedule ∈ st.list X.localeCompare userId, ∃ found,
      upcomingOccurrences schedule stamp.today days.toNat = .ok found) ∧
    result.committedOutflow =
      ((st.list X.localeCompare userId).map (outflowOf stamp.today days.toNat)).sum := by
  rw [upcoming] at returned
  dsimp only at returned
  split at returned
  · cases returned
  have returned := mapError_ok returned
  obtain ⟨entries, listed, returned⟩ := bind_ok returned
  obtain ⟨outflow, counted, returned⟩ := bind_ok returned
  obtain rfl := Except.ok.inj returned
  have given : ∀ schedule ∈ st.list X.localeCompare userId, ∃ found,
      upcomingOccurrences schedule stamp.today days.toNat = .ok found := by
    intro schedule mem
    obtain ⟨rows, read⟩ := mapM_each listed schedule mem
    obtain ⟨found, there, -⟩ := bind_ok read
    exact ⟨found, there⟩
  refine ⟨given, ?_⟩
  rw [committedOutflow_sum given] at counted
  exact (Except.ok.inj counted).symm

/-- What a request is answered with does not depend on the amounts, as far as there is an answer. -/
theorem upcoming_answered {days : Int} {result : UpcomingResult}
    (returned : upcoming X st userId (some days) stamp = .ok result) {st' : InMemoryScheduleStore}
    (given : ∀ schedule ∈ st'.list X.localeCompare userId, ∃ found,
      upcomingOccurrences schedule stamp.today days.toNat = .ok found) :
    ∃ result', upcoming X st' userId (some days) stamp = .ok result' := by
  rw [upcoming] at returned ⊢
  dsimp only at returned ⊢
  split at returned
  · cases returned
  rename_i allowed
  have each : ∀ schedule ∈ st'.list X.localeCompare userId, ∃ rows,
      entriesOf X userId schedule stamp.today days.toNat = .ok rows ∧ True := by
    intro schedule mem
    obtain ⟨found, there⟩ := given schedule mem
    rw [entriesOf, there]
    exact ⟨_, rfl, trivial⟩
  obtain ⟨entries, listed, -⟩ := mapM_forall₂.mpr each
  rw [if_neg allowed, listed, committedOutflow_sum given]
  exact ⟨_, rfl⟩

/-! ### Amounts of other currencies -/

/-- The schedule with another amount, unless it is in the currency. -/
def reprice (currency : String) (amounts : ScheduledTransaction → Int)
    (schedule : ScheduledTransaction) : ScheduledTransaction :=
  if schedule.currency = currency then schedule else { schedule with amount := amounts schedule }

def InMemoryScheduleStore.repriced (st : InMemoryScheduleStore) (userId currency : String)
    (amounts : ScheduledTransaction → Int) : InMemoryScheduleStore :=
  ⟨st.byUser.set userId ((st.bucket userId).map (reprice currency amounts))⟩

variable {currency : String} {amounts : ScheduledTransaction → Int}

theorem walk_amount (schedule : ScheduledTransaction) (amount : Int) (today horizon : IsoDate)
    (turns index : Nat) : walk { schedule with amount } today horizon turns index =
      walk schedule today horizon turns index := by
  induction turns generalizing index with
  | zero => rfl
  | succ turns ih =>
    rw [walk, walk, ih]
    rfl

theorem reprice_frame (schedule : ScheduledTransaction) :
    (reprice currency amounts schedule).archivedAt = schedule.archivedAt ∧
      (reprice currency amounts schedule).startDate = schedule.startDate ∧
      (reprice currency amounts schedule).name = schedule.name ∧
      ∀ today days, upcomingOccurrences (reprice currency amounts schedule) today days =
        upcomingOccurrences schedule today days := by
  rw [reprice]
  split
  · exact ⟨rfl, rfl, rfl, fun _ _ => rfl⟩
  · refine ⟨rfl, rfl, rfl, fun today days => ?_⟩
    rw [upcomingOccurrences, upcomingOccurrences]
    simp only [walk_amount]

theorem list_repriced (localeCompare : String → String → Ordering) :
    (st.repriced userId currency amounts).list localeCompare userId =
      (st.list localeCompare userId).map (reprice currency amounts) := by
  rw [InMemoryScheduleStore.list, InMemoryScheduleStore.repriced, bucket_set, if_pos rfl,
    InMemoryScheduleStore.list, List.filter_map]
  have live : ((fun s : ScheduledTransaction => false || s.archivedAt == none) ∘
      reprice currency amounts) = fun s => false || s.archivedAt == none := by
    funext schedule
    rw [Function.comp_apply, (reprice_frame schedule).1]
  rw [live]
  symm
  apply List.map_insertionSort
  intro a _ b _
  obtain ⟨-, start, name, -⟩ := @reprice_frame currency amounts a
  obtain ⟨-, start', name', -⟩ := @reprice_frame currency amounts b
  rw [start, name, start', name']

/-! ### One currency -/

/-- Those that count are held in one currency. -/
def OneCurrency (counted : ScheduledTransaction → Prop) (schedules : List ScheduledTransaction) : Prop :=
  ∀ a ∈ schedules, ∀ b ∈ schedules, counted a → counted b → a.currency = b.currency

theorem oneCurrency_iff {counted : ScheduledTransaction → Prop}
    {schedules : List ScheduledTransaction} : OneCurrency counted schedules ↔
      ∃ currency, ∀ a ∈ schedules, counted a → a.currency = currency := by
  constructor
  · intro one
    by_cases some_ : ∃ b ∈ schedules, counted b
    · obtain ⟨b, mem, counts⟩ := some_
      exact ⟨b.currency, fun a mem' counts' => one a mem' b mem counts' counts⟩
    · exact ⟨"", fun a mem counts => absurd ⟨a, mem, counts⟩ some_⟩
  · rintro ⟨currency, same⟩ a mem b mem' counts counts'
    rw [same a mem counts, same b mem' counts']

theorem sum_eq_iff {α : Type} {f g : α → Int} {l : List α} (le : ∀ a ∈ l, f a ≤ g a) :
    (l.map f).sum = (l.map g).sum ↔ ∀ a ∈ l, f a = g a := by
  constructor
  · intro same a mem
    by_contra other
    have less := List.sum_lt_sum f g le ⟨a, mem, lt_of_le_of_ne (le a mem) other⟩
    exact absurd same less.ne
  · intro same
    rw [List.map_congr_left same]

section Currencies

variable (X st userId stamp) in
/-- The figure is the sum of the schedules in one currency. -/
def OfOneCurrency (days : Int) (result : UpcomingResult) : Prop :=
  ∃ currency, committedOutflow
    ((st.list X.localeCompare userId).filter fun schedule => schedule.currency = currency)
    stamp.today days.toNat = .ok result.committedOutflow

variable (X st userId stamp) in
/-- The figure is one of a currency: no amounts of other currencies change it. -/
def Unmoved (days : Int) (result : UpcomingResult) : Prop :=
  ∃ currency, ∀ amounts, ∃ result',
    upcoming X (st.repriced userId currency amounts) userId (some days) stamp = .ok result' ∧
    result'.committedOutflow = result.committedOutflow

variable {days : Int} {result : UpcomingResult}

theorem reprice_held {a : ScheduledTransaction} (held : a.currency = currency) :
    reprice currency amounts a = a := if_pos held

theorem occurs_reprice {today : IsoDate} {horizon : Nat} {a : ScheduledTransaction} :
    Occurs today horizon (reprice currency amounts a) ↔ Occurs today horizon a := by
  rw [Occurs, Occurs, (reprice_frame a).2.2.2]

theorem outflowOf_eq_zero {today : IsoDate} {horizon : Nat} {a : ScheduledTransaction}
    (none_ : ¬Occurs today horizon a) : outflowOf today horizon a = 0 := by
  have pos := @outflowOf_pos_iff today horizon a
  by_contra some_
  exact none_ (pos.mp (lt_of_le_of_ne (outflowOf_nonneg a) (Ne.symm some_))).2

theorem outflowOf_income {today : IsoDate} {horizon : Nat} {a : ScheduledTransaction}
    (other : ¬a.currency = currency) :
    outflowOf today horizon (reprice currency (fun _ => 1) a) = 0 := by
  have pos := @outflowOf_pos_iff today horizon (reprice currency (fun _ => 1) a)
  by_contra some_
  have outflow := (pos.mp (lt_of_le_of_ne (outflowOf_nonneg _) (Ne.symm some_))).1
  rw [reprice, if_neg other] at outflow
  exact absurd outflow (by decide : ¬(1 : Int) < 0)

theorem ofOneCurrency_iff (returned : upcoming X st userId (some days) stamp = .ok result) :
    OfOneCurrency X st userId stamp days result ↔
      OneCurrency (fun schedule => schedule.amount < 0 ∧ Occurs stamp.today days.toNat schedule)
        (st.list X.localeCompare userId) := by
  obtain ⟨given, outflow⟩ := upcoming_ok returned
  rw [oneCurrency_iff]
  apply exists_congr
  intro currency
  have given' : ∀ schedule ∈ (st.list X.localeCompare userId).filter
      (fun schedule => schedule.currency = currency), ∃ found,
      upcomingOccurrences schedule stamp.today days.toNat = .ok found :=
    fun schedule mem => given schedule (List.mem_of_mem_filter mem)
  rw [committedOutflow_sum given', outflow, Tally.sum_filter, Except.ok.injEq, sum_eq_iff]
  · refine forall₂_congr fun schedule _ => ?_
    have nonneg := @outflowOf_nonneg stamp.today days.toNat schedule
    have pos := @outflowOf_pos_iff stamp.today days.toNat schedule
    rw [← pos]
    split
    · rename_i same
      exact iff_of_true rfl fun _ => of_decide_eq_true same
    · rename_i other
      have differs : schedule.currency ≠ currency := by simpa using other
      constructor
      · intro zero counts
        omega
      · intro only
        by_contra some_
        exact differs (only (lt_of_le_of_ne nonneg some_))
  · intro schedule _
    split
    · exact Int.le_refl _
    · exact outflowOf_nonneg schedule

/-- The sum with other amounts. -/
theorem repriced_sum (returned : upcoming X st userId (some days) stamp = .ok result)
    (currency : String) (amounts : ScheduledTransaction → Int) : ∃ result',
      upcoming X (st.repriced userId currency amounts) userId (some days) stamp = .ok result' ∧
      result'.committedOutflow = ((st.list X.localeCompare userId).map fun schedule =>
        outflowOf stamp.today days.toNat (reprice currency amounts schedule)).sum := by
  have given : ∀ schedule ∈ (st.repriced userId currency amounts).list X.localeCompare userId,
      ∃ found, upcomingOccurrences schedule stamp.today days.toNat = .ok found := by
    intro schedule mem
    rw [list_repriced] at mem
    obtain ⟨before, there, rfl⟩ := List.mem_map.mp mem
    rw [(reprice_frame before).2.2.2]
    exact (upcoming_ok returned).1 before there
  obtain ⟨result', answered⟩ := upcoming_answered returned given
  refine ⟨result', answered, ?_⟩
  rw [(upcoming_ok answered).2, list_repriced, List.map_map]
  rfl

theorem unmoved_iff (returned : upcoming X st userId (some days) stamp = .ok result) :
    Unmoved X st userId stamp days result ↔
      OneCurrency (Occurs stamp.today days.toNat) (st.list X.localeCompare userId) := by
  rw [oneCurrency_iff]
  apply exists_congr
  intro currency
  constructor
  · intro unmoved a mem occurs
    -- what counts as income adds nothing, what counts as an outflow adds something
    obtain ⟨incomes, answered, income⟩ := unmoved fun _ => 1
    obtain ⟨outflows, answered', outflow⟩ := unmoved fun _ => -1
    obtain ⟨incomes', again, sum⟩ := repriced_sum returned currency fun _ => 1
    obtain ⟨outflows', again', sum'⟩ := repriced_sum returned currency fun _ => -1
    obtain rfl := Except.ok.inj (answered.symm.trans again)
    obtain rfl := Except.ok.inj (answered'.symm.trans again')
    have same := sum.symm.trans (income.trans (outflow.symm.trans sum'))
    have le : ∀ a ∈ st.list X.localeCompare userId,
        outflowOf stamp.today days.toNat (reprice currency (fun _ => 1) a) ≤
          outflowOf stamp.today days.toNat (reprice currency (fun _ => -1) a) := by
      intro a _
      by_cases held : a.currency = currency
      · rw [reprice_held held, reprice_held held]
      · rw [outflowOf_income held]
        exact outflowOf_nonneg _
    by_contra other
    have equal := (sum_eq_iff le).mp same a mem
    rw [outflowOf_income other] at equal
    have pos := (outflowOf_pos_iff (reprice currency (fun _ => -1) a)).mpr
      ⟨by rw [reprice, if_neg other]; exact (by decide : (-1 : Int) < 0),
        occurs_reprice.mpr occurs⟩
    exact absurd equal pos.ne
  · intro held amounts
    obtain ⟨result', answered, sum⟩ := repriced_sum returned currency amounts
    refine ⟨result', answered, ?_⟩
    rw [sum, (upcoming_ok returned).2]
    refine congrArg List.sum (List.map_congr_left fun a mem => ?_)
    by_cases occurs : Occurs stamp.today days.toNat a
    · rw [reprice_held (held a mem occurs)]
    · rw [outflowOf_eq_zero occurs, outflowOf_eq_zero fun h => occurs (occurs_reprice.mp h)]

/-- The figure is of one currency just where the outflows with an occurrence up to the horizon are, and
no other amounts can move it just where all that occurs is held in one currency. -/
theorem committedOutflow_currency_iff {X : ScheduleContext} {st : InMemoryScheduleStore}
    {userId : String} {stamp : Stamp} {days : Int} {result : UpcomingResult}
    (returned : upcoming X st userId (some days) stamp = .ok result) :
    (OfOneCurrency X st userId stamp days result ↔
      OneCurrency (fun schedule => schedule.amount < 0 ∧ Occurs stamp.today days.toNat schedule)
        (st.list X.localeCompare userId)) ∧
    (Unmoved X st userId stamp days result ↔
      OneCurrency (Occurs stamp.today days.toNat) (st.list X.localeCompare userId)) :=
  ⟨ofOneCurrency_iff returned, unmoved_iff returned⟩

/-- A rent in dollars and one in euros. -/
def twoRents : InMemoryScheduleStore :=
  [Call.create "u1" rentInput firstStamp,
    .create "u1" { rentInput with accountId := "a2", amount := some (-50000) }
      { firstStamp with id := "s2" }].foldl (Call.run twoAccounts) {}

def euroRent : ScheduledTransaction :=
  { monthlyFrom "2026-01-31" with
    id := "s2"
    accountId := "a2"
    amount := -50000
    currency := "EUR" }

theorem rents_listed : twoRents.list twoAccounts.localeCompare "u1" =
    [monthlyFrom "2026-01-31", euroRent] := by
  decide +kernel

def rentsAhead : UpcomingResult where
  entries := [⟨⟨"2026-01-31", false, some 16⟩, "s1", "Rent", -120000, "USD", "rent", "a1", "Checking"⟩,
    ⟨⟨"2026-01-31", false, some 16⟩, "s2", "Rent", -50000, "EUR", "rent", "a2", "Euro account"⟩]
  committedOutflow := 170000
  horizonDays := 30

theorem rents_answered :
    upcoming twoAccounts twoRents "u1" (some 30) firstStamp = .ok rentsAhead := by
  decide +kernel

theorem rents_currencies :
    (OfOneCurrency twoAccounts twoRents "u1" firstStamp 30 rentsAhead ↔
      OneCurrency (fun schedule => schedule.amount < 0 ∧ Occurs "2026-01-15" 30 schedule)
        (twoRents.list twoAccounts.localeCompare "u1")) ∧
    (Unmoved twoAccounts twoRents "u1" firstStamp 30 rentsAhead ↔
      OneCurrency (Occurs "2026-01-15" 30) (twoRents.list twoAccounts.localeCompare "u1")) :=
  committedOutflow_currency_iff rents_answered

/-- The rent in dollars and the one in euros are added up. -/
theorem not_one_currency :
    ¬∀ (X : ScheduleContext) (st : InMemoryScheduleStore) (userId : String) (stamp : Stamp)
      (days : Int) (result : UpcomingResult), upcoming X st userId (some days) stamp = .ok result →
      OfOneCurrency X st userId stamp days result := by
  intro all
  have one := (ofOneCurrency_iff rents_answered).mp (all _ _ _ _ _ _ rents_answered)
  rw [rents_listed] at one
  have dollars : upcomingOccurrences (monthlyFrom "2026-01-31") "2026-01-15" 30 =
      .ok [⟨"2026-01-31", false, some 16⟩] := by decide +kernel
  have euros : upcomingOccurrences euroRent "2026-01-15" 30 =
      .ok [⟨"2026-01-31", false, some 16⟩] := by decide +kernel
  have same := one _ List.mem_cons_self euroRent (by simp) ⟨by decide, _, dollars, by decide⟩
    ⟨by decide, _, euros, by decide⟩
  exact absurd same (by decide)

end Currencies

end Finverse.Scheduled
