import Finverse.Framework.Ranking
import Finverse.Insights.Forecast

/-! What the rows of other currencies do to the forecast of one. -/

namespace Finverse.Insights

open Grouping

variable {currency descriptor : String} {transactions rows : List Transaction} {asOf end_ : Date}
  {event : ForecastEvent}

/-- The rows of one currency. -/
def inCurrency (currency : String) (transactions : List Transaction) : List Transaction :=
  transactions.filter (·.currency = currency)

section Lists

variable {α β γ : Type} {list : List α} {f : α → List β} {p : α → Bool}

/-- What comes of the others is nothing. -/
theorem flatMap_filter_of_nil (nothing : ∀ x ∈ list, p x = false → f x = []) :
    list.flatMap f = (list.filter p).flatMap f := by
  induction list with
  | nil => rfl
  | cons x list ih =>
    have rest := ih fun y there => nothing y (List.mem_cons_of_mem _ there)
    rw [List.flatMap_cons, rest, List.filter_cons]
    by_cases chosen : p x = true
    · rw [if_pos chosen, List.flatMap_cons]
    · rw [if_neg chosen, nothing x List.mem_cons_self (Bool.eq_false_iff.mpr chosen), List.nil_append]

/-- And if as much comes of the chosen as of all, nothing comes of the others. -/
theorem nil_of_length_flatMap_filter
    (same : (list.flatMap f).length = ((list.filter p).flatMap f).length) :
    ∀ x ∈ list, p x = false → f x = [] := by
  have fewer (list : List α) : ((list.filter p).flatMap f).length ≤ (list.flatMap f).length := by
    induction list with
    | nil => exact Nat.le_refl 0
    | cons x list ih =>
      rw [List.filter_cons]
      split
      · simp only [List.flatMap_cons, List.length_append]
        omega
      · simp only [List.flatMap_cons, List.length_append]
        omega
  induction list with
  | nil => simp
  | cons x list ih =>
    rw [List.filter_cons, List.flatMap_cons, List.length_append] at same
    have rest := fewer list
    by_cases chosen : p x = true
    · rw [if_pos chosen, List.flatMap_cons, List.length_append] at same
      refine List.forall_mem_cons.mpr ⟨fun other => ?_, ih (by omega)⟩
      rw [chosen] at other
      cases other
    · rw [if_neg chosen] at same
      exact List.forall_mem_cons.mpr ⟨fun _ => List.length_eq_zero_iff.mp (by omega), ih (by omega)⟩

theorem flatMap_filterMap {g : γ → Option α} (list : List γ) :
    (list.filterMap g).flatMap f = list.flatMap fun x => ((g x).map f).getD [] := by
  induction list with
  | nil => rfl
  | cons x list ih =>
    rw [List.flatMap_cons, ← ih]
    cases found : g x with
    | none => rw [List.filterMap_cons_none found]; rfl
    | some a => rw [List.filterMap_cons_some found]; rfl

end Lists

/-! ### Bills -/

theorem mem_byDate {row : Transaction} : row ∈ byDate rows ↔ row ∈ rows :=
  (List.perm_insertionSort _ rows).mem_iff

/-- A subscription is in the currency of its charges. -/
theorem subscriptionOf_currency {group : List Transaction} {bill : DetectedSubscription}
    (found : subscriptionOf group = some bill) : ∃ row ∈ group, bill.currency = row.currency := by
  unfold subscriptionOf at found
  split at found
  · cases found
  dsimp only at found
  split at found
  · rename_i first last _ ends
    split at found
    · cases found
    split at found
    · cases found
    split at found
    · cases found
    obtain rfl := Option.some.inj found
    exact ⟨last, mem_byDate.mp (List.mem_of_getLast? ends), rfl⟩
  · cases found

theorem mem_entries {κ α : Type} [DecidableEq κ] {key : α → κ} {list : List α} {k : κ} {found : List α}
    (there : (k, found) ∈ (group key list).entries) : found = list.filter (key · = k) ∧ found ≠ [] :=
  mem_group (OrdMap.get?_eq_some.mpr there)

/-- The subscriptions of a currency are those of its rows. -/
theorem detectSubscriptions_inCurrency :
    (detectSubscriptions transactions).filter (·.currency = currency) =
      detectSubscriptions (inCurrency currency transactions) := by
  have charges : (inCurrency currency transactions).filter isCharge =
      (transactions.filter isCharge).filter fun row => decide ((chargeKey row).2 = currency) := by
    rw [inCurrency, List.filter_comm]
    rfl
  have groups : ((group chargeKey (transactions.filter isCharge)).values.filterMap subscriptionOf).filter
      (·.currency = currency) = (group chargeKey
        ((inCurrency currency transactions).filter isCharge)).values.filterMap subscriptionOf := by
    have chosen : (group chargeKey (transactions.filter isCharge)).filter
        (fun key _ => decide (key.2 = currency)) = group chargeKey ((transactions.filter isCharge).filter
          fun row => decide ((chargeKey row).2 = currency)) :=
      filter_group fun key : String × String => decide (key.2 = currency)
    rw [charges, ← chosen, OrdMap.values, OrdMap.values, List.filterMap_map, List.filterMap_map,
      OrdMap.filter, List.filterMap_filter, List.filter_filterMap]
    refine List.filterMap_congr fun entry there => ?_
    obtain ⟨key, found⟩ := entry
    obtain ⟨rows, -⟩ := mem_entries there
    cases bill : subscriptionOf found with
    | none => simp [bill]
    | some bill' =>
      obtain ⟨row, listed, same⟩ := subscriptionOf_currency bill
      rw [rows] at listed
      have key_currency : bill'.currency = key.2 := by
        rw [same, ← of_decide_eq_true (List.mem_filter.mp listed).2]
        rfl
      by_cases mine : key.2 = currency <;> simp [bill, key_currency, mine]
  have trans_ : IsTrans DetectedSubscription fun a b => b.annualCost ≤ a.annualCost :=
    ⟨fun _ _ _ first second => Int.le_trans second first⟩
  have total_ : Std.Total fun a b : DetectedSubscription => b.annualCost ≤ a.annualCost :=
    ⟨fun a b => Int.le_total b.annualCost a.annualCost⟩
  rw [detectSubscriptions, Ranking.filter_insertionSort, groups]
  rfl

/-! ### Income -/

/-- The deposits of a descriptor. -/
def depositsOf (transactions : List Transaction) (descriptor : String) : List Transaction :=
  (transactions.filter isDeposit).filter (·.normalizedDescriptor = descriptor)

/-- The events of the income that the deposits of a descriptor are of. -/
def incomeEventsOf (asOf end_ : Date) (descriptor : String) (rows : List Transaction) :
    List ForecastEvent :=
  ((incomeOf descriptor rows).map (incomeEvents asOf end_)).getD []

/-- A deposit of another currency has the descriptor. -/
def mixed (currency : String) (transactions : List Transaction) (descriptor : String) : Bool :=
  (depositsOf transactions descriptor).any (·.currency != currency)

theorem mem_incomeEventsOf (there : event ∈ incomeEventsOf asOf end_ descriptor rows) :
    event.transactionIds = (byDate rows).map (·.id) ∧ event.kind = .income ∧ rows ≠ [] := by
  unfold incomeEventsOf at there
  cases found : incomeOf descriptor rows with
  | none =>
    rw [found] at there
    cases there
  | some income =>
    rw [found] at there
    obtain ⟨date, -, rfl⟩ := List.mem_map.mp there
    unfold incomeOf at found
    split at found
    · cases found
    rename_i many
    dsimp only at found
    split at found
    · cases found
    split at found
    · cases found
    split at found
    · cases found
    split at found
    · cases found
    obtain rfl := Option.some.inj found
    exact ⟨rfl, rfl, fun none_ => many (by rw [none_]; exact Nat.succ_pos 2)⟩

theorem recurringEvents_eq : (detectRecurringIncome transactions).flatMap (incomeEvents asOf end_) =
    (group Transaction.normalizedDescriptor (transactions.filter isDeposit)).entries.flatMap
      fun entry => incomeEventsOf asOf end_ entry.1 entry.2 := by
  rw [detectRecurringIncome, flatMap_filterMap]
  rfl

/-- The events of recurring income, by descriptor. -/
theorem mem_recurringEvents :
    event ∈ (detectRecurringIncome transactions).flatMap (incomeEvents asOf end_) ↔
      ∃ descriptor, event ∈ incomeEventsOf asOf end_ descriptor (depositsOf transactions descriptor) := by
  rw [recurringEvents_eq, List.mem_flatMap]
  constructor
  · rintro ⟨⟨descriptor, rows⟩, there, event_⟩
    obtain ⟨rfl, -⟩ := mem_entries there
    exact ⟨descriptor, event_⟩
  · rintro ⟨descriptor, event_⟩
    obtain ⟨-, -, some_⟩ := mem_incomeEventsOf event_
    refine ⟨(descriptor, depositsOf transactions descriptor), OrdMap.get?_eq_some.mp ?_, event_⟩
    rw [get?_group]
    exact if_neg some_

/-- The descriptors without events aside, the events are those of the other descriptors. -/
theorem recurringEvents_filter {p : String → Bool}
    (nothing : ∀ descriptor, p descriptor = false →
      incomeEventsOf asOf end_ descriptor (depositsOf transactions descriptor) = []) :
    (detectRecurringIncome transactions).flatMap (incomeEvents asOf end_) =
      (group Transaction.normalizedDescriptor ((transactions.filter isDeposit).filter
        fun row => p row.normalizedDescriptor)).entries.flatMap
          fun entry => incomeEventsOf asOf end_ entry.1 entry.2 := by
  rw [recurringEvents_eq, ← filter_group p]
  refine flatMap_filter_of_nil (p := fun entry : String × List Transaction => p entry.1) fun entry there other => ?_
  obtain ⟨descriptor, rows⟩ := entry
  obtain ⟨rfl, -⟩ := mem_entries there
  exact nothing descriptor other

/-! ### The forecast -/

/-- No bill of another currency falls due until then, and no income that deposits of another currency
are counted to, with these or without them. -/
structure Unaffected (currency : String) (asOf end_ : Date) (transactions : List Transaction) : Prop where
  bills : ∀ bill ∈ detectSubscriptions transactions, bill.currency ≠ currency →
    billEvents asOf end_ bill = []
  income : ∀ descriptor, mixed currency transactions descriptor = true →
    incomeEventsOf asOf end_ descriptor (depositsOf transactions descriptor) = [] ∧
      incomeEventsOf asOf end_ descriptor (depositsOf (inCurrency currency transactions) descriptor) = []

theorem billsOf_unaffected (bills : ∀ bill ∈ detectSubscriptions transactions, bill.currency ≠ currency →
      billEvents asOf end_ bill = []) :
    (detectSubscriptions transactions).flatMap (billEvents asOf end_) =
      (detectSubscriptions (inCurrency currency transactions)).flatMap (billEvents asOf end_) := by
  rw [← detectSubscriptions_inCurrency]
  exact flatMap_filter_of_nil fun bill there other => bills bill there (of_decide_eq_false other)

theorem unmixed_deposits : (transactions.filter isDeposit).filter
      (fun row => !mixed currency transactions row.normalizedDescriptor) =
    ((inCurrency currency transactions).filter isDeposit).filter
      fun row => !mixed currency transactions row.normalizedDescriptor := by
  rw [inCurrency, List.filter_filter, List.filter_filter, List.filter_filter]
  refine List.filter_congr fun row there => ?_
  by_cases ours : row.currency = currency
  · simp [ours]
  · by_cases deposit : isDeposit row = true
    · have foreign : mixed currency transactions row.normalizedDescriptor = true := by
        refine List.any_eq_true.mpr ⟨row, ?_, by simpa using ours⟩
        exact List.mem_filter.mpr ⟨List.mem_filter.mpr ⟨there, deposit⟩, by simp⟩
      simp [foreign]
    · simp [deposit]

theorem incomeOf_unaffected (income : ∀ descriptor, mixed currency transactions descriptor = true →
      incomeEventsOf asOf end_ descriptor (depositsOf transactions descriptor) = [] ∧
        incomeEventsOf asOf end_ descriptor (depositsOf (inCurrency currency transactions) descriptor) = []) :
    (detectRecurringIncome transactions).flatMap (incomeEvents asOf end_) =
      (detectRecurringIncome (inCurrency currency transactions)).flatMap (incomeEvents asOf end_) := by
  let unmixed descriptor := !mixed currency transactions descriptor
  have all := recurringEvents_filter (p := unmixed) fun descriptor is_mixed =>
    (income descriptor (by simpa [unmixed] using is_mixed)).1
  have ours := recurringEvents_filter (p := unmixed) fun descriptor is_mixed =>
    (income descriptor (by simpa [unmixed] using is_mixed)).2
  rw [all, ours, unmixed_deposits]

/-- Rows of other currencies that have no part in the events leave the events alone. -/
theorem forecastEvents_unaffected (unaffected : Unaffected currency asOf end_ transactions) :
    forecastEvents transactions asOf end_ =
      forecastEvents (inCurrency currency transactions) asOf end_ := by
  rw [forecastEvents, forecastEvents, billsOf_unaffected unaffected.bills,
    incomeOf_unaffected unaffected.income]

/-! ### What gives the others away -/

section Converse

/-- The rows that an event of income names. -/
theorem mem_transactionIds {id : String} (there : event ∈ incomeEventsOf asOf end_ descriptor rows) :
    id ∈ event.transactionIds ↔ ∃ row ∈ rows, row.id = id := by
  rw [(mem_incomeEventsOf there).1, List.mem_map]
  simp only [mem_byDate]

theorem mem_depositsOf {row : Transaction} : row ∈ depositsOf transactions descriptor ↔
    (row ∈ transactions ∧ isDeposit row = true) ∧ row.normalizedDescriptor = descriptor := by
  rw [depositsOf, List.mem_filter, List.mem_filter, decide_eq_true_eq]

theorem mem_inCurrency {row : Transaction} :
    row ∈ inCurrency currency transactions ↔ row ∈ transactions ∧ row.currency = currency := by
  simp [inCurrency]

theorem recurringEvents_kind (there : event ∈
    (detectRecurringIncome transactions).flatMap (incomeEvents asOf end_)) : event.kind = .income := by
  obtain ⟨descriptor, there⟩ := mem_recurringEvents.mp there
  exact (mem_incomeEventsOf there).2.1

theorem bills_kind (there : event ∈ (detectSubscriptions transactions).flatMap (billEvents asOf end_)) :
    event.kind = .expense := by
  obtain ⟨bill, -, there⟩ := List.mem_flatMap.mp there
  obtain ⟨date, -, rfl⟩ := List.mem_map.mp there
  rfl

/-- The events of a kind are those of the one detector or of the other. -/
theorem forecastEvents_kind : ((forecastEvents transactions asOf end_).filter (·.kind = .income)).Perm
      ((detectRecurringIncome transactions).flatMap (incomeEvents asOf end_)) ∧
    ((forecastEvents transactions asOf end_).filter (·.kind = .expense)).Perm
      ((detectSubscriptions transactions).flatMap (billEvents asOf end_)) := by
  have sorted : (forecastEvents transactions asOf end_).Perm _ := List.perm_insertionSort _ _
  constructor
  · refine (sorted.filter _).trans (.of_eq ?_)
    rw [List.filter_append, List.filter_eq_self.mpr fun e there => by
        simp [recurringEvents_kind there], List.filter_eq_nil_iff.mpr fun e there => by
        simp [bills_kind there], List.append_nil]
  · refine (sorted.filter _).trans (.of_eq ?_)
    rw [List.filter_append, List.filter_eq_nil_iff.mpr fun e there => by
        simp [recurringEvents_kind there], List.filter_eq_self.mpr fun e there => by
        simp [bills_kind there], List.nil_append]

variable (unique : (transactions.map (·.id)).Nodup)
  (same : forecastEvents transactions asOf end_ =
    forecastEvents (inCurrency currency transactions) asOf end_)

include same in
theorem bills_of_same : ∀ bill ∈ detectSubscriptions transactions, bill.currency ≠ currency →
    billEvents asOf end_ bill = [] := by
  have perm : ((forecastEvents transactions asOf end_).filter (·.kind = .expense)).Perm
      ((detectSubscriptions transactions).flatMap (billEvents asOf end_)) := forecastEvents_kind.2
  rw [same] at perm
  have length := (perm.symm.trans forecastEvents_kind.2).length_eq
  rw [← detectSubscriptions_inCurrency] at length
  intro bill there other
  exact nil_of_length_flatMap_filter length bill there (decide_eq_false other)

include same in
theorem income_of_same : event ∈ (detectRecurringIncome transactions).flatMap (incomeEvents asOf end_) ↔
    event ∈ (detectRecurringIncome (inCurrency currency transactions)).flatMap
      (incomeEvents asOf end_) := by
  have perm : ((forecastEvents transactions asOf end_).filter (·.kind = .income)).Perm
      ((detectRecurringIncome transactions).flatMap (incomeEvents asOf end_)) := forecastEvents_kind.1
  rw [same] at perm
  exact (perm.symm.trans forecastEvents_kind.1).mem_iff

include unique same in
/-- An event that names a deposit of another currency is none that the currency alone leads to. -/
theorem mixed_of_same (foreign : mixed currency transactions descriptor = true) :
    incomeEventsOf asOf end_ descriptor (depositsOf transactions descriptor) = [] := by
  obtain ⟨row, listed, other⟩ := List.any_eq_true.mp foreign
  obtain ⟨⟨stored, -⟩, -⟩ := mem_depositsOf.mp listed
  refine List.eq_nil_iff_forall_not_mem.mpr fun event there => ?_
  have alone := (income_of_same same).mp (mem_recurringEvents.mpr ⟨descriptor, there⟩)
  obtain ⟨descriptor', there'⟩ := mem_recurringEvents.mp alone
  obtain ⟨row', listed', id⟩ :=
    (mem_transactionIds there').mp ((mem_transactionIds there).mpr ⟨row, listed, rfl⟩)
  obtain ⟨stored', ours⟩ := mem_inCurrency.mp (mem_depositsOf.mp listed').1.1
  rw [List.inj_on_of_nodup_map unique stored' stored id] at ours
  simp [ours] at other

include unique same in
theorem unmixed_of_same (foreign : mixed currency transactions descriptor = true) :
    incomeEventsOf asOf end_ descriptor (depositsOf (inCurrency currency transactions) descriptor) = [] := by
  refine List.eq_nil_iff_forall_not_mem.mpr fun event there => ?_
  have both := (income_of_same same).mpr (mem_recurringEvents.mpr ⟨descriptor, there⟩)
  obtain ⟨descriptor', there'⟩ := mem_recurringEvents.mp both
  obtain ⟨-, -, some_⟩ := mem_incomeEventsOf there
  obtain ⟨row, listed⟩ := List.exists_mem_of_ne_nil _ some_
  obtain ⟨row', listed', id⟩ :=
    (mem_transactionIds there').mp ((mem_transactionIds there).mpr ⟨row, listed, rfl⟩)
  obtain ⟨⟨stored, -⟩, rfl⟩ := mem_depositsOf.mp listed
  obtain ⟨⟨stored', -⟩, rfl⟩ := mem_depositsOf.mp listed'
  rw [List.inj_on_of_nodup_map unique stored' (mem_inCurrency.mp stored).1 id] at there'
  rw [mixed_of_same unique same foreign] at there'
  cases there'

include unique in
/-- The events are those of the currency alone exactly if no other currency has a part in them. -/
theorem forecastEvents_iff : forecastEvents transactions asOf end_ =
    forecastEvents (inCurrency currency transactions) asOf end_ ↔
      Unaffected currency asOf end_ transactions :=
  ⟨fun same => ⟨bills_of_same same, fun _ foreign =>
      ⟨mixed_of_same unique same foreign, unmixed_of_same unique same foreign⟩⟩,
    forecastEvents_unaffected⟩

end Converse

/-! ### Two ledgers that agree on a currency -/

section Isolation

variable {accounts accounts' : List Account} {transactions' : List Transaction} {today : Date}
  {days : Int} {asked : Option Date}

/-- The forecasts of two ledgers that agree on a currency, in one of which no other currency has a part
in the forecast, are the same exactly if none has in the other. -/
theorem cashFlowForecast_isolated_iff (unique : (transactions.map (·.id)).Nodup)
    (sameAccounts : accounts.filter (·.currency = currency) = accounts'.filter (·.currency = currency))
    (sameTransactions : inCurrency currency transactions = inCurrency currency transactions')
    (unaffected : Unaffected currency (asked.getD today) ((asked.getD today).addDays days.toNat)
      transactions') :
    cashFlowForecast accounts transactions today days asked currency =
        cashFlowForecast accounts' transactions' today days asked currency ↔
      (days < 1 ∨ 90 < days) ∨ Unaffected currency (asked.getD today)
        ((asked.getD today).addDays days.toNat) transactions := by
  have balance : startingBalance accounts currency = startingBalance accounts' currency := by
    rw [startingBalance, startingBalance, sameAccounts]
  rw [← forecastEvents_iff unique, sameTransactions, ← forecastEvents_unaffected unaffected,
    cashFlowForecast, cashFlowForecast, forecastCashFlow, forecastCashFlow]
  by_cases out : days < 1 ∨ 90 < days
  · rw [if_pos out, if_pos out]
    exact ⟨fun _ => .inl out, fun _ => rfl⟩
  · rw [if_neg out, if_neg out, or_iff_right out, balance]
    constructor
    · intro same
      exact congrArg CashFlowForecast.events (Except.ok.inj same)
    · intro same
      rw [same]

end Isolation

/-! ### A membership abroad -/

def tenth (month : Nat) (valid : 1 ≤ month ∧ month ≤ 12) : Date :=
  ⟨2026, month, 10, valid, by decide, Nat.le_trans (by decide) (daysInMonth_pos 2026 month)⟩

def gym (id : String) (month : Nat) (valid : 1 ≤ month ∧ month ≤ 12) : Transaction :=
  ⟨id, tenth month valid, -900, "EUR", "gym", none, "fitness", false, false⟩

def visit : Transaction := gym "visit" 3 (by decide)

def checkingAccount : Account := ⟨"checking", .checking, "USD", 5000⟩

/-- One visit is no membership. -/
theorem cashFlowForecast_isolated_visit :
    cashFlowForecast [checkingAccount] [visit] (tenth 4 (by decide)) 30 none "USD" =
      cashFlowForecast [checkingAccount] [] (tenth 4 (by decide)) 30 none "USD" := by
  let today := tenth 4 (by decide)
  have nobody : Unaffected "USD" (none.getD today) ((none.getD today).addDays (Int.toNat 30)) [] :=
    ⟨fun _ there => (nomatch there), fun _ foreign => (nomatch foreign)⟩
  have abroad : inCurrency "USD" [visit] = inCurrency "USD" [] := by decide +kernel
  refine (cashFlowForecast_isolated_iff (by decide +kernel) rfl abroad nobody).mpr (.inr ⟨?_, ?_⟩)
  · have none_ : (detectSubscriptions [visit]).isEmpty = true := by decide +kernel
    rw [List.isEmpty_iff.mp none_]
    exact fun _ there => nomatch there
  · intro descriptor foreign
    have none_ : [visit].filter isDeposit = [] := by decide +kernel
    rw [mixed, depositsOf, none_] at foreign
    cases foreign

/-- Three monthly charges in euros are a bill in the forecast in dollars. -/
theorem membership_projected : ¬∀ (accounts accounts' : List Account)
    (transactions transactions' : List Transaction) (today : Date) (days : Int) (asked : Option Date)
    (currency : String), accounts.filter (·.currency = currency) = accounts'.filter (·.currency = currency) →
      inCurrency currency transactions = inCurrency currency transactions' →
        cashFlowForecast accounts transactions today days asked currency =
          cashFlowForecast accounts' transactions' today days asked currency := by
  intro isolated
  have same := isolated [checkingAccount] [checkingAccount]
    [gym "a" 1 (by decide), gym "b" 2 (by decide), gym "c" 3 (by decide)] [] (tenth 3 (by decide)) 60
    none "USD" rfl rfl
  revert same
  decide +kernel

end Finverse.Insights
