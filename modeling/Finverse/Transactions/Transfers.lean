import Finverse.Categorization.Categorize
import Finverse.Framework.Matching
import Finverse.Insights.Subscriptions

/-! Money that moved between the user's own accounts, paired by the shape of the movement. -/

namespace Finverse.Transactions

open Categorization (Collation)
open Matching Ranking

/-- A row of the ledger, with the account that it belongs to. -/
structure Transaction extends Insights.Transaction where
  accountId : String
  deriving DecidableEq

structure InternalTransferPair where
  outflowId : String
  inflowId : String
  amount : Int
  currency : String
  daysApart : Nat
  deriving DecidableEq, Repr

structure InternalTransferOptions where
  windowDays : Option Rat := none
  deriving DecidableEq, Repr

def DEFAULT_WINDOW_DAYS : Rat := 3

def InternalTransferOptions.window (options : InternalTransferOptions) : Rat :=
  options.windowDays.getD DEFAULT_WINDOW_DAYS

def daysBetween (a b : Insights.Date) : Nat := ((a.number : Int) - b.number).natAbs

/-! ### Detection -/

/-- The order of the texts of two dates is that of the dates. -/
def byDateThenId (C : Collation) (a b : Transaction) : Prop :=
  if a.postedAt = b.postedAt then C.le a.id b.id = true else a.postedAt ≤ b.postedAt

instance (C : Collation) : DecidableRel (byDateThenId C) := fun _ _ =>
  inferInstanceAs (Decidable (ite ..))

/-- The other side of the same movement, not merely a similar one. -/
def isOtherSide (outflow inflow : Transaction) : Bool :=
  inflow.amount == |outflow.amount| && inflow.currency == outflow.currency &&
    inflow.accountId != outflow.accountId

/-- The one found, when it is closer than the best so far. -/
def nearer (best : Option (Transaction × Nat)) (found : Transaction × Nat) : Option (Transaction × Nat) :=
  if best.all (found.2 < ·.2) then some found else best

/-- The search through the inflows, with the best one so far and its days. -/
def closest (windowDays : Rat) (claimed : List String) (outflow : Transaction) :
    Option (Transaction × Nat) → List Transaction → Option (Transaction × Nat)
  | best, [] => best
  | best, inflow :: inflows =>
    if inflow.id ∈ claimed ∨ ¬isOtherSide outflow inflow then
      closest windowDays claimed outflow best inflows
    else
      let gap := daysBetween outflow.postedAt inflow.postedAt
      if windowDays < gap then closest windowDays claimed outflow best inflows
      else
        let best := nearer best (inflow, gap)
        -- Same-day is as close as it gets.
        if best.any (·.2 = 0) then best else closest windowDays claimed outflow best inflows

def toPair (outflow : Transaction) (best : Transaction × Nat) : InternalTransferPair where
  outflowId := outflow.id
  inflowId := best.1.id
  amount := |outflow.amount|
  currency := outflow.currency
  daysApart := best.2

def outflows (transactions : List Transaction) : List Transaction :=
  transactions.filter fun txn => !txn.pending && txn.amount < 0

def inflows (transactions : List Transaction) : List Transaction :=
  transactions.filter fun txn => !txn.pending && 0 < txn.amount

/-- Each outflow with the inflow that it takes. -/
def pairings (C : Collation) (options : InternalTransferOptions) (transactions : List Transaction) :
    List (Transaction × Transaction × Nat) :=
  let candidates := (inflows transactions).insertionSort (byDateThenId C)
  assign (fun claimed outflow => closest options.window claimed outflow none candidates)
    (fun outflow best => [outflow.id, best.1.id]) []
    ((outflows transactions).insertionSort (byDateThenId C))

def detectInternalTransfers (C : Collation) (options : InternalTransferOptions)
    (transactions : List Transaction) : List InternalTransferPair :=
  (pairings C options transactions).map fun pair => toPair pair.1 pair.2

/-- Ids on either side of a detected transfer. -/
def internalTransferIds (pairs : List InternalTransferPair) : List String :=
  pairs.flatMap fun pair => [pair.outflowId, pair.inflowId]

/-! ### What an outflow takes -/

variable {C : Collation} {options : InternalTransferOptions} {transactions : List Transaction}
  {windowDays : Rat} {claimed : List String} {outflow inflow : Transaction}
  {best got : Option (Transaction × Nat)} {candidates : List Transaction}

/-- An inflow that the outflow may take. -/
structure Takes (windowDays : Rat) (claimed : List String) (outflow inflow : Transaction) : Prop where
  free : inflow.id ∉ claimed
  otherSide : isOtherSide outflow inflow = true
  near : (daysBetween outflow.postedAt inflow.postedAt : Rat) ≤ windowDays

theorem nearer_cases (best : Option (Transaction × Nat)) (found : Transaction × Nat) :
    nearer best found = some found ∨ nearer best found = best ∧ best.isSome := by
  unfold nearer
  split
  · exact .inl rfl
  · rename_i further
    cases best with
    | none => exact absurd rfl further
    | some kept => exact .inr ⟨rfl, rfl⟩

theorem nearer_isSome (best : Option (Transaction × Nat)) (found : Transaction × Nat) :
    (nearer best found).isSome := by
  rcases nearer_cases best found with taken | ⟨kept, some_⟩
  · rw [taken]
    rfl
  · rw [kept]
    exact some_

theorem closest_pass (h : ¬Takes windowDays claimed outflow inflow) :
    closest windowDays claimed outflow best (inflow :: candidates) =
      closest windowDays claimed outflow best candidates := by
  rw [closest]
  split
  · rfl
  rename_i open_
  rw [not_or, not_not] at open_
  dsimp only
  split
  · rfl
  · rename_i near
    exact absurd ⟨open_.1, open_.2, not_lt.mp near⟩ h

theorem closest_take (h : Takes windowDays claimed outflow inflow) :
    closest windowDays claimed outflow best (inflow :: candidates) =
      let next := nearer best (inflow, daysBetween outflow.postedAt inflow.postedAt)
      if next.any (·.2 = 0) then next else closest windowDays claimed outflow next candidates := by
  rw [closest, if_neg (not_or.mpr ⟨h.free, not_not.mpr h.otherSide⟩)]
  exact if_neg (not_lt.mpr h.near)

/-- What is found in the end was the best from the start, or is an inflow to take. -/
theorem closest_some {found : Transaction × Nat}
    (h : closest windowDays claimed outflow best candidates = some found) : best = some found ∨
      found.1 ∈ candidates ∧ Takes windowDays claimed outflow found.1 ∧
        found.2 = daysBetween outflow.postedAt found.1.postedAt := by
  induction candidates generalizing best with
  | nil => exact .inl h
  | cons inflow candidates ih =>
    by_cases takes : Takes windowDays claimed outflow inflow
    · rw [closest_take takes] at h
      have reached : nearer best (inflow, daysBetween outflow.postedAt inflow.postedAt) = some found ∨
          found.1 ∈ candidates ∧ Takes windowDays claimed outflow found.1 ∧
            found.2 = daysBetween outflow.postedAt found.1.postedAt := by
        dsimp only at h
        split at h
        · exact .inl h
        · exact ih h
      rcases reached with last | ⟨stored, taken⟩
      · rcases nearer_cases best (inflow, daysBetween outflow.postedAt inflow.postedAt) with
          now | ⟨kept, -⟩
        · obtain rfl := Option.some.inj (now.symm.trans last)
          exact .inr ⟨List.mem_cons_self, takes, rfl⟩
        · exact .inl (kept.symm.trans last)
      · exact .inr ⟨List.mem_cons_of_mem _ stored, taken⟩
    · rw [closest_pass takes] at h
      exact (ih h).imp_right fun found => ⟨List.mem_cons_of_mem _ found.1, found.2⟩

theorem closest_none (h : closest windowDays claimed outflow best candidates = none) :
    best = none ∧ ∀ inflow ∈ candidates, ¬Takes windowDays claimed outflow inflow := by
  induction candidates generalizing best with
  | nil => exact ⟨h, by simp⟩
  | cons inflow candidates ih =>
    by_cases takes : Takes windowDays claimed outflow inflow
    · have some_ := nearer_isSome best (inflow, daysBetween outflow.postedAt inflow.postedAt)
      rw [closest_take takes] at h
      have nothing : nearer best (inflow, daysBetween outflow.postedAt inflow.postedAt) = none := by
        dsimp only at h
        split at h
        · exact h
        · exact (ih h).1
      rw [nothing] at some_
      cases some_
    · rw [closest_pass takes] at h
      exact ⟨(ih h).1, List.forall_mem_cons.mpr ⟨takes, (ih h).2⟩⟩

/-! ### The pairs -/

/-- One movement of money between two accounts. -/
structure IsTransfer (windowDays : Rat) (outflow inflow : Transaction) : Prop where
  settled : outflow.pending = false ∧ inflow.pending = false
  left : outflow.amount < 0
  arrived : 0 < inflow.amount
  equal : |inflow.amount| = |outflow.amount|
  currency : inflow.currency = outflow.currency
  accounts : inflow.accountId ≠ outflow.accountId
  near : (daysBetween outflow.postedAt inflow.postedAt : Rat) ≤ windowDays

theorem mem_outflows : outflow ∈ outflows transactions ↔
    outflow ∈ transactions ∧ outflow.pending = false ∧ outflow.amount < 0 := by
  simp [outflows]

theorem mem_inflows : inflow ∈ inflows transactions ↔
    inflow ∈ transactions ∧ inflow.pending = false ∧ 0 < inflow.amount := by
  simp [inflows]

theorem takes_iff (left : outflow ∈ outflows transactions) (arrived : inflow ∈ inflows transactions) :
    Takes windowDays claimed outflow inflow ↔
      inflow.id ∉ claimed ∧ IsTransfer windowDays outflow inflow := by
  obtain ⟨-, settled, negative⟩ := mem_outflows.mp left
  obtain ⟨-, settled', positive⟩ := mem_inflows.mp arrived
  have sides : isOtherSide outflow inflow = true ↔ |inflow.amount| = |outflow.amount| ∧
      inflow.currency = outflow.currency ∧ inflow.accountId ≠ outflow.accountId := by
    rw [abs_of_pos positive]
    simp [isOtherSide, and_assoc]
  constructor
  · intro takes
    obtain ⟨equal, currency, accounts⟩ := sides.mp takes.otherSide
    exact ⟨takes.free, ⟨settled, settled'⟩, negative, positive, equal, currency, accounts, takes.near⟩
  · rintro ⟨free, transfer⟩
    exact ⟨free, sides.mpr ⟨transfer.equal, transfer.currency, transfer.accounts⟩, transfer.near⟩

theorem mem_pairings {gap : Nat} (h : (outflow, inflow, gap) ∈ pairings C options transactions) :
    outflow ∈ transactions ∧ inflow ∈ transactions ∧ IsTransfer options.window outflow inflow ∧
      gap = daysBetween outflow.postedAt inflow.postedAt := by
  have served : outflow ∈ (pairings C options transactions).map Prod.fst := List.mem_map_of_mem h
  have left := (List.mem_insertionSort _).mp (assign_sublist.subset served)
  obtain ⟨sofar, -, chosen⟩ := chosen_of_mem h
  rcases closest_some chosen with start | ⟨stored, takes, hgap⟩
  · cases start
  · have arrived := (List.mem_insertionSort _).mp stored
    exact ⟨(mem_outflows.mp left).1, (mem_inflows.mp arrived).1, ((takes_iff left arrived).mp takes).2, hgap⟩

/-- The collation puts no two of the texts in one place. -/
def TellsApart (C : Collation) (texts : List String) : Prop :=
  ∀ a ∈ texts, ∀ b ∈ texts, C.le a b = true → C.le b a = true → a = b

theorem eq_of_id {a b : Transaction} (ids : (transactions.map (·.id)).Nodup) (ha : a ∈ transactions) (hb : b ∈ transactions)
    (same : a.id = b.id) : a = b :=
  List.inj_on_of_nodup_map ids ha hb same

theorem nodup_outflowIds (ids : (transactions.map (·.id)).Nodup) :
    ((pairings C options transactions).map fun pair => pair.1.id).Nodup := by
  have sub : ((pairings C options transactions).map Prod.fst).Sublist _ := assign_sublist
  have sorted := (List.perm_insertionSort (byDateThenId C) (outflows transactions)).map (·.id)
  have left : ((outflows transactions).map (·.id)).Nodup := ids.sublist (List.filter_sublist.map _)
  have paired := (sorted.nodup_iff.mpr left).sublist (sub.map (·.id))
  rwa [List.map_map] at paired

theorem nodup_inflowIds : ((pairings C options transactions).map fun pair => pair.2.1.id).Nodup := by
  apply assign_nodup fun best : Transaction × Nat => best.1.id
  · intro sofar outflow best chosen
    rcases closest_some chosen with start | ⟨-, takes, -⟩
    · cases start
    · exact takes.free
  · simp

/-- No transaction is paired twice, on either side. -/
theorem nodup_internalTransferIds (ids : (transactions.map (·.id)).Nodup) :
    (internalTransferIds (detectInternalTransfers C options transactions)).Nodup := by
  have sides : (internalTransferIds (detectInternalTransfers C options transactions)).Perm
      ((pairings C options transactions).map (fun pair => pair.1.id) ++
        (pairings C options transactions).map fun pair => pair.2.1.id) := by
    have single : (pairings C options transactions).map (fun pair => pair.2.1.id) =
        (pairings C options transactions).flatMap fun pair => [pair.2.1.id] := List.map_eq_flatMap
    rw [internalTransferIds, detectInternalTransfers, List.flatMap_map, single]
    exact (List.map_append_flatMap_perm (pairings C options transactions) (fun pair => pair.1.id)
      fun pair => [pair.2.1.id]).symm
  rw [sides.nodup_iff, List.nodup_append]
  refine ⟨nodup_outflowIds ids, nodup_inflowIds, ?_⟩
  intro id left id' right same
  obtain ⟨⟨a, b, gap⟩, stored, rfl⟩ := List.mem_map.mp left
  obtain ⟨⟨a', b', gap'⟩, stored', rfl⟩ := List.mem_map.mp right
  obtain ⟨ha, -, transfer, -⟩ := mem_pairings stored
  obtain ⟨-, hb', transfer', -⟩ := mem_pairings stored'
  obtain rfl := eq_of_id ids ha hb' same
  exact absurd transfer.left (not_lt.mpr transfer'.arrived.le)

theorem orders_byDateThenId (ids : (transactions.map (·.id)).Nodup)
    (strict : TellsApart C (transactions.map (·.id))) :
    Orders (byDateThenId C) transactions where
  total a _ b _ := by
    by_cases same : a.postedAt = b.postedAt
    · simpa [byDateThenId, same] using C.total a.id b.id
    · simpa [byDateThenId, same, Ne.symm same] using Insights.Date.le_total a.postedAt b.postedAt
  trans a _ b _ c _ hab hbc := by
    unfold byDateThenId at hab hbc ⊢
    split at hab <;> split at hbc <;> rename_i first second
    · rw [if_pos (first.trans second)]
      exact C.trans _ _ _ hab hbc
    · rw [if_neg (first ▸ second), first]
      exact hbc
    · rw [if_neg (second ▸ first), ← second]
      exact hab
    · rw [if_neg]
      · exact Insights.Date.le_trans hab hbc
      · intro same
        exact first (Insights.Date.le_antisymm hab (same ▸ hbc))
  antisymm a ha b hb hab hba := by
    have dates : a.postedAt = b.postedAt := by
      by_contra other
      rw [byDateThenId, if_neg other] at hab
      rw [byDateThenId, if_neg (Ne.symm other)] at hba
      exact other (Insights.Date.le_antisymm hab hba)
    rw [byDateThenId, if_pos dates] at hab
    rw [byDateThenId, if_pos dates.symm] at hba
    exact eq_of_id ids ha hb (strict _ (List.mem_map_of_mem ha) _ (List.mem_map_of_mem hb) hab hba)

theorem pairings_perm {transactions' : List Transaction} (ids : (transactions.map (·.id)).Nodup)
    (strict : TellsApart C (transactions.map (·.id))) (perm : transactions.Perm transactions') :
    pairings C options transactions = pairings C options transactions' := by
  have orders := orders_byDateThenId ids strict
  have left : Orders (byDateThenId C) (outflows transactions) := orders.subset (List.filter_subset_self _)
  have right : Orders (byDateThenId C) (inflows transactions) := orders.subset (List.filter_subset_self _)
  rw [pairings, left.insertionSort_eq (perm.filter _), right.insertionSort_eq (perm.filter _)]
  rfl

/-- An outflow and an inflow that could be paired are not both left alone. -/
theorem paired_of_isTransfer (left : outflow ∈ transactions) (arrived : inflow ∈ transactions)
    (transfer : IsTransfer options.window outflow inflow) :
    outflow.id ∈ internalTransferIds (detectInternalTransfers C options transactions) ∨
      inflow.id ∈ internalTransferIds (detectInternalTransfers C options transactions) := by
  have both {pair : Transaction × Transaction × Nat} (stored : pair ∈ pairings C options transactions)
      {id : String} (side : id ∈ [pair.1.id, pair.2.1.id]) :
      id ∈ internalTransferIds (detectInternalTransfers C options transactions) :=
    List.mem_flatMap.mpr ⟨toPair pair.1 pair.2, List.mem_map_of_mem stored, side⟩
  by_cases served : outflow ∈ (pairings C options transactions).map Prod.fst
  · obtain ⟨pair, stored, rfl⟩ := List.mem_map.mp served
    exact .inl (both stored List.mem_cons_self)
  · have out := mem_outflows.mpr ⟨left, transfer.settled.1, transfer.left⟩
    have in_ := mem_inflows.mpr ⟨arrived, transfer.settled.2, transfer.arrived⟩
    obtain ⟨sofar, nothing, held⟩ := unserved ((List.mem_insertionSort _).mpr out) served
    have passed := (closest_none nothing).2 inflow ((List.mem_insertionSort _).mpr in_)
    rw [takes_iff out in_, not_and'] at passed
    rcases held _ (not_not.mp (passed transfer)) with start | ⟨pair, stored, claims⟩
    · cases start
    · exact .inr (both stored claims)

/-- The pairs do not depend on the order of the list, use no transaction twice, are transfers
between two accounts, and leave no transfer with both sides unpaired. -/
theorem detectInternalTransfers_spec (C : Collation) (options : InternalTransferOptions)
    (transactions : List Transaction) (ids : (transactions.map (·.id)).Nodup)
    (strict : TellsApart C (transactions.map (·.id))) :
    (∀ transactions', transactions.Perm transactions' →
      detectInternalTransfers C options transactions' = detectInternalTransfers C options transactions) ∧
    (internalTransferIds (detectInternalTransfers C options transactions)).Nodup ∧
    (∀ pair ∈ detectInternalTransfers C options transactions, ∃ outflow ∈ transactions,
      ∃ inflow ∈ transactions, IsTransfer options.window outflow inflow ∧
        pair = ⟨outflow.id, inflow.id, |outflow.amount|, outflow.currency,
          daysBetween outflow.postedAt inflow.postedAt⟩) ∧
    ∀ outflow ∈ transactions, ∀ inflow ∈ transactions, IsTransfer options.window outflow inflow →
      outflow.id ∈ internalTransferIds (detectInternalTransfers C options transactions) ∨
        inflow.id ∈ internalTransferIds (detectInternalTransfers C options transactions) := by
  refine ⟨?_, nodup_internalTransferIds ids, ?_, ?_⟩
  · intro transactions' perm
    rw [detectInternalTransfers, detectInternalTransfers, pairings_perm ids strict perm]
  · intro pair stored
    obtain ⟨⟨outflow, inflow, gap⟩, paired, rfl⟩ := List.mem_map.mp stored
    obtain ⟨left, arrived, transfer, rfl⟩ := mem_pairings paired
    exact ⟨outflow, left, inflow, arrived, transfer, rfl⟩
  · intro outflow left inflow arrived transfer
    exact paired_of_isTransfer left arrived transfer

theorem decide_le_total (a b : String) : decide (a ≤ b) = true ∨ decide (b ≤ a) = true :=
  (String.le_total a b).imp decide_eq_true decide_eq_true

theorem decide_le_trans (a b c : String) (ab : decide (a ≤ b) = true) (bc : decide (b ≤ c) = true) :
    decide (a ≤ c) = true :=
  decide_eq_true (String.le_trans (of_decide_eq_true ab) (of_decide_eq_true bc))

/-- The order of the characters. -/
def byCharacters : Collation where
  le a b := decide (a ≤ b)
  total := decide_le_total
  trans := decide_le_trans

theorem byCharacters_tellsApart (texts : List String) : TellsApart byCharacters texts := by
  intro a _ b _ hab hba
  exact le_antisymm (of_decide_eq_true hab) (of_decide_eq_true hba)

theorem march_month : 1 ≤ 3 ∧ 3 ≤ 12 := by decide

theorem march_second : 1 ≤ 2 ∧ 2 ≤ Imports.daysInMonth 2026 3 := by decide

theorem march_third : 1 ≤ 3 ∧ 3 ≤ Imports.daysInMonth 2026 3 := by decide

/-- Out of the checking account. -/
def withdrawal : Transaction :=
  ⟨⟨"txn_1", ⟨2026, 3, 2, march_month, march_second⟩, -50000, "CAD", "withdrawal", none, "unknown",
    false, false⟩, "checking"⟩

/-- Into the savings account. -/
def deposit : Transaction :=
  ⟨⟨"txn_2", ⟨2026, 3, 3, march_month, march_third⟩, 50000, "CAD", "e-transfer", none, "income",
    false, false⟩, "savings"⟩

theorem withdrawal_deposit : IsTransfer ({} : InternalTransferOptions).window withdrawal deposit :=
  ⟨⟨rfl, rfl⟩, by decide, by decide, by decide, rfl, by decide, by decide +kernel⟩

theorem detectInternalTransfers_deposit :
    "txn_1" ∈ internalTransferIds (detectInternalTransfers byCharacters {} [deposit, withdrawal]) ∨
      "txn_2" ∈ internalTransferIds (detectInternalTransfers byCharacters {} [deposit, withdrawal]) :=
  (detectInternalTransfers_spec byCharacters {} [deposit, withdrawal] (by decide)
    (byCharacters_tellsApart _)).2.2.2 withdrawal (by simp) deposit (by simp) withdrawal_deposit

end Finverse.Transactions
