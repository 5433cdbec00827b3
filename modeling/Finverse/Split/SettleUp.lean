import Finverse.Framework.Netting
import Finverse.Split.Domain
import Mathlib.Algebra.Order.BigOperators.Group.List
import Mathlib.Data.List.Sort
import Mathlib.Logic.Relation

/-! Settling up: the payments suggested to a group, and how many of them there are. -/

namespace Finverse.Split

structure SplitSettlementSuggestion where
  fromUserId : String
  toUserId : String
  amount : Int
  deriving DecidableEq, Repr

/-- What a member is still owed, or still owes. -/
structure Unsettled where
  userId : String
  amount : Int
  deriving DecidableEq, Repr

def creditors (entries : List (String × Int)) : List Unsettled :=
  (entries.filter fun e => 0 < e.2).map fun e => ⟨e.1, e.2⟩

def debtors (entries : List (String × Int)) : List Unsettled :=
  (entries.filter fun e => e.2 < 0).map fun e => ⟨e.1, -e.2⟩

/-- The largest amount first, equal ones in the order they stand in. -/
def byAmount (unsettled : List Unsettled) : List Unsettled :=
  unsettled.insertionSort fun a b => b.amount ≤ a.amount

/-- Takes the amount off the first of the list, who leaves the list with nothing left. -/
def payOff (amount : Int) (first : Unsettled) (others : List Unsettled) : List Unsettled :=
  if first.amount - amount = 0 then others
  else ⟨first.userId, first.amount - amount⟩ :: others

structure Standing where
  creditors : List Unsettled
  debtors : List Unsettled
  deriving DecidableEq, Repr

/-- One turn of the loop, none once either list is empty. -/
def round (standing : Standing) : Option (SplitSettlementSuggestion × Standing) :=
  match byAmount standing.creditors, byAmount standing.debtors with
  | creditor :: creditors, debtor :: debtors =>
    let amount := min creditor.amount debtor.amount
    some (⟨debtor.userId, creditor.userId, amount⟩,
      ⟨payOff amount creditor creditors, payOff amount debtor debtors⟩)
  | _, _ => none

theorem round_eq_some {s s' : Standing} {p : SplitSettlementSuggestion}
    (h : round s = some (p, s')) :
    ∃ creditor creditors debtor debtors, byAmount s.creditors = creditor :: creditors ∧
      byAmount s.debtors = debtor :: debtors ∧
      p = ⟨debtor.userId, creditor.userId, min creditor.amount debtor.amount⟩ ∧
      s' = ⟨payOff p.amount creditor creditors, payOff p.amount debtor debtors⟩ := by
  rw [round] at h
  split at h
  · rename_i creditor creditors debtor debtors hc hd
    obtain ⟨rfl, rfl⟩ := Prod.mk.inj (Option.some.inj h)
    exact ⟨creditor, creditors, debtor, debtors, hc, hd, rfl, rfl⟩
  · cases h

theorem byAmount_perm (unsettled : List Unsettled) : (byAmount unsettled).Perm unsettled :=
  List.perm_insertionSort _ unsettled

theorem round_eq_none {s : Standing} (h : round s = none) : s.creditors = [] ∨ s.debtors = [] := by
  rw [round] at h
  split at h
  · cases h
  · rename_i none_left
    cases hc : byAmount s.creditors with
    | nil => exact Or.inl (List.perm_nil.mp (hc ▸ (byAmount_perm s.creditors).symm))
    | cons creditor creditors =>
      cases hd : byAmount s.debtors with
      | nil => exact Or.inr (List.perm_nil.mp (hd ▸ (byAmount_perm s.debtors).symm))
      | cons debtor debtors => exact absurd hd (none_left _ _ _ _ hc)

def Standing.size (s : Standing) : ℕ := s.creditors.length + s.debtors.length

/-- Whoever has the smaller amount leaves the lists. -/
theorem size_round {s s' : Standing} {p : SplitSettlementSuggestion}
    (h : round s = some (p, s')) : s'.size < s.size := by
  obtain ⟨creditor, creditors, debtor, debtors, hc, hd, rfl, rfl⟩ := round_eq_some h
  have credit := (byAmount_perm s.creditors).length_eq
  have debit := (byAmount_perm s.debtors).length_eq
  rw [hc, List.length_cons] at credit
  rw [hd, List.length_cons] at debit
  simp only [Standing.size, payOff]
  rcases le_total creditor.amount debtor.amount with less | less
  · rw [min_eq_left less, if_pos (sub_self _)]
    split
    · omega
    · rw [List.length_cons]
      omega
  · rw [min_eq_right less, if_pos (sub_self _)]
    split
    · omega
    · rw [List.length_cons]
      omega

def settleLoop (standing : Standing) : List SplitSettlementSuggestion :=
  match _turn : round standing with
  | none => []
  | some (suggestion, standing') => suggestion :: settleLoop standing'
termination_by standing.size
decreasing_by exact size_round _turn

def opening (balances : OrdMap String Int) : Standing :=
  ⟨creditors balances.entries, debtors balances.entries⟩

def suggestSettlements (balances : OrdMap String Int) : List SplitSettlementSuggestion :=
  settleLoop (opening balances)

theorem settleLoop_some {s s' : Standing} {p : SplitSettlementSuggestion}
    (h : round s = some (p, s')) : settleLoop s = p :: settleLoop s' := by
  rw [settleLoop]
  split
  · rename_i stop
    rw [stop] at h
    cases h
  · rename_i turn
    rw [turn] at h
    obtain ⟨rfl, rfl⟩ := Prod.mk.inj (Option.some.inj h)
    rfl

theorem settleLoop_none {s : Standing} (h : round s = none) : settleLoop s = [] := by
  rw [settleLoop]
  split
  · rfl
  · rename_i turn
    rw [turn] at h
    cases h

/-! ### The balances that the lists stand for -/

open Netting

def SplitSettlementSuggestion.transfer (p : SplitSettlementSuggestion) : Transfer String Int :=
  ⟨p.fromUserId, p.toUserId, p.amount⟩

def owed (userId : String) (unsettled : List Unsettled) : Int :=
  ((unsettled.filter fun u => u.userId = userId).map (·.amount)).sum

def Standing.held (s : Standing) : String → Int := fun userId =>
  owed userId s.creditors - owed userId s.debtors

def Standing.members (s : Standing) : Finset String :=
  ((s.creditors ++ s.debtors).map (·.userId)).toFinset

theorem owed_cons (userId : String) (u : Unsettled) (us : List Unsettled) :
    owed userId (u :: us) = (if userId = u.userId then u.amount else 0) + owed userId us := by
  by_cases same : u.userId = userId
  · simp [owed, same]
  · simp [owed, same, Ne.symm same]

theorem owed_perm {us vs : List Unsettled} (perm : us.Perm vs) (userId : String) :
    owed userId us = owed userId vs :=
  ((perm.filter _).map _).sum_eq

theorem owed_payOff (userId : String) (amount : Int) (u : Unsettled) (us : List Unsettled) :
    owed userId (payOff amount u us) =
      (if userId = u.userId then u.amount - amount else 0) + owed userId us := by
  rw [payOff]
  split
  · rename_i nothing
    simp [nothing]
  · rw [owed_cons]

theorem owed_outside {userId : String} {us : List Unsettled}
    (out : userId ∉ us.map (·.userId)) : owed userId us = 0 := by
  have nobody : us.filter (fun u => u.userId = userId) = [] := by
    apply List.filter_eq_nil_iff.mpr
    intro u hu same
    exact out (List.mem_map.mpr ⟨u, hu, of_decide_eq_true same⟩)
  rw [owed, nobody]
  rfl

/-- A turn of the loop is the payment it suggests. -/
theorem held_round {s s' : Standing} {p : SplitSettlementSuggestion}
    (h : round s = some (p, s')) : s'.held = p.transfer.apply s.held := by
  obtain ⟨creditor, creditors, debtor, debtors, hc, hd, hp, rfl⟩ := round_eq_some h
  funext userId
  have credit := owed_perm (byAmount_perm s.creditors) userId
  have debit := owed_perm (byAmount_perm s.debtors) userId
  rw [hc, owed_cons] at credit
  rw [hd, owed_cons] at debit
  have payer : p.fromUserId = debtor.userId := by rw [hp]
  have payee : p.toUserId = creditor.userId := by rw [hp]
  simp only [Standing.held, owed_payOff, Transfer.apply, SplitSettlementSuggestion.transfer,
    payer, payee, ← credit, ← debit]
  split_ifs <;> omega

/-- What every turn of the loop keeps. -/
structure Standing.Sound (s : Standing) : Prop where
  positive : ∀ u ∈ s.creditors ++ s.debtors, 0 < u.amount
  even : (s.creditors.map (·.amount)).sum = (s.debtors.map (·.amount)).sum
  distinct : ((s.creditors ++ s.debtors).map (·.userId)).Nodup

theorem payOff_sum (amount : Int) (u : Unsettled) (us : List Unsettled) :
    ((payOff amount u us).map (·.amount)).sum = u.amount - amount + (us.map (·.amount)).sum := by
  rw [payOff]
  split
  · omega
  · rw [List.map_cons, List.sum_cons]

theorem payOff_positive {amount : Int} {u : Unsettled} {us : List Unsettled}
    (enough : amount ≤ u.amount) (positive : ∀ v ∈ us, 0 < v.amount) :
    ∀ v ∈ payOff amount u us, 0 < v.amount := by
  rw [payOff]
  split
  · exact positive
  · rename_i left
    refine List.forall_mem_cons.mpr ⟨?_, positive⟩
    dsimp only
    omega

theorem payOff_sublist (amount : Int) (u : Unsettled) (us : List Unsettled) :
    ((payOff amount u us).map (·.userId)).Sublist ((u :: us).map (·.userId)) := by
  rw [payOff]
  split
  · exact List.sublist_cons_self _ _
  · exact List.Sublist.refl _

theorem sound_round {s s' : Standing} {p : SplitSettlementSuggestion} (sound : s.Sound)
    (h : round s = some (p, s')) : s'.Sound := by
  obtain ⟨creditor, creditors, debtor, debtors, hc, hd, hp, rfl⟩ := round_eq_some h
  have credit := byAmount_perm s.creditors
  have debit := byAmount_perm s.debtors
  rw [hc] at credit
  rw [hd] at debit
  have creditor_positive : ∀ u ∈ creditor :: creditors, 0 < u.amount := fun u hu =>
    sound.positive u (List.mem_append_left _ (credit.mem_iff.mp hu))
  have debtor_positive : ∀ u ∈ debtor :: debtors, 0 < u.amount := fun u hu =>
    sound.positive u (List.mem_append_right _ (debit.mem_iff.mp hu))
  have amount : p.amount = min creditor.amount debtor.amount := by rw [hp]
  constructor
  · intro u hu
    rcases List.mem_append.mp hu with hu | hu
    · exact payOff_positive (amount ▸ min_le_left _ _) (List.forall_mem_cons.mp creditor_positive).2
        u hu
    · exact payOff_positive (amount ▸ min_le_right _ _) (List.forall_mem_cons.mp debtor_positive).2
        u hu
  · have even := sound.even
    rw [← (credit.map (·.amount)).sum_eq, ← (debit.map (·.amount)).sum_eq, List.map_cons,
      List.map_cons, List.sum_cons, List.sum_cons] at even
    rw [payOff_sum, payOff_sum]
    omega
  · have distinct := (((credit.append debit).map (·.userId)).nodup_iff).mpr sound.distinct
    rw [List.map_append] at distinct ⊢
    exact distinct.sublist ((payOff_sublist _ _ _).append (payOff_sublist _ _ _))

theorem held_outside {s : Standing} {userId : String} (out : userId ∉ s.members) :
    s.held userId = 0 := by
  rw [Standing.members, List.mem_toFinset, List.map_append, List.mem_append, not_or] at out
  rw [Standing.held, owed_outside out.1, owed_outside out.2, sub_zero]

/-- What a turn of the loop has found. -/
structure Turn (s s' : Standing) (p : SplitSettlementSuggestion) : Prop where
  payer : p.fromUserId ∈ s.members
  payee : p.toUserId ∈ s.members
  proper : p.transfer.Proper
  exhausts : s'.held p.fromUserId = 0 ∨ s'.held p.toUserId = 0
  members : s'.members ⊆ s.members

theorem payOff_all (u : Unsettled) (us : List Unsettled) : payOff u.amount u us = us :=
  if_pos (sub_self _)

theorem turn_of_round {s s' : Standing} {p : SplitSettlementSuggestion} (sound : s.Sound)
    (h : round s = some (p, s')) : Turn s s' p := by
  obtain ⟨creditor, creditors, debtor, debtors, hc, hd, rfl, rfl⟩ := round_eq_some h
  have perm : ((creditor :: creditors) ++ (debtor :: debtors)).Perm (s.creditors ++ s.debtors) :=
    (hc ▸ byAmount_perm s.creditors).append (hd ▸ byAmount_perm s.debtors)
  have within : ∀ userId, userId ∈ s.members ↔ userId ∈ (creditor :: creditors).map (·.userId) ++
      (debtor :: debtors).map (·.userId) := by
    intro userId
    rw [Standing.members, List.mem_toFinset, ← (perm.map _).mem_iff, List.map_append]
  have distinct : ((creditor :: creditors).map (·.userId) ++
      (debtor :: debtors).map (·.userId)).Nodup := by
    rw [← List.map_append]
    exact (perm.map _).nodup_iff.mpr sound.distinct
  have credited : 0 < creditor.amount :=
    sound.positive creditor (perm.mem_iff.mp (List.mem_append_left _ List.mem_cons_self))
  have debited : 0 < debtor.amount :=
    sound.positive debtor (perm.mem_iff.mp (List.mem_append_right _ List.mem_cons_self))
  have ids_left := fun amount => payOff_sublist amount creditor creditors
  have ids_right := fun amount => payOff_sublist amount debtor debtors
  constructor
  · exact (within _).mpr (List.mem_append_right _ List.mem_cons_self)
  · exact (within _).mpr (List.mem_append_left _ List.mem_cons_self)
  · refine ⟨fun same => ?_, lt_min credited debited⟩
    exact (List.nodup_append.mp distinct).2.2 _ List.mem_cons_self _ List.mem_cons_self same.symm
  · rcases le_total creditor.amount debtor.amount with less | less
    · right
      apply held_outside
      rw [Standing.members, List.mem_toFinset, List.map_append]
      dsimp only
      rw [min_eq_left less, payOff_all]
      intro mem
      exact (List.nodup_cons.mp distinct).1
        (((List.Sublist.refl (creditors.map (·.userId))).append (ids_right _)).subset mem)
    · left
      apply held_outside
      rw [Standing.members, List.mem_toFinset, List.map_append]
      dsimp only
      rw [min_eq_right less, payOff_all]
      intro mem
      rw [List.map_cons (f := fun u : Unsettled => u.userId) (a := debtor), List.nodup_middle] at distinct
      exact (List.nodup_cons.mp distinct).1
        (((ids_left _).append (List.Sublist.refl (debtors.map (·.userId)))).subset mem)
  · intro userId mem
    rw [Standing.members, List.mem_toFinset, List.map_append] at mem
    exact (within userId).mpr (((ids_left _).append (ids_right _)).subset mem)

theorem eq_nil_of_sum_zero {us : List Unsettled} (positive : ∀ u ∈ us, 0 < u.amount)
    (sum : (us.map (·.amount)).sum = 0) : us = [] := by
  cases us with
  | nil => rfl
  | cons u us =>
    obtain ⟨first, others⟩ := List.forall_mem_cons.mp positive
    have rest : 0 ≤ (us.map (·.amount)).sum := by
      apply List.sum_nonneg
      intro amount mem
      obtain ⟨v, hv, rfl⟩ := List.mem_map.mp mem
      exact le_of_lt (others v hv)
    rw [List.map_cons, List.sum_cons] at sum
    omega

theorem Standing.Sound.nothing {s : Standing} (sound : s.Sound)
    (stop : s.creditors = [] ∨ s.debtors = []) : s.creditors = [] ∧ s.debtors = [] := by
  have even := sound.even
  rcases stop with none_left | none_left
  · refine ⟨none_left, eq_nil_of_sum_zero (fun u hu => ?_) ?_⟩
    · exact sound.positive u (List.mem_append_right _ hu)
    · rw [← even, none_left]
      rfl
  · refine ⟨eq_nil_of_sum_zero (fun u hu => ?_) ?_, none_left⟩
    · exact sound.positive u (List.mem_append_left _ hu)
    · rw [even, none_left]
      rfl

theorem clears_settleLoop {s : Standing} (sound : s.Sound) :
    Clears ((settleLoop s).map (·.transfer)) s.held := by
  induction s using settleLoop.induct with
  | case1 s stop =>
    rw [settleLoop_none stop]
    have nothing := sound.nothing (round_eq_none stop)
    intro userId
    simp [settle, Standing.held, owed, nothing.1, nothing.2]
  | case2 s p s' turn ih =>
    rw [settleLoop_some turn]
    have rest := ih (sound_round sound turn)
    rw [held_round turn] at rest
    exact rest

theorem proper_settleLoop {s : Standing} (sound : s.Sound) :
    ∀ p ∈ settleLoop s, p.transfer.Proper := by
  induction s using settleLoop.induct with
  | case1 s stop =>
    rw [settleLoop_none stop]
    simp
  | case2 s p s' turn ih =>
    rw [settleLoop_some turn]
    exact List.forall_mem_cons.mpr
      ⟨(turn_of_round sound turn).proper, ih (sound_round sound turn)⟩

/-- A round pays from a debtor to a creditor, and neither list gains anyone. -/
theorem ends_round {s s' : Standing} {p : SplitSettlementSuggestion} (h : round s = some (p, s')) :
    p.fromUserId ∈ s.debtors.map (·.userId) ∧ p.toUserId ∈ s.creditors.map (·.userId) ∧
      s'.debtors.map (·.userId) ⊆ s.debtors.map (·.userId) ∧
      s'.creditors.map (·.userId) ⊆ s.creditors.map (·.userId) := by
  obtain ⟨creditor, creditors, debtor, debtors, hc, hd, rfl, rfl⟩ := round_eq_some h
  have credit : ((creditor :: creditors).map (·.userId)).Perm (s.creditors.map (·.userId)) :=
    (hc ▸ byAmount_perm s.creditors).map _
  have debit : ((debtor :: debtors).map (·.userId)).Perm (s.debtors.map (·.userId)) :=
    (hd ▸ byAmount_perm s.debtors).map _
  refine ⟨debit.mem_iff.mp List.mem_cons_self, credit.mem_iff.mp List.mem_cons_self, ?_, ?_⟩
  · exact fun userId mem => debit.mem_iff.mp ((payOff_sublist _ _ _).subset mem)
  · exact fun userId mem => credit.mem_iff.mp ((payOff_sublist _ _ _).subset mem)

theorem ends_settleLoop (s : Standing) :
    ∀ p ∈ settleLoop s, p.fromUserId ∈ s.debtors.map (·.userId) ∧
      p.toUserId ∈ s.creditors.map (·.userId) := by
  induction s using settleLoop.induct with
  | case1 s stop =>
    rw [settleLoop_none stop]
    simp
  | case2 s p s' turn ih =>
    obtain ⟨payer, payee, debtors, creditors⟩ := ends_round turn
    rw [settleLoop_some turn]
    refine List.forall_mem_cons.mpr ⟨⟨payer, payee⟩, fun q hq => ?_⟩
    exact ⟨debtors (ih q hq).1, creditors (ih q hq).2⟩

theorem length_settleLoop (s : Standing) : (settleLoop s).length ≤ s.size - 1 := by
  induction s using settleLoop.induct with
  | case1 s stop =>
    rw [settleLoop_none stop]
    exact Nat.zero_le _
  | case2 s p s' turn ih =>
    rw [settleLoop_some turn, List.length_cons]
    have smaller := size_round turn
    obtain ⟨creditor, creditors, debtor, debtors, hc, hd, -, -⟩ := round_eq_some turn
    have credit := (byAmount_perm s.creditors).length_eq
    have debit := (byAmount_perm s.debtors).length_eq
    rw [hc, List.length_cons] at credit
    rw [hd, List.length_cons] at debit
    have both : 2 ≤ s.size := by
      rw [Standing.size]
      omega
    omega

/-! ### The opening lists -/

theorem opening_perm (entries : List (String × Int)) :
    ((creditors entries ++ debtors entries).map (·.userId)).Perm
      ((entries.filter fun e => e.2 ≠ 0).map Prod.fst) := by
  induction entries with
  | nil => exact List.Perm.refl _
  | cons e es ih =>
    rw [List.map_append] at ih ⊢
    rcases lt_trichotomy e.2 0 with negative | none_owed | positive
    · have credit : creditors (e :: es) = creditors es := by
        simp [creditors, not_lt.mpr negative.le]
      have debit : debtors (e :: es) = ⟨e.1, -e.2⟩ :: debtors es := by
        simp [debtors, negative]
      rw [credit, debit, List.map_cons, List.filter_cons_of_pos (by simp [negative.ne]),
        List.map_cons]
      exact List.perm_middle.trans (ih.cons _)
    · have credit : creditors (e :: es) = creditors es := by simp [creditors, none_owed]
      have debit : debtors (e :: es) = debtors es := by simp [debtors, none_owed]
      rw [credit, debit, List.filter_cons_of_neg (by simp [none_owed])]
      exact ih
    · have credit : creditors (e :: es) = ⟨e.1, e.2⟩ :: creditors es := by
        simp [creditors, positive]
      have debit : debtors (e :: es) = debtors es := by
        simp [debtors, not_lt.mpr positive.le]
      rw [credit, debit, List.map_cons, List.filter_cons_of_pos (by simp [positive.ne']),
        List.map_cons]
      exact ih.cons _

theorem opening_sum (entries : List (String × Int)) :
    ((creditors entries).map (·.amount)).sum - ((debtors entries).map (·.amount)).sum =
      (entries.map Prod.snd).sum := by
  induction entries with
  | nil => rfl
  | cons e es ih =>
    rw [List.map_cons, List.sum_cons, ← ih]
    rcases lt_trichotomy e.2 0 with negative | none_owed | positive
    · simp [creditors, debtors, negative, not_lt.mpr negative.le]
      omega
    · simp [creditors, debtors, none_owed]
    · simp [creditors, debtors, positive, not_lt.mpr positive.le]
      omega

theorem owed_cons_entry (userId : String) (e : String × Int) (es : List (String × Int)) :
    owed userId (creditors (e :: es)) - owed userId (debtors (e :: es)) =
      (if userId = e.1 then e.2 else 0) +
        (owed userId (creditors es) - owed userId (debtors es)) := by
  rcases lt_trichotomy e.2 0 with negative | none_owed | positive
  · have credit : creditors (e :: es) = creditors es := by
      simp [creditors, not_lt.mpr negative.le]
    have debit : debtors (e :: es) = ⟨e.1, -e.2⟩ :: debtors es := by simp [debtors, negative]
    rw [credit, debit, owed_cons]
    dsimp only
    split <;> omega
  · have credit : creditors (e :: es) = creditors es := by simp [creditors, none_owed]
    have debit : debtors (e :: es) = debtors es := by simp [debtors, none_owed]
    rw [credit, debit, none_owed]
    simp
  · have credit : creditors (e :: es) = ⟨e.1, e.2⟩ :: creditors es := by simp [creditors, positive]
    have debit : debtors (e :: es) = debtors es := by simp [debtors, not_lt.mpr positive.le]
    rw [credit, debit, owed_cons]
    dsimp only
    split <;> omega

theorem owed_entries {entries : List (String × Int)} (distinct : (entries.map Prod.fst).Nodup)
    (userId : String) :
    owed userId (creditors entries) - owed userId (debtors entries) =
      (OrdMap.lookup userId entries).getD 0 := by
  induction entries with
  | nil => rfl
  | cons e es ih =>
    obtain ⟨fresh, distinct⟩ := List.nodup_cons.mp distinct
    rw [owed_cons_entry, ih distinct, OrdMap.lookup]
    by_cases same : e.1 = userId
    · have absent : OrdMap.lookup userId es = none := by
        by_contra found
        obtain ⟨value, found⟩ := Option.ne_none_iff_exists'.mp found
        exact fresh (same ▸ List.mem_map_of_mem (OrdMap.mem_of_lookup found))
      simp [same, absent]
    · simp [same, Ne.symm same]

def balanceOf (balances : OrdMap String Int) : String → Int := fun userId =>
  (balances.get? userId).getD 0

theorem opening_held (balances : OrdMap String Int) :
    (opening balances).held = balanceOf balances :=
  funext fun userId => owed_entries balances.nodup userId

theorem balanceOf_mem {balances : OrdMap String Int} {e : String × Int}
    (mem : e ∈ balances.entries) : balanceOf balances e.1 = e.2 := by
  rw [balanceOf, OrdMap.get?_eq_some.mpr mem]
  rfl

theorem balanceOf_debtor {balances : OrdMap String Int} {userId : String}
    (mem : userId ∈ (opening balances).debtors.map (·.userId)) : balanceOf balances userId < 0 := by
  obtain ⟨u, hu, rfl⟩ := List.mem_map.mp mem
  obtain ⟨e, he, rfl⟩ := List.mem_map.mp hu
  obtain ⟨entry, negative⟩ := List.mem_filter.mp he
  exact (balanceOf_mem entry).trans_lt (of_decide_eq_true negative)

theorem balanceOf_creditor {balances : OrdMap String Int} {userId : String}
    (mem : userId ∈ (opening balances).creditors.map (·.userId)) :
    0 < balanceOf balances userId := by
  obtain ⟨u, hu, rfl⟩ := List.mem_map.mp mem
  obtain ⟨e, he, rfl⟩ := List.mem_map.mp hu
  obtain ⟨entry, positive⟩ := List.mem_filter.mp he
  exact (of_decide_eq_true positive : 0 < e.2).trans_eq (balanceOf_mem entry).symm

theorem opening_sound {balances : OrdMap String Int} (even : total balances = 0) :
    (opening balances).Sound := by
  constructor
  · intro u hu
    rcases List.mem_append.mp hu with hu | hu
    · obtain ⟨e, he, rfl⟩ := List.mem_map.mp hu
      exact of_decide_eq_true (List.mem_filter.mp he).2
    · obtain ⟨e, he, rfl⟩ := List.mem_map.mp hu
      exact neg_pos.mpr (of_decide_eq_true (List.mem_filter.mp he).2)
  · have sum := opening_sum balances.entries
    have zero : (balances.entries.map Prod.snd).sum = 0 := even
    rw [zero] at sum
    exact sub_eq_zero.mp sum
  · rw [opening, (opening_perm balances.entries).nodup_iff]
    exact balances.nodup.sublist (List.filter_sublist.map _)

/-! ### Payments -/

/-- A payment as it changes the balances, once it is stored as a settlement. -/
def pay (balances : OrdMap String Int) (p : SplitSettlementSuggestion) : OrdMap String Int :=
  bump (bump balances p.fromUserId p.amount) p.toUserId (-p.amount)

theorem balanceOf_bump (balances : OrdMap String Int) (userId : String) (delta : Int)
    (other : String) :
    balanceOf (bump balances userId delta) other =
      balanceOf balances other + if other = userId then delta else 0 := by
  rw [balanceOf, bump, OrdMap.get?_set]
  by_cases same : userId = other
  · simp [same, balanceOf]
  · simp [same, Ne.symm same, balanceOf]

theorem balanceOf_pay (balances : OrdMap String Int) (p : SplitSettlementSuggestion) :
    balanceOf (pay balances p) = p.transfer.apply (balanceOf balances) := by
  funext userId
  rw [pay, balanceOf_bump, balanceOf_bump]
  have debit : (if userId = p.toUserId then -p.amount else 0) =
      -(if userId = p.toUserId then p.amount else 0) := by
    split
    · rfl
    · rfl
  rw [debit, ← sub_eq_add_neg]
  rfl

theorem balanceOf_foldl_pay (payments : List SplitSettlementSuggestion)
    (balances : OrdMap String Int) :
    balanceOf (payments.foldl pay balances) =
      settle (payments.map (·.transfer)) (balanceOf balances) := by
  induction payments generalizing balances with
  | nil => rfl
  | cons p payments ih =>
    rw [List.foldl_cons, ih, balanceOf_pay]
    rfl

theorem bumpSettlement_eq_pay {currency : String} {settlement : SplitSettlement}
    (same : settlement.currency = currency) (balances : OrdMap String Int) :
    bumpSettlement currency balances settlement =
      pay balances ⟨settlement.fromUserId, settlement.toUserId, settlement.amount⟩ :=
  if_neg (not_not.mpr same)

/-- Settlements of the currency are the payments they record. -/
theorem foldl_bumpSettlement {currency : String} {settlements : List SplitSettlement}
    (same : ∀ s ∈ settlements, s.currency = currency) (balances : OrdMap String Int) :
    settlements.foldl (bumpSettlement currency) balances =
      (settlements.map fun s => ⟨s.fromUserId, s.toUserId, s.amount⟩).foldl pay balances := by
  induction settlements generalizing balances with
  | nil => rfl
  | cons s settlements ih =>
    obtain ⟨first, rest⟩ := List.forall_mem_cons.mp same
    rw [List.foldl_cons, List.map_cons, List.foldl_cons, bumpSettlement_eq_pay first, ih rest]

/-- What the suggestions are for balances that add up to nothing: no more than one for each open
balance but one, each of something and between two members, and once all of them are stored as
settlements, nobody has a balance left. -/
theorem suggestSettlements_settle {balances : OrdMap String Int} (even : total balances = 0) :
    (suggestSettlements balances).length ≤ (balances.values.filter (· ≠ 0)).length - 1 ∧
      (∀ p ∈ suggestSettlements balances, 0 < p.amount ∧ p.fromUserId ≠ p.toUserId ∧
        balanceOf balances p.fromUserId < 0 ∧ 0 < balanceOf balances p.toUserId) ∧
      ∀ (currency : String) (settlements : List SplitSettlement),
        (∀ s ∈ settlements, s.currency = currency) →
        (settlements.map fun s => ⟨s.fromUserId, s.toUserId, s.amount⟩) =
          suggestSettlements balances →
        ∀ value ∈ (settlements.foldl (bumpSettlement currency) balances).values, value = 0 := by
  have sound := opening_sound even
  refine ⟨?_, fun p hp => ?_, fun currency settlements same listed value hvalue => ?_⟩
  · have length := length_settleLoop (opening balances)
    have open_balances := (opening_perm balances.entries).length_eq
    rw [List.length_map, List.length_append, List.length_map] at open_balances
    have values : (balances.values.filter (· ≠ 0)).length =
        (balances.entries.filter fun e => e.2 ≠ 0).length := by
      rw [OrdMap.values, List.filter_map, List.length_map]
      rfl
    rw [values, ← open_balances]
    exact length
  · obtain ⟨between, positive⟩ := proper_settleLoop sound p hp
    obtain ⟨payer, payee⟩ := ends_settleLoop (opening balances) p hp
    exact ⟨positive, between, balanceOf_debtor payer, balanceOf_creditor payee⟩
  · rw [foldl_bumpSettlement same, listed] at hvalue
    obtain ⟨userId, found⟩ := OrdMap.mem_values.mp hvalue
    have cleared := clears_settleLoop sound userId
    rw [opening_held, ← balanceOf_foldl_pay, balanceOf] at cleared
    rw [suggestSettlements] at found
    rw [found] at cleared
    exact cleared

theorem distinct_three : ["sam", "kim", "lou"].Nodup := by
  decide

/-- Sam is owed what Kim and Lou have not paid yet. -/
def flat_owes_sam : OrdMap String Int :=
  ⟨[("sam", 700), ("kim", -400), ("lou", -300)], distinct_three⟩

theorem flat_settled : (suggestSettlements flat_owes_sam).length ≤ 2 :=
  (@suggestSettlements_settle flat_owes_sam rfl).1

end Finverse.Split
