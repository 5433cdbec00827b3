import Finverse.Split.SettleUp

/-! When the suggested payments are as few as possible. -/

namespace Finverse.Split

open Netting Relation

/-- No payments that clear the balances are fewer than the suggested ones. -/
def Fewest (balances : OrdMap String Int) : Prop :=
  ∀ payments : List SplitSettlementSuggestion,
    (∀ p ∈ payments, 0 < p.amount ∧ p.fromUserId ≠ p.toUserId) →
    (∀ value ∈ (payments.foldl pay balances).values, value = 0) →
    (suggestSettlements balances).length ≤ payments.length

def Next (s s' : Standing) : Prop := ∃ p, round s = some (p, s')

/-- Divide the members with something left into as many groups as possible that each add up to
nothing: some such division has the two that the round takes in one group. -/
def StaysInGroup (s : Standing) : Prop :=
  ∀ p s', round s = some (p, s') → Together s.members s.held p.transfer

/-- Every round that the loop makes for the balances stays in a group. -/
def WithinGroups (balances : OrdMap String Int) : Prop :=
  ∀ s, ReflTransGen Next (opening balances) s → StaysInGroup s

theorem forall_reached_iff {P : Standing → Prop} {s s' : Standing}
    {p : SplitSettlementSuggestion} (turn : round s = some (p, s')) :
    (∀ s₁, ReflTransGen Next s s₁ → P s₁) ↔
      P s ∧ ∀ s₁, ReflTransGen Next s' s₁ → P s₁ := by
  constructor
  · intro all
    exact ⟨all s .refl, fun s₁ reached => all s₁ (.head ⟨p, turn⟩ reached)⟩
  · rintro ⟨first, rest⟩ s₁ reached
    rcases reached.cases_head with rfl | ⟨s₂, ⟨q, turn'⟩, reached⟩
    · exact first
    · obtain ⟨rfl, rfl⟩ := Prod.mk.inj (Option.some.inj (turn.symm.trans turn'))
      exact rest s₁ reached

theorem takes_settleLoop_iff {s : Standing} (sound : s.Sound) :
    Takes s.held (settleLoop s).length ↔ ∀ s₁, ReflTransGen Next s s₁ → StaysInGroup s₁ := by
  induction s using settleLoop.induct with
  | case1 s stop =>
    rw [settleLoop_none stop]
    refine iff_of_true (fun _ _ _ => Nat.zero_le _) fun s₁ reached p s' turn => ?_
    rcases reached.cases_head with rfl | ⟨s₂, ⟨q, turn'⟩, -⟩
    · rw [stop] at turn
      cases turn
    · rw [stop] at turn'
      cases turn'
  | case2 s p s' turn ih =>
    have found := turn_of_round sound turn
    have rest := clears_settleLoop (sound_round sound turn)
    have later := ih (sound_round sound turn)
    have exhausts := found.exhausts
    rw [held_round turn] at rest later exhausts
    have step := takes_succ_iff (fun _ out => held_outside out) found.proper found.payer found.payee
      exhausts rest
    rw [List.length_map] at step
    have here : StaysInGroup s ↔ Together s.members s.held p.transfer := by
      constructor
      · exact fun stays => stays p s' turn
      · intro together q s'' turn'
        obtain ⟨rfl, rfl⟩ := Prod.mk.inj (Option.some.inj (turn.symm.trans turn'))
        exact together
    rw [settleLoop_some turn, List.length_cons, step, later, forall_reached_iff turn, here]

theorem cleared_iff (balances : OrdMap String Int) :
    (∀ value ∈ balances.values, value = 0) ↔ ∀ userId, balanceOf balances userId = 0 := by
  constructor
  · intro zero userId
    rw [balanceOf]
    cases found : balances.get? userId with
    | none => rfl
    | some value => exact zero value (OrdMap.mem_values.mpr ⟨userId, found⟩)
  · intro zero value mem
    obtain ⟨userId, found⟩ := OrdMap.mem_values.mp mem
    have here := zero userId
    rw [balanceOf, found] at here
    exact here

theorem fewest_iff_takes (balances : OrdMap String Int) :
    Fewest balances ↔ Takes (balanceOf balances) (suggestSettlements balances).length := by
  constructor
  · intro fewest ts proper clears
    let payments : List SplitSettlementSuggestion := ts.map fun t => ⟨t.payer, t.payee, t.amount⟩
    have same : payments.map (·.transfer) = ts := by
      rw [List.map_map]
      exact List.map_id ts
    have length : payments.length = ts.length := List.length_map _
    rw [← length]
    refine fewest payments (fun p hp => ?_) ((cleared_iff _).mpr fun userId => ?_)
    · obtain ⟨t, ht, rfl⟩ := List.mem_map.mp hp
      exact (proper t ht).symm
    · rw [balanceOf_foldl_pay, same]
      exact clears userId
  · intro takes payments proper zero
    rw [← @List.length_map _ _ payments (·.transfer)]
    refine takes _ (fun t ht => ?_) fun userId => ?_
    · obtain ⟨p, hp, rfl⟩ := List.mem_map.mp ht
      exact (proper p hp).symm
    · rw [← balanceOf_foldl_pay]
      exact (cleared_iff _).mp zero userId

/-- The suggestions are as few as possible just for the balances whose every round pairs two members
that need not have been kept apart. -/
theorem fewest_iff_withinGroups {balances : OrdMap String Int} (even : total balances = 0) :
    Fewest balances ↔ WithinGroups balances := by
  rw [fewest_iff_takes, WithinGroups, ← takes_settleLoop_iff (opening_sound even), opening_held]
  rfl

theorem distinct_five : ["ana", "ben", "cem", "dan", "eva"].Nodup := by
  decide

/-- Two groups that could settle apart: Ben with Cem, and Ana with Dan and Eva. -/
def two_groups : OrdMap String Int :=
  ⟨[("ana", 5), ("ben", 4), ("cem", -4), ("dan", -3), ("eva", -2)], distinct_five⟩

theorem two_groups_suggestions : suggestSettlements two_groups =
    [⟨"cem", "ana", 4⟩, ⟨"dan", "ben", 3⟩, ⟨"eva", "ben", 1⟩, ⟨"eva", "ana", 1⟩] := by
  rw [suggestSettlements, settleLoop_some rfl, settleLoop_some rfl, settleLoop_some rfl,
    settleLoop_some rfl, settleLoop_none rfl]
  rfl

theorem two_groups_not_fewest : ¬ Fewest two_groups := by
  intro fewest
  -- The two groups settled apart take one payment less.
  have few := fewest [⟨"cem", "ben", 4⟩, ⟨"dan", "ana", 3⟩, ⟨"eva", "ana", 2⟩] (by decide) (by decide)
  rw [two_groups_suggestions] at few
  exact absurd few (by decide)

/-- Whoever settles up is not told the fewest payments. -/
theorem suggestSettlements_not_fewest :
    ¬ ∀ balances : OrdMap String Int, total balances = 0 → Fewest balances :=
  fun all => two_groups_not_fewest (all two_groups rfl)

theorem two_groups_cross : ¬ WithinGroups two_groups :=
  fun within => two_groups_not_fewest ((fewest_iff_withinGroups rfl).mpr within)

end Finverse.Split
