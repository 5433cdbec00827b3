import Mathlib.Algebra.Order.Group.Defs
import Mathlib.Data.List.Count
import Mathlib.Data.Nat.Find
import Mathlib.Tactic.Common

/-! Hits in numbered windows: how many of them come in any interval, whatever the windows are aligned to. -/

namespace Finverse.Windows

/-- The hits in a window. -/
def inWindow {α : Type} (hits : List (α × Nat)) (window : Nat) : Nat := hits.countP fun hit => hit.2 = window

theorem countP_two_windows {α : Type} (hits : List (α × Nat)) (window : Nat) :
    (hits.countP fun hit => hit.2 = window ∨ hit.2 = window + 1) ≤
      inWindow hits window + inWindow hits (window + 1) := by
  induction hits with
  | nil => exact Nat.le_refl _
  | cons hit hits ih =>
    unfold inWindow at ih ⊢
    simp only [List.countP_cons, decide_eq_true_eq]
    split_ifs <;> omega

variable {α : Type} [LinearOrder α] [AddCommGroup α] [IsOrderedAddMonoid α] {hits : List (α × Nat)} {limit : Nat}
  {span : α}

/-- The hits from `start` on, before `start + span`. -/
def inInterval (hits : List (α × Nat)) (start span : α) : Nat :=
  hits.countP fun hit => start ≤ hit.1 ∧ hit.1 < start + span

/-- If no window has more hits than the limit, and hits two windows apart are a span apart, there are
at most twice as many in an interval. -/
theorem inInterval_le (few : ∀ window, inWindow hits window ≤ limit)
    (apart : ∀ hit ∈ hits, ∀ later ∈ hits, hit.2 + 2 ≤ later.2 → hit.1 + span ≤ later.1) (start : α) :
    inInterval hits start span ≤ 2 * limit := by
  classical
  by_cases some_hit : ∃ window, ∃ hit ∈ hits, (start ≤ hit.1 ∧ hit.1 < start + span) ∧ hit.2 = window
  · -- All hits are in the first window that has any, or in the next one.
    obtain ⟨first, listed, inside, number⟩ := Nat.find_spec some_hit
    have least (hit : α × Nat) (there : hit ∈ hits) (within : start ≤ hit.1 ∧ hit.1 < start + span) :
        Nat.find some_hit ≤ hit.2 := Nat.find_min' some_hit ⟨hit, there, within, rfl⟩
    have two (hit : α × Nat) (there : hit ∈ hits) (within : start ≤ hit.1 ∧ hit.1 < start + span) :
        hit.2 = Nat.find some_hit ∨ hit.2 = Nat.find some_hit + 1 := by
      have low := least hit there within
      by_contra later
      have far : first.2 + 2 ≤ hit.2 := by omega
      have separated := apart first listed hit there far
      have shifted := add_le_add_left inside.1 span
      exact absurd within.2 (not_lt.mpr (shifted.trans separated))
    have covered : inInterval hits start span ≤
        hits.countP fun hit => hit.2 = Nat.find some_hit ∨ hit.2 = Nat.find some_hit + 1 := by
      apply List.countP_mono_left
      intro hit there within
      rw [decide_eq_true_eq] at within ⊢
      exact two hit there within
    have windows := countP_two_windows hits (Nat.find some_hit)
    have one := few (Nat.find some_hit)
    have next := few (Nat.find some_hit + 1)
    omega
  · have nobody : inInterval hits start span = 0 := by
      rw [inInterval, List.countP_eq_zero]
      intro hit there within
      rw [decide_eq_true_eq] at within
      exact some_hit ⟨hit.2, hit, there, within, rfl⟩
    rw [nobody]
    exact Nat.zero_le _

end Finverse.Windows
