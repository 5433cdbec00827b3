import Mathlib.Data.List.Nodup

/-! Requests that are served one after another: each takes what it chooses of what is not yet
claimed, and claims what it took. -/

namespace Matching

variable {α β κ : Type}

def assign (choose : List κ → α → Option β) (claims : α → β → List κ) :
    List κ → List α → List (α × β)
  | _, [] => []
  | claimed, a :: as =>
    match choose claimed a with
    | none => assign choose claims claimed as
    | some b => (a, b) :: assign choose claims (claims a b ++ claimed) as

variable {choose : List κ → α → Option β} {claims : α → β → List κ} {claimed : List κ} {as : List α}
  {a : α} {b : β}

@[simp] theorem assign_nil : assign choose claims claimed [] = [] := rfl

theorem assign_cons_none (h : choose claimed a = none) :
    assign choose claims claimed (a :: as) = assign choose claims claimed as := by
  rw [assign, h]

theorem assign_cons_some (h : choose claimed a = some b) :
    assign choose claims claimed (a :: as) = (a, b) :: assign choose claims (claims a b ++ claimed) as := by
  rw [assign, h]

/-- Each request is served once at most, in its turn. -/
theorem assign_sublist : ((assign choose claims claimed as).map Prod.fst).Sublist as := by
  induction as generalizing claimed with
  | nil => exact List.Sublist.refl []
  | cons a as ih =>
    cases served : choose claimed a with
    | none =>
      rw [assign_cons_none served]
      exact ih.cons a
    | some b =>
      rw [assign_cons_some served]
      exact ih.cons_cons a

/-- What a request got was its choice when its turn came. -/
theorem chosen_of_mem (h : (a, b) ∈ assign choose claims claimed as) :
    ∃ sofar, claimed ⊆ sofar ∧ choose sofar a = some b := by
  induction as generalizing claimed with
  | nil => cases h
  | cons first as ih =>
    cases served : choose claimed first with
    | none =>
      rw [assign_cons_none served] at h
      exact ih h
    | some got =>
      rw [assign_cons_some served] at h
      rcases List.mem_cons.mp h with now | later
      · obtain ⟨rfl, rfl⟩ := Prod.mk.inj now
        exact ⟨claimed, List.Subset.refl claimed, served⟩
      · obtain ⟨sofar, more, chosen⟩ := ih later
        exact ⟨sofar, List.Subset.trans (List.subset_append_right _ _) more, chosen⟩

/-- When no choice was claimed before, and each is claimed by who takes it, nothing goes to two. -/
theorem assign_nodup (key : β → κ) (fresh : ∀ sofar a b, choose sofar a = some b → key b ∉ sofar)
    (claims_key : ∀ a b, key b ∈ claims a b) :
    ((assign choose claims claimed as).map fun pair => key pair.2).Nodup := by
  induction as generalizing claimed with
  | nil => exact List.nodup_nil
  | cons a as ih =>
    cases served : choose claimed a with
    | none =>
      rw [assign_cons_none served]
      exact ih
    | some b =>
      rw [assign_cons_some served, List.map_cons, List.nodup_cons]
      refine ⟨fun again => ?_, ih⟩
      obtain ⟨⟨a', b'⟩, stored, same⟩ := List.mem_map.mp again
      obtain ⟨sofar, more, chosen⟩ := chosen_of_mem stored
      apply fresh sofar a' b' chosen
      rw [show key b' = key b from same]
      exact more (List.mem_append_left _ (claims_key a b))

/-- Who was not served had nothing to choose, and only what others took was claimed by then. -/
theorem unserved (stored : a ∈ as) (missed : a ∉ (assign choose claims claimed as).map Prod.fst) :
    ∃ sofar, choose sofar a = none ∧ ∀ k ∈ sofar,
      k ∈ claimed ∨ ∃ pair ∈ assign choose claims claimed as, k ∈ claims pair.1 pair.2 := by
  induction as generalizing claimed with
  | nil => cases stored
  | cons first as ih =>
    cases served : choose claimed first with
    | none =>
      rw [assign_cons_none served] at missed ⊢
      rcases List.mem_cons.mp stored with rfl | later
      · exact ⟨claimed, served, fun k held => .inl held⟩
      · exact ih later missed
    | some got =>
      rw [assign_cons_some served] at missed ⊢
      rw [List.map_cons, List.mem_cons, not_or] at missed
      have later := (List.mem_cons.mp stored).resolve_left missed.1
      obtain ⟨sofar, nothing, held⟩ := ih later missed.2
      refine ⟨sofar, nothing, fun k claimed_ => ?_⟩
      rcases held k claimed_ with before | ⟨pair, taken, of_pair⟩
      · rcases List.mem_append.mp before with first_ | before
        · exact .inr ⟨_, List.mem_cons_self, first_⟩
        · exact .inl before
      · exact .inr ⟨pair, List.mem_cons_of_mem _ taken, of_pair⟩

end Matching
