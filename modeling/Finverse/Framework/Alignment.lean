import Mathlib.Data.List.Basic
import Mathlib.Tactic.Common

/-! Groups of lists that are put together in two ways: one list after another, or each group as one. -/

namespace Finverse

variable {α : Type}

/-- There are as many lists as groups, and a list that is not empty has as many lists before it as its
group has groups before it. -/
structure Aligned (groups : List (List (List α))) : Prop where
  count : groups.flatten.length = groups.length
  place : ∀ before group after left text right, groups = before ++ group :: after →
    group = left ++ text :: right → text ≠ [] → before.flatten.length + left.length = before.length

section Splitting

variable {groups before after : List (List (List α))} {left right : List (List α)} {text : List α} {i : Nat}

theorem split_of_getElem? {β : Type} {l : List β} {x : β} (h : l[i]? = some x) :
    ∃ left right, l = left ++ x :: right ∧ left.length = i := by
  obtain ⟨hi, rfl⟩ := List.getElem?_eq_some_iff.mp h
  exact ⟨l.take i, l.drop (i + 1), by simp, by rw [List.length_take]; omega⟩

theorem flatten_at : (before ++ (left ++ text :: right) :: after).flatten[before.flatten.length + left.length]? =
    some text := by
  rw [List.flatten_append, List.flatten_cons, List.getElem?_append_right (Nat.le_add_right _ _),
    Nat.add_sub_cancel_left, List.append_assoc, List.getElem?_append_right (Nat.le_refl _), Nat.sub_self]
  rfl

theorem flatten_split (h : groups.flatten[i]? = some text) : ∃ before group after left right,
    groups = before ++ group :: after ∧ group = left ++ text :: right ∧
      before.flatten.length + left.length = i := by
  induction groups generalizing i with
  | nil => simp at h
  | cons group groups ih =>
    rw [List.flatten_cons] at h
    by_cases inside : i < group.length
    · rw [List.getElem?_append_left inside] at h
      obtain ⟨left, right, hgroup, hlength⟩ := split_of_getElem? h
      exact ⟨[], group, groups, left, right, rfl, hgroup, by simpa using hlength⟩
    · rw [List.getElem?_append_right (by omega)] at h
      obtain ⟨before, group', after, left, right, rfl, hgroup, hlength⟩ := ih h
      refine ⟨group :: before, group', after, left, right, rfl, hgroup, ?_⟩
      rw [List.flatten_cons, List.length_append]
      omega

/-- What the first groups have in them. -/
def firstContent (groups : List (List (List α))) (k : Nat) : Nat := (groups.take k).flatten.flatten.length

theorem firstContent_mono {k k' : Nat} (h : k ≤ k') : firstContent groups k ≤ firstContent groups k' := by
  obtain ⟨more, hmore⟩ := List.take_prefix_take_left h (l := groups)
  rw [firstContent, firstContent, ← hmore]
  simp

end Splitting

section Equal

variable {groups before after : List (List (List α))} {left right : List (List α)} {text : List α} {k : Nat}

/-- Equal in both ways, they have equal parts at each place. -/
theorem content_of_eq (h : groups.flatten = groups.map List.flatten) (k : Nat) :
    (groups.flatten.take k).flatten.length = firstContent groups k := by
  rw [h, ← List.map_take, firstContent, List.flatten_flatten]

/-- Equal in both ways, they are aligned: a list is between what the groups before its own have in them
and what they have with it, counted by lists as by groups. -/
theorem Aligned.of_eq (h : groups.flatten = groups.map List.flatten) : Aligned groups := by
  refine ⟨by rw [h, List.length_map], ?_⟩
  intro before group after left text right hgroups hgroup nonempty
  have positive : 0 < text.length := List.length_pos_iff.mpr nonempty
  have lists : groups.flatten = (before.flatten ++ left) ++ ([text] ++ (right ++ after.flatten)) := by
    simp [hgroups, hgroup]
  have reach := content_of_eq h (before.flatten.length + left.length)
  have reach' := content_of_eq h (before.flatten.length + left.length + 1)
  rw [lists, List.take_left' List.length_append] at reach
  rw [lists, ← List.append_assoc, List.take_left' (by simp [Nat.add_assoc])] at reach'
  have start : firstContent groups before.length = before.flatten.flatten.length := by
    rw [firstContent, hgroups, List.take_left]
  have stop : firstContent groups (before.length + 1) =
      before.flatten.flatten.length + (left.flatten.length + text.length + right.flatten.length) := by
    have split : groups = (before ++ [group]) ++ after := by simp [hgroups]
    rw [firstContent, split, List.take_left' (by simp), hgroup]
    simp only [List.flatten_append, List.flatten_cons, List.flatten_nil, List.append_nil, List.length_append]
    omega
  simp only [List.flatten_append, List.length_append, List.flatten_singleton] at reach reach'
  rcases Nat.lt_trichotomy (before.flatten.length + left.length) before.length with less | same | more
  · have mono : firstContent groups (before.flatten.length + left.length + 1) ≤
        firstContent groups before.length := firstContent_mono less
    omega
  · exact same
  · have mono : firstContent groups (before.length + 1) ≤
        firstContent groups (before.flatten.length + left.length) := firstContent_mono more
    omega

/-- Of the lists of a group, only the one at the place of the group has something in it. -/
theorem Aligned.group_flatten (h : Aligned groups) {group : List (List α)}
    (hgroups : groups = before ++ group :: after) (hgroup : group = left ++ text :: right)
    (place : before.flatten.length + left.length = before.length) : group.flatten = text := by
  have spot (left' right' : List (List α)) (text' : List α) (split : group = left' ++ text' :: right')
      (nonempty : text' ≠ []) : left'.length = left.length := by
    have := h.place before group after left' text' right' hgroups split nonempty
    omega
  have left_empty : left.flatten = [] := by
    apply List.flatten_eq_nil_iff.mpr
    intro text' stored
    by_contra nonempty
    obtain ⟨a, b, rfl⟩ := List.append_of_mem stored
    have := spot a (b ++ text :: right) text' (by simp [hgroup]) nonempty
    simp at this
  have right_empty : right.flatten = [] := by
    apply List.flatten_eq_nil_iff.mpr
    intro text' stored
    by_contra nonempty
    obtain ⟨a, b, rfl⟩ := List.append_of_mem stored
    have := spot (left ++ text :: a) b text' (by simp [hgroup]) nonempty
    simp at this
  rw [hgroup, List.flatten_append, List.flatten_cons, left_empty, right_empty, List.nil_append,
    List.append_nil]

theorem Aligned.eq (h : Aligned groups) : groups.flatten = groups.map List.flatten := by
  apply List.ext_getElem?
  intro i
  cases hlist : groups.flatten[i]? with
  | none =>
    rw [List.getElem?_eq_none_iff] at hlist
    rw [h.count] at hlist
    exact (List.getElem?_eq_none_iff.mpr (by simpa using hlist)).symm
  | some text =>
    have inside : i < groups.length := by
      rw [← h.count]
      exact (List.getElem?_eq_some_iff.mp hlist).1
    obtain ⟨before, after, hgroups, hbefore⟩ := split_of_getElem? (List.getElem?_eq_getElem inside)
    rw [List.getElem?_map, List.getElem?_eq_getElem inside, Option.map_some, Option.some.injEq]
    generalize groups[i] = group at hgroups
    by_cases empty : group.flatten = []
    · rw [empty]
      by_contra nonempty
      obtain ⟨before', group', after', left, right, hgroups', hgroup', hi⟩ := flatten_split hlist
      have place := h.place before' group' after' left text right hgroups' hgroup' nonempty
      have same : group' = group := by
        have length : before.length = before'.length := by omega
        exact (List.cons.inj (List.append_inj_right (hgroups.symm.trans hgroups') length)).1.symm
      rw [← same, hgroup', List.flatten_eq_nil_iff] at empty
      exact nonempty (empty text (by simp))
    · obtain ⟨text', stored, nonempty⟩ : ∃ text' ∈ group, text' ≠ [] := by
        by_contra! all_empty
        exact empty (List.flatten_eq_nil_iff.mpr all_empty)
      obtain ⟨left, right, hgroup⟩ := List.append_of_mem stored
      have place := h.place before group after left text' right hgroups hgroup nonempty
      have found : groups.flatten[before.flatten.length + left.length]? = some text' := by
        rw [hgroups, hgroup]
        exact flatten_at
      rw [place, hbefore, hlist] at found
      rw [h.group_flatten hgroups hgroup place]
      exact Option.some.inj found

theorem flatten_eq_map_flatten_iff : groups.flatten = groups.map List.flatten ↔ Aligned groups :=
  ⟨Aligned.of_eq, Aligned.eq⟩

end Equal

end Finverse
