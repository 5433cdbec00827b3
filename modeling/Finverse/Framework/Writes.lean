import Mathlib.Data.List.Induction
import Mathlib.Data.List.Forall2
import Mathlib.Tactic.Common

/-! Writes to places, one after another: the last one to a place stays. -/

namespace Finverse

section Writes

variable {κ ν σ : Type} [DecidableEq κ] {writes : List (κ × ν)} {place : κ} {value : ν}

/-- What has been written to a place last. -/
def lastAt (writes : List (κ × ν)) (place : κ) : Option ν := writes.reverse.lookup place

theorem lastAt_snoc (writes : List (κ × ν)) (w : κ × ν) (place : κ) :
    lastAt (writes ++ [w]) place = if place = w.1 then some w.2 else lastAt writes place := by
  obtain ⟨p, v⟩ := w
  rw [lastAt, List.reverse_append, List.reverse_singleton, List.singleton_append, List.lookup_cons]
  by_cases same : place = p
  · simp [same]
  · rw [if_neg same, beq_false_of_ne same]
    rfl

theorem lastAt_eq_none : lastAt writes place = none ↔ ∀ w ∈ writes, w.1 ≠ place := by
  induction writes using List.reverseRecOn with
  | nil => simp [lastAt]
  | append_singleton writes w ih =>
    rw [lastAt_snoc]
    split
    · rename_i same
      simp only [reduceCtorEq, false_iff]
      exact fun quiet => quiet w (by simp) same.symm
    · rename_i other
      rw [ih]
      simp only [List.mem_append, List.mem_singleton, or_imp, forall_and, forall_eq]
      exact ⟨fun h => ⟨h, Ne.symm other⟩, And.left⟩

theorem lastAt_eq_some : lastAt writes place = some value ↔
    ∃ before after, writes = before ++ (place, value) :: after ∧ ∀ w ∈ after, w.1 ≠ place := by
  induction writes using List.reverseRecOn with
  | nil => simp [lastAt]
  | append_singleton writes w ih =>
    rw [lastAt_snoc]
    split
    · rename_i same
      constructor
      · intro h
        obtain rfl := Option.some.inj h
        exact ⟨writes, [], by rw [same], by simp⟩
      · rintro ⟨before, after, split, quiet⟩
        rcases List.eq_nil_or_concat after with rfl | ⟨after, w', rfl⟩
        · have last := (List.append_inj' split rfl).2
          rw [List.cons.inj last |>.1]
        · have shape : writes ++ [w] = (before ++ (place, value) :: after) ++ [w'] := by simp [split]
          have last := (List.append_inj' shape rfl).2
          obtain rfl := (List.cons.inj last).1
          exact absurd same.symm (quiet w (by simp))
    · rename_i other
      rw [ih]
      constructor
      · rintro ⟨before, after, rfl, quiet⟩
        refine ⟨before, after ++ [w], by simp, ?_⟩
        intro w' stored
        rcases List.mem_append.mp stored with stored | stored
        · exact quiet w' stored
        · obtain rfl := List.mem_singleton.mp stored
          exact Ne.symm other
      · rintro ⟨before, after, split, quiet⟩
        rcases List.eq_nil_or_concat after with rfl | ⟨after, w', rfl⟩
        · have last := (List.append_inj' split rfl).2
          rw [List.cons.inj last |>.1] at other
          exact absurd rfl other
        · have shape : writes ++ [w] = (before ++ (place, value) :: after) ++ [w'] := by simp [split]
          exact ⟨before, after, (List.append_inj' shape rfl).1, fun w stored => quiet w (by simp [stored])⟩

theorem lastAt_map_eq_some {α : Type} {f : α → κ × ν} {l : List α} : lastAt (l.map f) place = some value ↔
    ∃ before a after, l = before ++ a :: after ∧ f a = (place, value) ∧ ∀ b ∈ after, (f b).1 ≠ place := by
  rw [lastAt_eq_some]
  constructor
  · rintro ⟨before, after, split, quiet⟩
    obtain ⟨first, rest, rfl, -, hrest⟩ := List.map_eq_append_iff.mp split
    obtain ⟨a, more, rfl, ha, rfl⟩ := List.map_eq_cons_iff.mp hrest
    exact ⟨first, a, more, rfl, ha, fun b stored => quiet (f b) (List.mem_map_of_mem stored)⟩
  · rintro ⟨before, a, after, rfl, ha, quiet⟩
    refine ⟨before.map f, after.map f, by simp [ha], fun w stored => ?_⟩
    obtain ⟨b, hb, rfl⟩ := List.mem_map.mp stored
    exact quiet b hb

/-- What is read at a place after the writes, where a write changes what is read at its place only. -/
theorem read_foldl (read : σ → κ → ν) (write : σ → κ → ν → σ)
    (local_ : ∀ s p v q, read (write s p v) q = if q = p then v else read s q) (writes : List (κ × ν)) (s : σ)
    (place : κ) :
    read (writes.foldl (fun s w => write s w.1 w.2) s) place = (lastAt writes place).getD (read s place) := by
  induction writes using List.reverseRecOn with
  | nil => rfl
  | append_singleton writes w ih =>
    rw [List.foldl_append, List.foldl_cons, List.foldl_nil, local_, lastAt_snoc, ih]
    split <;> rfl

end Writes

/-- All of them succeed with what is asked for exactly if each does. -/
theorem mapM_forall₂ {ε α β : Type} {f : α → Except ε β} {R : α → β → Prop} {l : List α} :
    (∃ results, l.mapM f = .ok results ∧ List.Forall₂ R l results) ↔ ∀ a ∈ l, ∃ b, f a = .ok b ∧ R a b := by
  induction l with
  | nil => exact ⟨fun _ => by simp, fun _ => ⟨[], rfl, .nil⟩⟩
  | cons a l ih =>
    rw [List.forall_mem_cons, ← ih, List.mapM_cons]
    constructor
    · rintro ⟨results, h, related⟩
      cases ha : f a with
      | error e => simp [ha, bind, Except.bind] at h
      | ok b =>
        cases hl : l.mapM f with
        | error e => simp [ha, hl, bind, Except.bind] at h
        | ok rest =>
          obtain rfl : b :: rest = results := by
            simpa [ha, hl, bind, Except.bind, pure, Except.pure] using h
          cases related with
          | cons first others => exact ⟨⟨b, rfl, first⟩, rest, rfl, others⟩
    · rintro ⟨⟨b, hb, first⟩, rest, hrest, others⟩
      refine ⟨b :: rest, ?_, .cons first others⟩
      rw [hb, hrest]
      rfl

/-- Where all of them succeed, each does. -/
theorem mapM_each {ε α β : Type} {f : α → Except ε β} {l : List α} {results : List β}
    (h : l.mapM f = .ok results) : ∀ a ∈ l, ∃ b, f a = .ok b := by
  induction l generalizing results with
  | nil =>
    intro a mem
    cases mem
  | cons a l ih =>
    rw [List.mapM_cons] at h
    cases first : f a with
    | error e => simp [first, bind, Except.bind] at h
    | ok b =>
      cases later : l.mapM f with
      | error e => simp [first, later, bind, Except.bind] at h
      | ok rest => exact List.forall_mem_cons.mpr ⟨⟨b, first⟩, ih later⟩

end Finverse
