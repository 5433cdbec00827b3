import Mathlib.Data.List.Basic
import Mathlib.Tactic.Common

/-! Loops that are given so many turns: what they come to once these are enough. -/

namespace Fuel

variable {σ ε α β : Type}

/-- A computation that fails, or that runs out of turns. -/
abbrev Bounded (ε α : Type) : Type := ExceptT ε Option α

def lift (x : Except ε α) : Bounded ε α := ExceptT.mk (some x)

/-- With turns enough it comes to this. -/
def Settles (m : Nat → Bounded ε α) (result : Except ε α) : Prop :=
  ∃ enough, ∀ fuel, enough ≤ fuel → (m fuel).run = some result

theorem Settles.lift (x : Except ε α) : Settles (fun _ => lift x) x :=
  ⟨0, fun _ _ => rfl⟩

theorem Settles.of_eq {x y : Except ε α} (same : x = y) : Settles (fun _ => Fuel.lift x) y :=
  same ▸ Settles.lift x

theorem Settles.unique {m : Nat → Bounded ε α} {first second : Except ε α} (one : Settles m first)
    (other : Settles m second) : first = second := by
  obtain ⟨enough, one⟩ := one
  obtain ⟨enough', other⟩ := other
  have left := one (max enough enough') (Nat.le_max_left _ _)
  have right := other (max enough enough') (Nat.le_max_right _ _)
  rw [left] at right
  exact Option.some.inj right

/-- What is done after a computation that succeeds. -/
theorem Settles.bind {m : Nat → Bounded ε α} {k : α → Nat → Bounded ε β} {a : α} {result : Except ε β}
    (first : Settles m (.ok a)) (rest : Settles (k a) result) :
    Settles (fun fuel => m fuel >>= fun a => k a fuel) result := by
  obtain ⟨enough, first⟩ := first
  obtain ⟨enough', rest⟩ := rest
  refine ⟨max enough enough', fun fuel many => ?_⟩
  have done := first fuel (Nat.le_trans (Nat.le_max_left _ _) many)
  show (m fuel).run >>= ExceptT.bindCont (fun a => k a fuel) = some result
  rw [done]
  exact rest fuel (Nat.le_trans (Nat.le_max_right _ _) many)

/-- Nothing is done after a computation that fails. -/
theorem Settles.bind_error {m : Nat → Bounded ε α} {k : α → Nat → Bounded ε β} {e : ε}
    (failed : Settles m (.error e)) : Settles (fun fuel => m fuel >>= fun a => k a fuel) (.error e) := by
  obtain ⟨enough, failed⟩ := failed
  refine ⟨enough, fun fuel many => ?_⟩
  show (m fuel).run >>= ExceptT.bindCont (fun a => k a fuel) = some (.error e)
  rw [failed fuel many]
  rfl

theorem Settles.then {m : Nat → Bounded ε α} {k : α → Nat → Bounded ε β} {x : Except ε α}
    {result : α → Except ε β} (first : Settles m x) (rest : ∀ a, x = .ok a → Settles (k a) (result a)) :
    Settles (fun fuel => m fuel >>= fun a => k a fuel) (x >>= result) := by
  cases x with
  | error e => exact first.bind_error
  | ok a => exact first.bind (rest a rfl)

theorem Settles.map {m : Nat → Bounded ε α} {a : α} (done : Settles m (.ok a)) (f : α → β) :
    Settles (fun fuel => m fuel >>= fun a => pure (f a)) (.ok (f a)) :=
  done.bind (k := fun a _ => pure (f a)) (Settles.lift (.ok (f a)))

/-! ### What comes of a list, one after another -/

/-- What each gives, in order. The first that fails ends it. -/
def gather {m : Type → Type} [Monad m] (f : α → m (List β)) : List α → m (List β)
  | [] => pure []
  | x :: rest => do
    let first ← f x
    let more ← gather f rest
    return first ++ more

theorem Settles.gather {f : α → Nat → Bounded ε (List β)} {result : α → Except ε (List β)} {l : List α}
    (each : ∀ x ∈ l, Settles (f x) (result x)) :
    Settles (fun fuel => gather (fun x => f x fuel) l) (gather result l) := by
  induction l with
  | nil => exact Settles.lift (.ok [])
  | cons x rest ih =>
    have first := each x List.mem_cons_self
    have later := ih fun y there => each y (List.mem_cons_of_mem _ there)
    refine first.then fun a _ => ?_
    exact later.then fun more _ => Settles.lift (.ok (a ++ more))

theorem Settles.gather_exists {f : α → Nat → Bounded ε (List β)} {l : List α}
    (each : ∀ x ∈ l, ∃ result, Settles (f x) result) : ∃ result : α → Except ε (List β),
      (∀ x ∈ l, Settles (f x) (result x)) ∧
        Settles (fun fuel => Fuel.gather (fun x => f x fuel) l) (Fuel.gather result l) := by
  classical
  choose result settles using each
  have whole : ∀ x ∈ l, Settles (f x) (if there : x ∈ l then result x there else .ok []) := by
    intro x there
    rw [dif_pos there]
    exact settles x there
  exact ⟨_, whole, Settles.gather whole⟩

theorem gather_ok {f : α → Except ε (List β)} {g : α → List β} {l : List α}
    (each : ∀ x ∈ l, f x = .ok (g x)) : gather f l = .ok (l.flatMap g) := by
  induction l with
  | nil => rfl
  | cons x rest ih =>
    have later := ih fun y there => each y (List.mem_cons_of_mem _ there)
    rw [gather, each x List.mem_cons_self, later, List.flatMap_cons]
    rfl

/-- If anything comes of the whole list, something comes of each. -/
theorem ok_of_gather {f : α → Except ε (List β)} {l : List α} {all : List β} (done : gather f l = .ok all) :
    ∀ x ∈ l, ∃ some_, f x = .ok some_ := by
  induction l generalizing all with
  | nil => simp
  | cons x rest ih =>
    rw [gather] at done
    cases first : f x with
    | error e =>
      rw [first] at done
      cases done
    | ok a =>
      cases later : gather f rest with
      | error e =>
        rw [first, later] at done
        cases done
      | ok more => exact List.forall_mem_cons.mpr ⟨⟨a, first⟩, ih later⟩

/-! ### While loops -/

/-- `while (cond) step`: the states that are passed, and the one it stops at. -/
def whileRun (cond : σ → Bool) (step : σ → Except ε σ) : Nat → σ → Bounded ε (List σ × σ)
  | 0, s => if cond s then ExceptT.mk none else pure ([], s)
  | fuel + 1, s =>
    if cond s then do
      let next ← lift (step s)
      let (passed, last) ← whileRun cond step fuel next
      return (s :: passed, last)
    else pure ([], s)

variable {cond : σ → Bool} {step : σ → Except ε σ} {x : Nat → σ} {n : Nat}

theorem whileRun_stop {s : σ} (stops : cond s = false) (fuel : Nat) :
    whileRun cond step fuel s = pure ([], s) := by
  cases fuel <;> simp [whileRun, stops]

theorem whileRun_step {s next : σ} (goes : cond s = true) (steps : step s = .ok next) (fuel : Nat) :
    whileRun cond step (fuel + 1) s = do
      let (passed, last) ← whileRun cond step fuel next
      return (s :: passed, last) := by
  rw [whileRun, if_pos goes, steps]
  rfl

/-- The loop goes through a sequence, up to the first state that does not go on. -/
theorem whileRun_settles (goes : ∀ j < n, cond (x j) = true) (steps : ∀ j < n, step (x j) = .ok (x (j + 1)))
    (stops : cond (x n) = false) :
    Settles (fun fuel => whileRun cond step fuel (x 0)) (.ok ((List.range n).map x, x n)) := by
  refine ⟨n, fun fuel many => ?_⟩
  show (whileRun cond step fuel (x 0)).run = _
  induction n generalizing x fuel with
  | zero =>
    rw [whileRun_stop stops]
    rfl
  | succ n ih =>
    obtain ⟨fuel, rfl⟩ : ∃ turns, fuel = turns + 1 := ⟨fuel - 1, by omega⟩
    have later := @ih (fun j => x (j + 1)) (fun j low => goes (j + 1) (by omega))
      (fun j low => steps (j + 1) (by omega)) stops fuel (by omega)
    rw [whileRun_step (goes 0 (by omega)) (steps 0 (by omega)), List.range_succ_eq_map, List.map_cons,
      List.map_map]
    show (whileRun cond step fuel (x (0 + 1))).run >>= _ = _
    rw [later]
    rfl

/-- The loop goes through a sequence, up to a state that goes on and fails. -/
theorem whileRun_fails {e : ε} (goes : ∀ j ≤ n, cond (x j) = true)
    (steps : ∀ j < n, step (x j) = .ok (x (j + 1))) (fails : step (x n) = .error e) :
    Settles (fun fuel => whileRun cond step fuel (x 0)) (.error e) := by
  refine ⟨n + 1, fun fuel many => ?_⟩
  show (whileRun cond step fuel (x 0)).run = _
  induction n generalizing x fuel with
  | zero =>
    obtain ⟨fuel, rfl⟩ : ∃ turns, fuel = turns + 1 := ⟨fuel - 1, by omega⟩
    rw [whileRun, if_pos (goes 0 (Nat.le_refl 0)), fails]
    rfl
  | succ n ih =>
    obtain ⟨fuel, rfl⟩ : ∃ turns, fuel = turns + 1 := ⟨fuel - 1, by omega⟩
    have later := @ih (fun j => x (j + 1)) (fun j low => goes (j + 1) (by omega))
      (fun j low => steps (j + 1) (by omega)) fails fuel (by omega)
    rw [whileRun_step (goes 0 (by omega)) (steps 0 (by omega))]
    show (whileRun cond step fuel (x (0 + 1))).run >>= _ = _
    rw [later]
    rfl

end Fuel
