import Mathlib.Data.List.Induction
import Mathlib.Data.List.Infix
import Mathlib.Tactic.Common

/-! One call after another: what holds of every state, and what holds of every call. And what it takes
for calls that can fail to succeed. -/

namespace Steps

variable {σ κ : Type} (step : κ → σ → σ)

/-- The property of every state that the calls go through, from the first one on. -/
def Always (property : σ → Prop) : List κ → σ → Prop
  | [], s => property s
  | call :: calls, s => property s ∧ Always property calls (step call s)

/-- The condition of every call, on the state that it meets. -/
def Each (condition : κ → σ → Prop) : List κ → σ → Prop
  | [], _ => True
  | call :: calls, s => condition call s ∧ Each condition calls (step call s)

/-- The state after the calls. -/
def after (calls : List κ) (s : σ) : σ := calls.foldl (fun s call => step call s) s

variable {step} {property invariant : σ → Prop} {condition : κ → σ → Prop}

theorem after_append (earlier later : List κ) (s : σ) :
    after step (earlier ++ later) s = after step later (after step earlier s) :=
  List.foldl_append

theorem after_snoc (calls : List κ) (call : κ) (s : σ) :
    after step (calls ++ [call]) s = step call (after step calls s) := by
  rw [after_append]
  rfl

/-- What holds in the end and did not hold at first, some call brought about, and it has held ever since. -/
theorem exists_since {calls : List κ} {s : σ} (first : ¬property s) (last : property (after step calls s)) :
    ∃ earlier call later, calls = earlier ++ call :: later ∧ ¬property (after step earlier s) ∧
      ∀ part, part <+: later → property (after step (earlier ++ call :: part) s) := by
  induction calls using List.reverseRecOn with
  | nil => exact absurd last first
  | append_singleton calls call ih =>
    by_cases already : property (after step calls s)
    · obtain ⟨earlier, cause, later, split, fresh, since⟩ := ih already
      refine ⟨earlier, cause, later ++ [call], by rw [split]; simp, fresh, fun part whole => ?_⟩
      rcases List.prefix_concat_iff.mp whole with rfl | part_
      · rw [← List.cons_append, ← List.append_assoc, ← split]
        exact last
      · exact since part part_
    · refine ⟨calls, call, [], rfl, already, fun part nothing => ?_⟩
      rw [List.prefix_nil.mp nothing]
      exact last

theorem Always.first {calls : List κ} {s : σ} (always : Always step property calls s) :
    property s := by
  cases calls with
  | nil => exact always
  | cons call calls => exact always.1

/-- A property that a call keeps exactly under its condition is kept exactly by the runs whose calls
all meet it. -/
theorem always_iff
    (keeps : ∀ call s, invariant s → property s → condition call s → invariant (step call s))
    (moves : ∀ call s, invariant s → property s → (property (step call s) ↔ condition call s))
    (calls : List κ) {s : σ} (start : invariant s) :
    Always step property calls s ↔ property s ∧ Each step condition calls s := by
  induction calls generalizing s with
  | nil => simp [Always, Each]
  | cons call calls ih =>
    rw [Always, Each]
    apply and_congr_right
    intro holds
    constructor
    · intro always
      have met := (moves call s start holds).mp always.first
      exact ⟨met, ((ih (keeps call s start holds met)).mp always).2⟩
    · rintro ⟨met, rest⟩
      have kept := (moves call s start holds).mpr met
      exact (ih (keeps call s start holds met)).mpr ⟨kept, rest⟩

end Steps

namespace Finverse.Attempts

universe u

variable {ε σ α β : Type u} {x : EStateM ε σ α} {f : α → EStateM ε σ β} {s s' : σ} {a : α} {b : β} {e : ε}

theorem bind_ok_iff : (x >>= f).run s = .ok b s' ↔ ∃ a t, x.run s = .ok a t ∧ (f a).run t = .ok b s' := by
  rw [EStateM.run_bind]
  cases x.run s <;> simp

theorem bind_of_ok {t : σ} (first : x.run s = .ok a t) : (x >>= f).run s = (f a).run t := by
  rw [EStateM.run_bind, first]

theorem pure_ok_iff {c : α} : (pure a : EStateM ε σ α).run s = .ok c s' ↔ c = a ∧ s' = s := by
  rw [EStateM.run_pure, EStateM.Result.ok.injEq, eq_comm, @eq_comm _ s]

theorem get_ok_iff {t : σ} : (get : EStateM ε σ σ).run s = .ok t s' ↔ t = s ∧ s' = s := by
  rw [EStateM.run_get, EStateM.Result.ok.injEq, eq_comm, @eq_comm _ s]

theorem set_ok_iff {t : σ} {u : PUnit} : (set t : EStateM ε σ PUnit).run s = .ok u s' ↔ s' = t := by
  rw [EStateM.run_set, EStateM.Result.ok.injEq]
  simp [eq_comm]

theorem modify_ok_iff {g : σ → σ} {u : PUnit} :
    (modify g : EStateM ε σ PUnit).run s = .ok u s' ↔ s' = g s := by
  rw [EStateM.run_modify, EStateM.Result.ok.injEq]
  simp [eq_comm]

theorem throw_not_ok : (throw e : EStateM ε σ α).run s ≠ .ok a s' := by
  change EStateM.Result.error e s ≠ .ok a s'
  simp

end Finverse.Attempts
