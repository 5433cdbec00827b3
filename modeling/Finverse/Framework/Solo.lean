import Finverse.Framework.History

/-! Programs that run with no other in between. -/

namespace Interleave

variable {I : Interface} {σ α β ε : Type} (exec : (op : I.Op) → σ → I.Reply op × σ)

/-- What a program returns, and the state it leaves, when nothing runs in between. -/
def Prog.solo : Prog I α → σ → α × σ
  | .ret a, s => (a, s)
  | .act op next, s => (next (exec op s).1).solo (exec op s).2

theorem Prog.solo_bind (p : Prog I α) (f : α → Prog I β) (s : σ) :
    (p >>= f).solo exec s = (f (p.solo exec s).1).solo exec (p.solo exec s).2 := by
  induction p generalizing s with
  | ret a => rfl
  | act op next ih => exact ih (exec op s).1 (exec op s).2

/-- What a program does when nothing runs in between. -/
def Prog.trace : Prog I α → σ → List (Event I)
  | .ret _, _ => []
  | .act op next, s => ⟨op, (exec op s).1⟩ :: (next (exec op s).1).trace (exec op s).2

theorem Prog.trace_bind (p : Prog I α) (f : α → Prog I β) (s : σ) :
    (p >>= f).trace exec s = p.trace exec s ++ (f (p.solo exec s).1).trace exec (p.solo exec s).2 := by
  induction p generalizing s with
  | ret a => rfl
  | act op next ih =>
    simp only [Prog.act_bind, Prog.trace, List.cons_append]
    congr 1
    exact ih (exec op s).1 (exec op s).2

/-- A relation that every operation moves the state along. -/
theorem Prog.solo_keeps {R : σ → σ → Prop} (refl : ∀ s, R s s) (trans : ∀ {s t u}, R s t → R t u → R s u)
    (step : ∀ op s, R s (exec op s).2) (p : Prog I α) (s : σ) : R s (p.solo exec s).2 := by
  induction p generalizing s with
  | ret a => exact refl s
  | act op next ih => exact trans (step op s) (ih (exec op s).1 (exec op s).2)

namespace Task

def solo (m : Task I ε α) (s : σ) : Except ε α × σ := Prog.solo exec m.run s

@[simp] theorem solo_pure (a : α) (s : σ) : solo exec (pure a : Task I ε α) s = (.ok a, s) := rfl

@[simp] theorem solo_throw (e : ε) (s : σ) : solo exec (throw e : Task I ε α) s = (.error e, s) :=
  rfl

@[simp] theorem solo_ofExcept (x : Except ε α) (s : σ) : solo exec (ofExcept x) s = (x, s) := rfl

@[simp] theorem solo_call (op : I.Op) (s : σ) :
    solo exec (call op : Task I ε _) s = (.ok (exec op s).1, (exec op s).2) := rfl

theorem solo_bind (m : Task I ε α) (f : α → Task I ε β) (s : σ) :
    solo exec (m >>= f) s =
      match solo exec m s with
      | (.ok a, t) => solo exec (f a) t
      | (.error e, t) => (.error e, t) := by
  have run_bind : solo exec (m >>= f) s =
      Prog.solo exec (ExceptT.bindCont f (solo exec m s).1) (solo exec m s).2 :=
    Prog.solo_bind exec m.run (ExceptT.bindCont f) s
  rw [run_bind]
  rcases solo exec m s with ⟨a | e, t⟩ <;> rfl

def trace (m : Task I ε α) (s : σ) : List (Event I) := Prog.trace exec m.run s

@[simp] theorem trace_throw (e : ε) (s : σ) : trace exec (throw e : Task I ε α) s = [] := rfl

@[simp] theorem trace_call (op : I.Op) (s : σ) :
    trace exec (call op : Task I ε _) s = [⟨op, (exec op s).1⟩] := rfl

theorem trace_bind (m : Task I ε α) (f : α → Task I ε β) (s : σ) :
    trace exec (m >>= f) s = trace exec m s ++
      match solo exec m s with
      | (.ok a, t) => trace exec (f a) t
      | (.error _, _) => [] := by
  have run_bind : trace exec (m >>= f) s = trace exec m s ++
      Prog.trace exec (ExceptT.bindCont f (solo exec m s).1) (solo exec m s).2 :=
    Prog.trace_bind exec m.run (ExceptT.bindCont f) s
  rw [run_bind]
  rcases solo exec m s with ⟨a | e, t⟩ <;> rfl

theorem trace_map (f : α → β) (m : Task I ε α) (s : σ) : trace exec (f <$> m) s = trace exec m s := by
  rw [map_eq_pure_bind, trace_bind]
  rcases solo exec m s with ⟨a | e, t⟩ <;> exact List.append_nil _

theorem solo_map (f : α → β) (m : Task I ε α) (s : σ) :
    (solo exec (f <$> m) s).2 = (solo exec m s).2 := by
  rw [map_eq_pure_bind, solo_bind]
  rcases solo exec m s with ⟨a | e, t⟩ <;> rfl

/-- What succeeds succeeds part by part. -/
theorem solo_bind_ok {m : Task I ε α} {f : α → Task I ε β} {s u : σ} {b : β}
    (h : solo exec (m >>= f) s = (.ok b, u)) :
    ∃ a t, solo exec m s = (.ok a, t) ∧ solo exec (f a) t = (.ok b, u) := by
  rw [solo_bind] at h
  rcases hm : solo exec m s with ⟨e | a, t⟩
  · rw [hm] at h
    cases h
  · rw [hm] at h
    exact ⟨a, t, rfl, h⟩

/-- What fails fails in one of the parts. -/
theorem solo_bind_error {m : Task I ε α} {f : α → Task I ε β} {s u : σ} {e : ε}
    (h : solo exec (m >>= f) s = (.error e, u)) :
    solo exec m s = (.error e, u) ∨
      ∃ a t, solo exec m s = (.ok a, t) ∧ solo exec (f a) t = (.error e, u) := by
  rw [solo_bind] at h
  rcases hm : solo exec m s with ⟨e | a, t⟩
  · rw [hm] at h
    obtain ⟨failed, rfl⟩ := Prod.mk.inj h
    exact .inl (by rw [Except.error.inj failed])
  · rw [hm] at h
    exact .inr ⟨a, t, rfl, h⟩

end Task

end Interleave
