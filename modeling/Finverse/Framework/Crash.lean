import Finverse.Framework.Program

/-! Programs of a process that may stop before any of its operations. -/

namespace Interleave

variable {I : Interface} {ι σ α β ε : Type} (exec : (op : I.Op) → ι → σ → I.Reply op × σ)

/-- What a program returns on these inputs, and the state it leaves. When the inputs give out, the
process has stopped. -/
def Prog.play : Prog I α → List ι → σ → Option α × σ
  | .ret a, _, s => (some a, s)
  | .act _ _, [], s => (none, s)
  | .act op next, i :: is, s => (next (exec op i s).1).play is (exec op i s).2

/-- Wherever the process stops, `J` holds, and where the program ends, `post` does. -/
def Prog.Survives (J : σ → Prop) (post : α → σ → Prop) : σ → Prog I α → Prop
  | s, .ret a => post a s
  | s, .act op next => J s ∧ ∀ i, (next (exec op i s).1).Survives J post (exec op i s).2

variable {exec} {J : σ → Prop}

theorem Prog.Survives.weaken {post post' : α → σ → Prop} {s : σ} {p : Prog I α}
    (h : p.Survives exec J post s) (hpost : ∀ a t, post a t → post' a t) :
    p.Survives exec J post' s := by
  induction p generalizing s with
  | ret a => exact hpost a s h
  | act op next ih => exact ⟨h.1, fun i => ih _ (h.2 i)⟩

theorem Prog.survives_bind {post : β → σ → Prop} {s : σ} {p : Prog I α} {f : α → Prog I β} :
    (p >>= f).Survives exec J post s ↔
      p.Survives exec J (fun a t => (f a).Survives exec J post t) s := by
  induction p generalizing s with
  | ret a => rfl
  | act op next ih => simp only [Prog.act_bind, Survives, ih]

/-- What a program survives, it leaves behind. -/
theorem Prog.Survives.play {post : α → σ → Prop} {s : σ} {p : Prog I α}
    (h : p.Survives exec J post s) (is : List ι) :
    match p.play exec is s with
    | (some a, t) => post a t
    | (none, t) => J t := by
  induction p generalizing s is with
  | ret a => exact h
  | act op next ih =>
    cases is with
    | nil => exact h.1
    | cons i is => exact ih _ (h.2 i) is

namespace Task

variable (exec)

def play (m : Task I ε α) (is : List ι) (s : σ) : Option (Except ε α) × σ := m.run.play exec is s

def Survives (J : σ → Prop) (ok : α → σ → Prop) (err : ε → σ → Prop) (s : σ) (m : Task I ε α) :
    Prop :=
  m.run.Survives exec J (ends ok err) s

variable {exec} {ok : α → σ → Prop} {err : ε → σ → Prop} {s : σ}

@[simp] theorem survives_pure (a : α) :
    Survives exec J ok err s (pure a : Task I ε α) ↔ ok a s := Iff.rfl

@[simp] theorem survives_throw (e : ε) :
    Survives exec J ok err s (throw e : Task I ε α) ↔ err e s := Iff.rfl

theorem survives_bind {ok : β → σ → Prop} {m : Task I ε α} {f : α → Task I ε β} :
    Survives exec J ok err s (m >>= f) ↔
      Survives exec J (fun a t => Survives exec J ok err t (f a)) err s m := by
  have post_eq : (fun r t => Prog.Survives exec J (ends ok err) t (ExceptT.bindCont f r)) =
      ends (fun a t => Survives exec J ok err t (f a)) err := by
    funext r t
    cases r <;> rfl
  change Prog.Survives exec J (ends ok err) s (m.run >>= ExceptT.bindCont f) ↔ _
  rw [Prog.survives_bind, post_eq]
  rfl

theorem survives_call {op : I.Op} {ok : I.Reply op → σ → Prop} :
    Survives exec J ok err s (call op : Task I ε _) ↔
      J s ∧ ∀ i, ok (exec op i s).1 (exec op i s).2 := by
  change Prog.Survives exec J (ends ok err) s (Prog.call op >>= fun a => Prog.ret (Except.ok a)) ↔ _
  rw [Prog.survives_bind]
  rfl

theorem survives_tryCatch {m : Task I ε α} {h : ε → Task I ε α} :
    Survives exec J ok err s (tryCatch m h) ↔
      Survives exec J ok (fun e t => Survives exec J ok err t (h e)) s m := by
  have post_eq : (fun r t => Prog.Survives exec J (ends ok err) t (handleCont h r)) =
      ends ok (fun e t => Survives exec J ok err t (h e)) := by
    funext r t
    cases r <;> rfl
  rw [Survives, run_tryCatch, Prog.survives_bind, post_eq]
  rfl

theorem Survives.weaken {ok' : α → σ → Prop} {err' : ε → σ → Prop} {m : Task I ε α}
    (h : Survives exec J ok err s m) (ho : ∀ a t, ok a t → ok' a t) (he : ∀ e t, err e t → err' e t) :
    Survives exec J ok' err' s m :=
  Prog.Survives.weaken h fun r t => match r with
    | .ok a => ho a t
    | .error e => he e t

end Task

end Interleave
