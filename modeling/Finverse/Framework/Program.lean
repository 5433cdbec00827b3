import Mathlib.Logic.Relation
import Mathlib.Tactic.Common

/-! Asynchronous programs over a shared state, and the rules to reason about them while other
programs run in between. -/

namespace Interleave

/-- The operations a program may call and what each of them replies. -/
structure Interface where
  Op : Type
  Reply : Op → Type

/-- A program suspended at its awaits. Each operation is one uninterrupted segment. -/
inductive Prog (I : Interface) (α : Type) : Type
  | ret (a : α)
  | act (op : I.Op) (next : I.Reply op → Prog I α)

/-- What operations do: each waits until it is ready, reads an input from the environment and
updates the shared state. -/
structure Machine (I : Interface) (ι σ : Type) where
  ready : I.Op → ι → σ → Bool
  exec : (op : I.Op) → ι → σ → I.Reply op × σ

variable {I : Interface} {ι σ α β : Type}

namespace Prog

def bind : Prog I α → (α → Prog I β) → Prog I β
  | ret a, f => f a
  | act op next, f => act op fun r => (next r).bind f

instance : Monad (Prog I) where
  pure := ret
  bind := bind

def call (op : I.Op) : Prog I (I.Reply op) := act op ret

def isRet : Prog I α → Bool
  | ret _ => true
  | act _ _ => false

@[simp] theorem pure_eq (a : α) : (pure a : Prog I α) = ret a := rfl

@[simp] theorem ret_bind (a : α) (f : α → Prog I β) : (ret a >>= f) = f a := rfl

@[simp] theorem act_bind (op : I.Op) (next : I.Reply op → Prog I α) (f : α → Prog I β) :
    (act op next >>= f) = act op fun r => next r >>= f := rfl

theorem bind_pure (p : Prog I α) : p >>= ret = p := by
  induction p with
  | ret a => rfl
  | act op next ih =>
    simp only [act_bind]
    congr 1
    funext r
    exact ih r

theorem bind_assoc {γ : Type} (p : Prog I α) (f : α → Prog I β) (g : β → Prog I γ) :
    (p >>= f) >>= g = p >>= fun a => f a >>= g := by
  induction p with
  | ret a => rfl
  | act op next ih =>
    simp only [act_bind]
    congr 1
    funext r
    exact ih r

instance : LawfulMonad (Prog I) :=
  LawfulMonad.mk' (Prog I) bind_pure (fun _ _ => rfl) bind_assoc

/-- Every operation the program may call, whatever it was replied, satisfies `P`. -/
def All (P : I.Op → Prop) : Prog I α → Prop
  | ret _ => True
  | act op next => P op ∧ ∀ r, (next r).All P

theorem all_bind {P : I.Op → Prop} {p : Prog I α} {f : α → Prog I β} (hp : p.All P)
    (hf : ∀ a, (f a).All P) : (p >>= f).All P := by
  induction p with
  | ret a => exact hf a
  | act op next ih => exact ⟨hp.1, fun r => ih r (hp.2 r)⟩

theorem all_of_forall {P : I.Op → Prop} (hP : ∀ op, P op) (p : Prog I α) : p.All P := by
  induction p with
  | ret a => trivial
  | act op next ih => exact ⟨hP op, ih⟩

theorem All.mono {P Q : I.Op → Prop} {p : Prog I α} (h : p.All P) (hPQ : ∀ op, P op → Q op) :
    p.All Q := by
  induction p with
  | ret a => trivial
  | act op next ih => exact ⟨hPQ op h.1, fun r => ih r (h.2 r)⟩

end Prog

variable {M : Machine I ι σ}

/-- What the requests of a system promise one another: an invariant of every state, a preorder
along which every step moves the state, and what belongs to one request only, which the steps of
the others leave alone. `cond` restricts the steps considered. -/
structure Contract (M : Machine I ι σ) where
  inv : σ → Prop
  evolves : σ → σ → Prop
  own : Nat → σ → σ → Prop
  cond : I.Op → ι → σ → Prop
  refl : ∀ s, evolves s s
  trans : ∀ {s t u}, evolves s t → evolves t u → evolves s u
  ownRefl : ∀ n s, own n s s
  ownTrans : ∀ {n s t u}, own n s t → own n t u → own n s u

namespace Contract

/-- The same promises, for the steps that meet another condition. -/
def under (C : Contract M) (cond : I.Op → ι → σ → Prop) : Contract M :=
  { C with cond }

/-- What request `n` may assume of the steps of the others. -/
def rely (C : Contract M) (n : Nat) (s t : σ) : Prop := C.evolves s t ∧ C.own n s t

/-- What request `n` promises of its own steps. -/
def guarantee (C : Contract M) (n : Nat) (s t : σ) : Prop :=
  C.evolves s t ∧ ∀ m, m ≠ n → C.own m s t

/-- The operation keeps the contract wherever request `n` may run it. -/
def Safe (C : Contract M) (n : Nat) (op : I.Op) : Prop :=
  ∀ i s, C.inv s → C.cond op i s → M.ready op i s = true →
    C.inv (M.exec op i s).2 ∧ C.guarantee n s (M.exec op i s).2

/-- No request owns anything. -/
class Shared (C : Contract M) : Prop where
  own : ∀ n s t, C.own n s t

instance {C : Contract M} [Shared C] {cond : I.Op → ι → σ → Prop} : Shared (C.under cond) :=
  ⟨fun n s t => Shared.own (C := C) n s t⟩

variable {C : Contract M} {n : Nat} {s t u : σ}

theorem relyRefl (n : Nat) (s : σ) : C.rely n s s := ⟨C.refl s, C.ownRefl n s⟩

theorem relyTrans (h : C.rely n s t) (h' : C.rely n t u) : C.rely n s u :=
  ⟨C.trans h.1 h'.1, C.ownTrans h.2 h'.2⟩

theorem rely_of_evolves [Shared C] (h : C.evolves s t) : C.rely n s t := ⟨h, Shared.own ..⟩

theorem guarantee_of_evolves [Shared C] (h : C.evolves s t) : C.guarantee n s t :=
  ⟨h, fun _ _ => Shared.own ..⟩

theorem guarantee_rely {m : Nat} (hmn : m ≠ n) (h : C.guarantee n s t) : C.rely m s t :=
  ⟨h.1, h.2 m hmn⟩

end Contract

/-- From state `s` on, request `n` keeps the contract with this program as long as the others do,
and ends in `post`. Others may move the state before each of its operations. -/
def Sat (C : Contract M) (n : Nat) (post : α → σ → Prop) : σ → Prog I α → Prop
  | s, .ret a => post a s
  | s, .act op next => ∀ i t, C.rely n s t → C.inv t → C.cond op i t → M.ready op i t = true →
      C.inv (M.exec op i t).2 ∧ C.guarantee n t (M.exec op i t).2 ∧
        Sat C n post (M.exec op i t).2 (next (M.exec op i t).1)

variable {C : Contract M} {n : Nat} {post : α → σ → Prop}

@[simp] theorem sat_ret (s : σ) (a : α) : Sat C n post s (.ret a) ↔ post a s := Iff.rfl

/-- The state may move before the next operation. A finished program has no next operation. -/
theorem Sat.move {s t : σ} {op : I.Op} {next : I.Reply op → Prog I α}
    (h : Sat C n post s (.act op next)) (hst : C.rely n s t) : Sat C n post t (.act op next) := by
  intro i u htu
  exact h i u (Contract.relyTrans hst htu)

theorem Sat.weaken {post' : α → σ → Prop} {s : σ} {p : Prog I α} (h : Sat C n post s p)
    (hq : ∀ a t, post a t → post' a t) : Sat C n post' s p := by
  induction p generalizing s with
  | ret a => exact hq a s h
  | act op next ih =>
    intro i t hst hi hc hr
    obtain ⟨h1, h2, h3⟩ := h i t hst hi hc hr
    exact ⟨h1, h2, ih _ h3⟩

/-- Considering fewer steps only helps. -/
theorem Sat.under {cond : I.Op → ι → σ → Prop} (hc : ∀ op i t, cond op i t → C.cond op i t) {s : σ}
    {p : Prog I α} (h : Sat C n post s p) : Sat (C.under cond) n post s p := by
  induction p generalizing s with
  | ret a => exact h
  | act op next ih =>
    intro i t hst hi hop hr
    obtain ⟨h1, h2, h3⟩ := h i t hst hi (hc op i t hop) hr
    exact ⟨h1, h2, ih _ h3⟩

/-- The program ends in a state that evolved from any state its start evolved from. -/
theorem Sat.evolved {s₀ s : σ} {p : Prog I α} (h : Sat C n post s p) (h0 : C.evolves s₀ s) :
    Sat C n (fun a t => post a t ∧ C.evolves s₀ t) s p := by
  induction p generalizing s with
  | ret a => exact ⟨h, h0⟩
  | act op next ih =>
    intro i t hst hi hc hr
    obtain ⟨h1, h2, h3⟩ := h i t hst hi hc hr
    exact ⟨h1, h2, ih _ h3 (C.trans (C.trans h0 hst.1) h2.1)⟩

theorem sat_bind {post : β → σ → Prop} {s : σ} {p : Prog I α} {f : α → Prog I β} :
    Sat C n post s (p >>= f) ↔ Sat C n (fun a t => Sat C n post t (f a)) s p := by
  induction p generalizing s with
  | ret a => rfl
  | act op next ih => simp only [Prog.act_bind, Sat, ih]

/-- A program that calls safe operations only keeps the contract. -/
theorem Sat.of_all {s : σ} {p : Prog I α} (hp : p.All (C.Safe n)) :
    Sat C n (fun _ _ => True) s p := by
  induction p generalizing s with
  | ret a => trivial
  | act op next ih =>
    intro i t _ hi hc hr
    obtain ⟨h1, h2⟩ := hp.1 i t hi hc hr
    exact ⟨h1, h2, ih _ (hp.2 _)⟩

/-- The operation is safe and leaves what belongs to request `n` alone as well. -/
def Contract.Idle (C : Contract M) (n : Nat) (op : I.Op) : Prop :=
  C.Safe n op ∧ ∀ i s, C.inv s → C.cond op i s → M.ready op i s = true →
    C.own n s (M.exec op i s).2

/-- After idle operations only, request `n` finds the state as others may have left it. -/
theorem Sat.of_idle {s : σ} {p : Prog I α} (hp : p.All (C.Idle n)) :
    Sat C n (fun _ t => C.rely n s t) s p := by
  suffices h : ∀ s₀, C.rely n s₀ s → Sat C n (fun _ t => C.rely n s₀ t) s p from
    h s (C.relyRefl n s)
  induction p generalizing s with
  | ret a => exact fun s₀ h0 => h0
  | act op next ih =>
    intro s₀ h0 i t hst hi hc hr
    obtain ⟨h1, h2⟩ := hp.1.1 i t hi hc hr
    have mine : C.rely n t (M.exec op i t).2 := ⟨h2.1, hp.1.2 i t hi hc hr⟩
    exact ⟨h1, h2, ih _ (hp.2 _) s₀ (Contract.relyTrans h0 (Contract.relyTrans hst mine))⟩

theorem sat_call {op : I.Op} {post : I.Reply op → σ → Prop} {s : σ} :
    Sat C n post s (Prog.call op) ↔
      ∀ i t, C.rely n s t → C.inv t → C.cond op i t → M.ready op i t = true →
        C.inv (M.exec op i t).2 ∧ C.guarantee n t (M.exec op i t).2 ∧
          post (M.exec op i t).1 (M.exec op i t).2 := Iff.rfl

/-! ### Programs that may fail -/

/-- A program that returns a value or throws. -/
abbrev Task (I : Interface) (ε α : Type) : Type := ExceptT ε (Prog I) α

namespace Task

variable {ε : Type}

def call (op : I.Op) : Task I ε (I.Reply op) := ExceptT.lift (Prog.call op)

/-- A computation that touches nothing. -/
def ofExcept (x : Except ε α) : Task I ε α := ExceptT.mk (.ret x)

/-- Both ways a task may end. -/
def ends (ok : α → σ → Prop) (err : ε → σ → Prop) : Except ε α → σ → Prop
  | .ok a => ok a
  | .error e => err e

def Meets (C : Contract M) (n : Nat) (ok : α → σ → Prop) (err : ε → σ → Prop) (s : σ) (m : Task I ε α) :
    Prop :=
  Sat C n (ends ok err) s m.run

variable {ok : α → σ → Prop} {err : ε → σ → Prop} {s : σ}

@[simp] theorem meets_pure (a : α) : Meets C n ok err s (pure a : Task I ε α) ↔ ok a s := Iff.rfl

@[simp] theorem meets_throw (e : ε) :
    Meets C n ok err s (throw e : Task I ε α) ↔ err e s := Iff.rfl

theorem meets_ofExcept (x : Except ε α) :
    Meets C n ok err s (ofExcept x : Task I ε α) ↔ ends ok err x s := Iff.rfl

theorem meets_bind {ok : β → σ → Prop} {m : Task I ε α} {f : α → Task I ε β} :
    Meets C n ok err s (m >>= f) ↔ Meets C n (fun a t => Meets C n ok err t (f a)) err s m := by
  have post_eq : (fun r t => Sat C n (ends ok err) t (ExceptT.bindCont f r)) =
      ends (fun a t => Meets C n ok err t (f a)) err := by
    funext r t
    cases r <;> rfl
  change Sat C n (ends ok err) s (m.run >>= ExceptT.bindCont f) ↔ _
  rw [sat_bind, post_eq]
  rfl

theorem meets_call {op : I.Op} {ok : I.Reply op → σ → Prop} :
    Meets C n ok err s (call op : Task I ε _) ↔ Sat C n ok s (Prog.call op) := by
  change Sat C n (ends ok err) s (Prog.call op >>= fun a => Prog.ret (Except.ok a)) ↔ _
  rw [sat_bind]
  rfl

/-- The rule for an operation and what follows it. -/
theorem Meets.call_bind {op : I.Op} {f : I.Reply op → Task I ε β} {ok : β → σ → Prop}
    (h : ∀ i t, C.rely n s t → C.inv t → C.cond op i t → M.ready op i t = true →
      C.inv (M.exec op i t).2 ∧ C.guarantee n t (M.exec op i t).2 ∧
        Meets C n ok err (M.exec op i t).2 (f (M.exec op i t).1)) :
    Meets C n ok err s (call op >>= f) := by
  rw [meets_bind, meets_call, sat_call]
  exact h

/-- The rule for a check and what follows it. -/
theorem Meets.check_bind {x : Except ε α} {f : α → Task I ε β} {ok : β → σ → Prop}
    (hf : ∀ a, x = .ok a → Meets C n ok err s (f a)) (he : ∀ e, x = .error e → err e s) :
    Meets C n ok err s (ofExcept x >>= f) := by
  rw [meets_bind, meets_ofExcept]
  cases x with
  | ok a => exact hf a rfl
  | error e => exact he e rfl

/-- What a caught task goes on with. -/
def handleCont (h : ε → Task I ε α) : Except ε α → Prog I (Except ε α)
  | .ok a => .ret (.ok a)
  | .error e => (h e).run

theorem run_tryCatch (m : Task I ε α) (h : ε → Task I ε α) :
    (tryCatch m h : Task I ε α).run = m.run >>= handleCont h := by
  change (m.run >>= fun r => _) = m.run >>= handleCont h
  congr 1
  funext r
  cases r <;> rfl

theorem meets_tryCatch {m : Task I ε α} {h : ε → Task I ε α} :
    Meets C n ok err s (tryCatch m h) ↔ Meets C n ok (fun e t => Meets C n ok err t (h e)) s m := by
  have post_eq : (fun r t => Sat C n (ends ok err) t (handleCont h r)) =
      ends ok (fun e t => Meets C n ok err t (h e)) := by
    funext r t
    cases r <;> rfl
  rw [Meets, run_tryCatch, sat_bind, post_eq]
  rfl

theorem meets_map {f : α → β} {ok : β → σ → Prop} {m : Task I ε α} :
    Meets C n ok err s (f <$> m) ↔ Meets C n (fun a t => ok (f a) t) err s m := by
  rw [map_eq_pure_bind, meets_bind]
  rfl

/-- The value changes, what holds of the state does not. -/
theorem Meets.map {f : α → β} {q : σ → Prop} {m : Task I ε α}
    (h : Meets C n (fun _ => q) err s m) : Meets C n (fun _ => q) err s (f <$> m) :=
  meets_map.mpr h

theorem Meets.weaken {ok' : α → σ → Prop} {err' : ε → σ → Prop} {m : Task I ε α}
    (h : Meets C n ok err s m) (ho : ∀ a t, ok a t → ok' a t) (he : ∀ e t, err e t → err' e t) :
    Meets C n ok' err' s m :=
  Sat.weaken h fun r t => match r with
    | .ok a => ho a t
    | .error e => he e t

/-- Every operation the task may call satisfies `P`. -/
def All (P : I.Op → Prop) (m : Task I ε α) : Prop := Prog.All P m.run

variable {P : I.Op → Prop}

theorem all_of_forall {m : Task I ε α} (hP : ∀ op, P op) : All P m := Prog.all_of_forall hP m.run

theorem All.mono {Q : I.Op → Prop} {m : Task I ε α} (h : All P m) (hPQ : ∀ op, P op → Q op) : All Q m :=
  Prog.All.mono h hPQ

@[simp, grind .]
theorem all_pure (a : α) : All P (pure a : Task I ε α) := trivial

@[simp, grind .]
theorem all_throw (e : ε) : All P (throw e : Task I ε α) := trivial

theorem all_ofExcept (x : Except ε α) : All P (ofExcept x : Task I ε α) := trivial

@[simp, grind =] theorem all_call (op : I.Op) : All P (call op : Task I ε _) ↔ P op := by
  change (P op ∧ ∀ _, True) ↔ _
  simp

@[grind .]
theorem all_bind {m : Task I ε α} {f : α → Task I ε β} (hm : All P m) (hf : ∀ a, All P (f a)) :
    All P (m >>= f) :=
  Prog.all_bind hm fun r => match r with
    | .ok a => hf a
    | .error _ => trivial

@[grind .]
theorem all_tryCatch {m : Task I ε α} {h : ε → Task I ε α} (hm : All P m)
    (hh : ∀ e, All P (h e)) : All P (tryCatch m h) :=
  Prog.all_bind hm fun r => match r with
    | .ok _ => trivial
    | .error e => hh e

/-- A task of idle operations may be stepped over. -/
theorem Meets.of_idle {m : Task I ε α} (hm : All (C.Idle n) m) :
    Meets C n (fun _ t => C.rely n s t) (fun _ t => C.rely n s t) s m :=
  Sat.weaken (Sat.of_idle hm) fun r _ h => match r with
    | .ok _ => h
    | .error _ => h

/-- A task of safe operations, of whose end nothing is asked. -/
theorem Meets.of_all {m : Task I ε α} (hm : All (C.Safe n) m) :
    Meets C n (fun _ _ => True) (fun _ _ => True) s m :=
  Sat.weaken (Sat.of_all hm) fun r _ _ => match r with
    | .ok _ => trivial
    | .error _ => trivial

theorem all_map {f : α → β} {m : Task I ε α} (hm : All P m) : All P (f <$> m) := by
  rw [map_eq_pure_bind]
  exact all_bind hm fun _ => all_pure _

end Task

/-! ### Programs of another interface -/

/-- The operations of one interface among those of another. -/
structure Into (I J : Interface) where
  op : I.Op → J.Op
  reply : ∀ o, J.Reply (op o) → I.Reply o

section Into

variable {J : Interface} (T : Into I J)

def Prog.via : Prog I α → Prog J α
  | .ret a => .ret a
  | .act op next => .act (T.op op) fun r => (next (T.reply op r)).via

theorem Prog.via_bind (p : Prog I α) (f : α → Prog I β) :
    (p >>= f).via T = p.via T >>= fun a => (f a).via T := by
  induction p with
  | ret a => rfl
  | act op next ih =>
    simp only [Prog.act_bind, Prog.via]
    congr 1
    funext r
    exact ih (T.reply op r)

theorem Prog.all_via {P : J.Op → Prop} {p : Prog I α} (h : p.All fun op => P (T.op op)) :
    (p.via T).All P := by
  induction p with
  | ret a => trivial
  | act op next ih => exact ⟨h.1, fun r => ih (T.reply op r) (h.2 (T.reply op r))⟩

namespace Task

variable {ε : Type}

def via (m : Task I ε α) : Task J ε α := ExceptT.mk (m.run.via T)

theorem via_bind (m : Task I ε α) (f : α → Task I ε β) :
    via T (m >>= f) = via T m >>= fun a => via T (f a) := by
  change (m.run >>= ExceptT.bindCont f).via T = m.run.via T >>= ExceptT.bindCont fun a => via T (f a)
  rw [Prog.via_bind]
  congr 1
  funext r
  cases r <;> rfl

theorem all_via {P : J.Op → Prop} {m : Task I ε α} (h : All (fun op => P (T.op op)) m) :
    All P (via T m) :=
  Prog.all_via T h

end Task

end Into

end Interleave
