import Finverse.Framework.Program

/-! Requests served side by side: every interleaving of their operations is a run of a pool. -/

namespace Interleave

variable {I : Interface} {ι σ ρ α : Type}

/-- What each request runs. Requests are numbered in the order they start. -/
structure System (I : Interface) (ι σ ρ α : Type) where
  machine : Machine I ι σ
  serve : Nat → ρ → Prog I α

structure Thread (I : Interface) (ρ α : Type) where
  req : ρ
  prog : Prog I α

structure Pool (I : Interface) (σ ρ α : Type) where
  state : σ
  threads : List (Thread I ρ α)

namespace Pool

def idle (s : σ) : Pool I σ ρ α := ⟨s, []⟩

def start (S : System I ι σ ρ α) (r : ρ) (c : Pool I σ ρ α) : Pool I σ ρ α :=
  ⟨c.state, c.threads ++ [⟨r, S.serve c.threads.length r⟩]⟩

/-- Some request starts, or some running request executes its next operation under `cond`. -/
inductive Step (S : System I ι σ ρ α) (cond : I.Op → ι → σ → Prop) :
    Pool I σ ρ α → Pool I σ ρ α → Prop
  | start (r : ρ) (c) : Step S cond c (c.start S r)
  | run (n : Nat) (i : ι) (c : Pool I σ ρ α) (r : ρ) (op : I.Op) (next : I.Reply op → Prog I α)
      (thread : c.threads[n]? = some ⟨r, .act op next⟩)
      (ready : S.machine.ready op i c.state = true) (ok : cond op i c.state) :
      Step S cond c ⟨(S.machine.exec op i c.state).2,
        c.threads.set n ⟨r, next (S.machine.exec op i c.state).1⟩⟩

/-- Any number of steps. -/
def Run (S : System I ι σ ρ α) (cond : I.Op → ι → σ → Prop) :
    Pool I σ ρ α → Pool I σ ρ α → Prop :=
  Relation.ReflTransGen (Step S cond)

/-- Request number `n` is `r` and has not finished. -/
def Running (c : Pool I σ ρ α) (n : Nat) (r : ρ) : Prop :=
  ∃ op next, c.threads[n]? = some ⟨r, .act op next⟩

/-- Request number `n` is `r` and finished with `a`. -/
def Finished (c : Pool I σ ρ α) (n : Nat) (r : ρ) (a : α) : Prop :=
  c.threads[n]? = some ⟨r, .ret a⟩

/-- A running request satisfies its contract from now on; a finished one met its postcondition
in a state that has since been moved by others only. -/
def Keeps {M : Machine I ι σ} (C : Contract M) (n : Nat) (post : α → σ → Prop) (s : σ) :
    Prog I α → Prop
  | .ret a => ∃ t, C.inv t ∧ C.rely n t s ∧ post a t
  | .act op next => Sat C n post s (.act op next)

section Keeps

variable {M : Machine I ι σ} {C : Contract M} {n : Nat} {post : α → σ → Prop} {s t : σ}
  {p : Prog I α}

theorem Keeps.of_sat (hi : C.inv s) (h : Sat C n post s p) : Keeps C n post s p := by
  cases p with
  | ret a => exact ⟨s, hi, C.relyRefl n s, h⟩
  | act op next => exact h

theorem Keeps.move (hst : C.rely n s t) (h : Keeps C n post s p) : Keeps C n post t p := by
  cases p with
  | ret a =>
    obtain ⟨u, hu, hus, hp⟩ := h
    exact ⟨u, hu, Contract.relyTrans hus hst, hp⟩
  | act op next => exact Sat.move h hst

end Keeps

variable {S : System I ι σ ρ α} {C : Contract S.machine} {post : Nat → ρ → α → σ → Prop}

/-- The invariant of a pool: the shared one, and each request keeps its own contract. -/
structure Sound (C : Contract S.machine) (post : Nat → ρ → α → σ → Prop)
    (c : Pool I σ ρ α) : Prop where
  inv : C.inv c.state
  keeps : ∀ n th, c.threads[n]? = some th → Keeps C n (post n th.req) c.state th.prog

theorem Sound.idle {s : σ} (h : C.inv s) : Sound C post (Pool.idle s) :=
  ⟨h, by simp [Pool.idle]⟩

theorem Sound.under {cond : I.Op → ι → σ → Prop} (hc : ∀ op i t, cond op i t → C.cond op i t)
    {c : Pool I σ ρ α} (h : Sound C post c) : Sound (C.under cond) post c := by
  refine ⟨h.inv, ?_⟩
  intro n th hn
  have hk := h.keeps n th hn
  revert hk
  cases th.prog with
  | ret a => exact id
  | act op next => exact fun hk => Sat.under (p := .act op next) hc hk

/-- Every request keeps the contract when it starts in a state that evolved from `s₀`. -/
def Serves (C : Contract S.machine) (post : Nat → ρ → α → σ → Prop) (s₀ : σ) : Prop :=
  ∀ n r s, C.evolves s₀ s → C.inv s → Sat C n (post n r) s (S.serve n r)

theorem Sound.start_step {c : Pool I σ ρ α} (h : Sound C post c) {r : ρ}
    (hr : Sat C c.threads.length (post c.threads.length r) c.state
      (S.serve c.threads.length r)) : Sound C post (c.start S r) := by
  refine ⟨h.inv, ?_⟩
  intro n th hn
  simp only [Pool.start, List.getElem?_append] at hn
  split at hn
  · exact h.keeps n th hn
  · rename_i hlt
    rw [List.getElem?_singleton] at hn
    split at hn
    · have he : n = c.threads.length := by omega
      subst he
      simp only [Option.some.injEq] at hn
      subst hn
      exact Keeps.of_sat h.inv hr
    · simp at hn

/-- An operation of a running request keeps every request's contract. -/
theorem Sound.run_step {c : Pool I σ ρ α} (h : Sound C post c) {n : Nat} {i : ι} {r : ρ}
    {op : I.Op} {next : I.Reply op → Prog I α} (thread : c.threads[n]? = some ⟨r, .act op next⟩)
    (ready : S.machine.ready op i c.state = true) (ok : C.cond op i c.state) :
    Sound C post ⟨(S.machine.exec op i c.state).2,
      c.threads.set n ⟨r, next (S.machine.exec op i c.state).1⟩⟩ := by
  have hsat : Sat C n (post n r) c.state (.act op next) := h.keeps n _ thread
  obtain ⟨h1, h2, h3⟩ := hsat i c.state (C.relyRefl n _) h.inv ok ready
  refine ⟨h1, ?_⟩
  intro m th hm
  by_cases hmn : n = m
  · subst hmn
    have hlt : n < c.threads.length := (List.getElem?_eq_some_iff.mp thread).1
    simp only [List.getElem?_set_self hlt, Option.some.injEq] at hm
    subst hm
    exact Keeps.of_sat h1 h3
  · rw [List.getElem?_set_ne hmn] at hm
    exact (h.keeps m th hm).move (Contract.guarantee_rely (Ne.symm hmn) h2)

theorem Sound.step {s₀ : σ} {c c' : Pool I σ ρ α} (serves : Serves C post s₀)
    (h0 : C.evolves s₀ c.state) (h : Sound C post c) (hs : Step S C.cond c c') :
    Sound C post c' ∧ C.evolves c.state c'.state := by
  cases hs with
  | start r => exact ⟨h.start_step (serves _ r c.state h0 h.inv), C.refl _⟩
  | run n i _ r op next thread ready ok =>
    have hsat : Sat C n (post n r) c.state (.act op next) := h.keeps n _ thread
    exact ⟨h.run_step thread ready ok, (hsat i c.state (C.relyRefl n _) h.inv ok ready).2.1.1⟩

/-- The invariant rule: a sound pool stays sound along every run, and its state evolves. -/
theorem Sound.run {s₀ : σ} {c c' : Pool I σ ρ α} (serves : Serves C post s₀)
    (h0 : C.evolves s₀ c.state) (h : Sound C post c) (hr : Run S C.cond c c') :
    Sound C post c' ∧ C.evolves c.state c'.state := by
  induction hr with
  | refl => exact ⟨h, C.refl _⟩
  | tail _ hs ih =>
    obtain ⟨h1, h2⟩ := ih
    obtain ⟨h3, h4⟩ := h1.step serves (C.trans h0 h2) hs
    exact ⟨h3, C.trans h2 h4⟩

/-- A finished request met its postcondition in some earlier state of the run. -/
theorem Sound.finished {c : Pool I σ ρ α} (h : Sound C post c) {n : Nat} {r : ρ} {a : α}
    (hf : c.Finished n r a) : ∃ t, C.inv t ∧ C.evolves t c.state ∧ post n r a t := by
  obtain ⟨t, ht, hts, hp⟩ := h.keeps n _ hf
  exact ⟨t, ht, hts.1, hp⟩

/-- One request keeps whatever contract its program satisfies, while all keep `C`. -/
theorem Sound.thread_step {c c' : Pool I σ ρ α} (h : Sound C post c) (hs : Step S C.cond c c')
    {n : Nat} {th : Thread I ρ α} (hn : c.threads[n]? = some th) {q : α → σ → Prop}
    (hq : Keeps C n q c.state th.prog) :
    ∃ th', c'.threads[n]? = some th' ∧ Keeps C n q c'.state th'.prog := by
  cases hs with
  | start r =>
    refine ⟨th, ?_, hq⟩
    have hlt := (List.getElem?_eq_some_iff.mp hn).1
    simpa only [Pool.start, List.getElem?_append_left hlt] using hn
  | run m i _ r op next thread ready ok =>
    by_cases hmn : m = n
    · subst hmn
      have hlt := (List.getElem?_eq_some_iff.mp hn).1
      rw [thread] at hn
      obtain rfl := Option.some.inj hn
      obtain ⟨h1, -, h3⟩ := (hq : Sat C m q _ _) i c.state (C.relyRefl m _) h.inv ok ready
      exact ⟨_, List.getElem?_set_self hlt, Keeps.of_sat h1 h3⟩
    · have hsat : Sat C m (post m r) c.state (.act op next) := h.keeps m _ thread
      have moved := (hsat i c.state (C.relyRefl m _) h.inv ok ready).2.1
      refine ⟨th, ?_, hq.move (Contract.guarantee_rely (Ne.symm hmn) moved)⟩
      rwa [List.getElem?_set_ne hmn]

/-- What a running program satisfies from `c` on holds when its request has finished in `c'`. -/
theorem Sound.finished_of_sat {s₀ : σ} {c c' : Pool I σ ρ α} (serves : Serves C post s₀)
    (h0 : C.evolves s₀ c.state) (h : Sound C post c) (hr : Run S C.cond c c') {n : Nat} {r : ρ}
    {p : Prog I α} (hn : c.threads[n]? = some ⟨r, p⟩) {q : α → σ → Prop}
    (hq : Sat C n q c.state p) {a : α} (hf : c'.Finished n r a) :
    ∃ t, C.inv t ∧ C.evolves c.state t ∧ C.evolves t c'.state ∧ q a t := by
  let q' : α → σ → Prop := fun b t => q b t ∧ C.evolves c.state t
  have start : Keeps C n q' c.state p := Keeps.of_sat h.inv (hq.evolved (C.refl c.state))
  have main : ∀ d, Run S C.cond c d →
      ∃ th, d.threads[n]? = some th ∧ Keeps C n q' d.state th.prog := by
    intro d hd
    induction hd with
    | refl => exact ⟨_, hn, start⟩
    | tail hcd hs ih =>
      obtain ⟨th, hth, hk⟩ := ih
      exact (h.run serves h0 hcd).1.thread_step hs hth hk
  obtain ⟨th, hth, hk⟩ := main c' hr
  rw [hf] at hth
  obtain rfl := Option.some.inj hth
  obtain ⟨t, ht, hts, hqt, hct⟩ := hk
  exact ⟨t, ht, hct, hts.1, hqt⟩

/-- The same for a request from its start on. -/
theorem Sound.finished_of_start {s₀ : σ} {c c' : Pool I σ ρ α} (serves : Serves C post s₀)
    (h0 : C.evolves s₀ c.state) (h : Sound C post c) {r : ρ}
    (hr : Run S C.cond (c.start S r) c') {q : α → σ → Prop}
    (hq : Sat C c.threads.length q c.state (S.serve c.threads.length r)) {a : α}
    (hf : c'.Finished c.threads.length r a) :
    ∃ t, C.inv t ∧ C.evolves c.state t ∧ C.evolves t c'.state ∧ q a t := by
  have started := h.start_step (serves _ r c.state h0 h.inv)
  have thread : (c.start S r).threads[c.threads.length]? =
      some ⟨r, S.serve c.threads.length r⟩ := by
    simp [Pool.start]
  exact finished_of_sat (c := c.start S r) serves h0 started hr thread hq hf

/-- A request running in `c` that has finished in `c'` met its postcondition in between. -/
theorem Sound.finished_after {s₀ : σ} {c c' : Pool I σ ρ α} (serves : Serves C post s₀)
    (h0 : C.evolves s₀ c.state) (h : Sound C post c) (hr : Run S C.cond c c') {n : Nat} {r : ρ}
    {a : α} (running : c.Running n r) (hf : c'.Finished n r a) :
    ∃ t, C.inv t ∧ C.evolves c.state t ∧ C.evolves t c'.state ∧ post n r a t := by
  obtain ⟨op, next, hn⟩ := running
  exact h.finished_of_sat serves h0 hr hn (h.keeps n _ hn) hf

/-! ### Scheduled runs -/

/-- One entry of a schedule: a request starts, or request `n` takes its next step. -/
inductive Move (ι ρ : Type) : Type
  | start (r : ρ)
  | run (n : Nat) (i : ι)

section Schedules

variable (S : System I ι σ ρ α) (guard : I.Op → ι → σ → Bool)

def exec1 : Move ι ρ → Pool I σ ρ α → Option (Pool I σ ρ α)
  | .start r, c => some (c.start S r)
  | .run n i, c =>
    match c.threads[n]? with
    | some ⟨r, .act op next⟩ =>
      if S.machine.ready op i c.state && guard op i c.state then
        let step := S.machine.exec op i c.state
        some ⟨step.2, c.threads.set n ⟨r, next step.1⟩⟩
      else none
    | _ => none

def exec : List (Move ι ρ) → Pool I σ ρ α → Option (Pool I σ ρ α)
  | [], c => some c
  | m :: ms, c => (exec1 S guard m c).bind (exec ms)

end Schedules

section Schedules

/-- Where a schedule leads under a guard; nowhere when some entry cannot be taken. -/
def afterUnder (S : System I ι σ ρ α) (guard : I.Op → ι → σ → Bool) (ms : List (Move ι ρ))
    (c : Pool I σ ρ α) : Pool I σ ρ α :=
  (exec S guard ms c).getD c

def after (S : System I ι σ ρ α) (ms : List (Move ι ρ)) (c : Pool I σ ρ α) : Pool I σ ρ α :=
  afterUnder S (fun _ _ _ => true) ms c

variable {guard : I.Op → ι → σ → Bool} {d d' : I.Op → ι → σ → Prop}

theorem exec1_step {m : Move ι ρ} {c c' : Pool I σ ρ α} (h : exec1 S guard m c = some c') :
    Step S (fun op i s => guard op i s = true) c c' := by
  cases m with
  | start r =>
    obtain rfl := Option.some.inj h
    exact .start r c
  | run n i =>
    simp only [exec1] at h
    split at h
    · rename_i r op next hn
      split at h
      · rename_i he
        rw [Bool.and_eq_true] at he
        obtain rfl := Option.some.inj h
        exact .run n i c r op next hn he.1 he.2
      · simp at h
    · simp at h

theorem exec_run {ms : List (Move ι ρ)} {c c' : Pool I σ ρ α} (h : exec S guard ms c = some c') :
    Run S (fun op i s => guard op i s = true) c c' := by
  induction ms generalizing c with
  | nil =>
    obtain rfl := Option.some.inj h
    exact .refl
  | cons m ms ih =>
    simp only [exec] at h
    cases h1 : exec1 S guard m c with
    | none => simp [h1] at h
    | some e =>
      rw [h1, Option.bind_some] at h
      exact .head (exec1_step h1) (ih h)

/-- A schedule describes a run whose steps all meet the guard. -/
theorem afterUnder_run (S : System I ι σ ρ α) (guard : I.Op → ι → σ → Bool)
    (ms : List (Move ι ρ)) (c : Pool I σ ρ α) :
    Run S (fun op i s => guard op i s = true) c (afterUnder S guard ms c) := by
  cases h : exec S guard ms c with
  | none =>
    rw [afterUnder, h]
    exact .refl
  | some c' =>
    rw [afterUnder, h]
    exact exec_run h

theorem Step.mono (h : ∀ op i s, d op i s → d' op i s) {c c' : Pool I σ ρ α}
    (hs : Step S d c c') : Step S d' c c' := by
  cases hs with
  | start r => exact .start r c
  | run n i _ r op next thread ready ok => exact .run n i c r op next thread ready (h op i _ ok)

theorem Run.mono (h : ∀ op i s, d op i s → d' op i s) {c c' : Pool I σ ρ α}
    (hr : Run S d c c') : Run S d' c c' := by
  induction hr with
  | refl => exact .refl
  | tail _ hs ih => exact .tail ih (hs.mono h)

theorem after_run (S : System I ι σ ρ α) (ms : List (Move ι ρ)) (c : Pool I σ ρ α) :
    Run S (fun _ _ _ => True) c (after S ms c) :=
  (afterUnder_run S _ ms c).mono fun _ _ _ _ => trivial

end Schedules

end Pool

end Interleave
