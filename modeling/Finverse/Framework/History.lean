import Finverse.Framework.Pool
import Mathlib.Data.List.Induction

/-! What the requests of a run did, in order, and what the program of a request says about its own
part of that. -/

namespace Interleave

variable {I : Interface} {ι σ ρ α β : Type}

/-- An operation and its reply. -/
structure Event (I : Interface) where
  op : I.Op
  reply : I.Reply op

/-! ### The course of one program -/

/-- A history went on with such operations only. -/
def Extends (P : I.Op → Prop) (h h' : List (Event I)) : Prop :=
  ∃ more, h' = h ++ more ∧ ∀ ev ∈ more, P ev.op

namespace Prog

/-- The program gets to another by these operations. -/
inductive Path : Prog I α → List (Event I) → Prog I α → Prop
  | refl (p) : Path p [] p
  | step {op : I.Op} {next : I.Reply op → Prog I α} {r : I.Reply op} {events q}
      (rest : Path (next r) events q) : Path (.act op next) (⟨op, r⟩ :: events) q

/-- Every operation is asked for after a history that allows it, and the program ends after one that
it should end after, whatever the replies are. -/
def Asks (D : List (Event I) → I.Op → Prop) (post : List (Event I) → α → Prop) :
    List (Event I) → Prog I α → Prop
  | h, .ret a => post h a
  | h, .act op next => D h op ∧ ∀ r, (next r).Asks D post (h ++ [⟨op, r⟩])

section Path

variable {p q : Prog I α} {events before after h : List (Event I)} {e : Event I}
  {D D' : List (Event I) → I.Op → Prop} {post post' : List (Event I) → α → Prop}

theorem Path.snoc {op : I.Op} {next : I.Reply op → Prog I α} (path : Path p events (.act op next))
    (r : I.Reply op) : Path p (events ++ [⟨op, r⟩]) (next r) := by
  generalize hq : Prog.act op next = q at path
  induction path with
  | refl p =>
    subst hq
    exact .step (.refl _)
  | step _ ih => exact .step (ih hq)

/-- Where a path came by. -/
theorem Path.split (path : Path p (before ++ e :: after) q) :
    ∃ next, Path p before (.act e.op next) ∧ Path (next e.reply) after q := by
  induction before generalizing p with
  | nil =>
    cases path with
    | step rest => exact ⟨_, .refl _, rest⟩
  | cons first before ih =>
    cases path with
    | step rest =>
      obtain ⟨next, earlier, later⟩ := ih rest
      exact ⟨next, .step earlier, later⟩

theorem Asks.path (asks : p.Asks D post h) (path : Path p events q) : q.Asks D post (h ++ events) := by
  induction path generalizing h with
  | refl p => simpa using asks
  | step _ ih => simpa using ih (asks.2 _)

/-- What was allowed at each operation of a path. -/
theorem Asks.at_ (asks : p.Asks D post []) (path : Path p (before ++ e :: after) q) :
    D before e.op := by
  obtain ⟨next, earlier, -⟩ := path.split
  exact (asks.path earlier).1

theorem Asks.weaken (asks : p.Asks D post h) (hD : ∀ h op, D h op → D' h op)
    (hpost : ∀ h a, post h a → post' h a) : p.Asks D' post' h := by
  induction p generalizing h with
  | ret a => exact hpost h a asks
  | act op next ih => exact ⟨hD h op asks.1, fun r => ih r (asks.2 r)⟩

theorem asks_bind {post : List (Event I) → β → Prop} {f : α → Prog I β} :
    (p >>= f).Asks D post h ↔ p.Asks D (fun h a => (f a).Asks D post h) h := by
  induction p generalizing h with
  | ret a => rfl
  | act op next ih => simp only [act_bind, Asks, ih]

/-- Where every operation is allowed after any history. -/
theorem Asks.of_all {P : I.Op → Prop} (all : p.All P) (hD : ∀ h op, P op → D h op) :
    p.Asks D (fun h' _ => Extends P h h') h := by
  suffices main : ∀ h₀, Extends P h₀ h → p.Asks D (fun h' _ => Extends P h₀ h') h from
    main h ⟨[], (List.append_nil h).symm, by simp⟩
  induction p generalizing h with
  | ret a => exact fun h₀ sofar => sofar
  | act op next ih =>
    rintro h₀ ⟨more, rfl, such⟩
    refine ⟨hD _ op all.1, fun r => ih r (all.2 r) h₀ ⟨more ++ [⟨op, r⟩], by simp, ?_⟩⟩
    intro ev there
    rcases List.mem_append.mp there with earlier | now
    · exact such ev earlier
    · obtain rfl := List.mem_singleton.mp now
      exact all.1

end Path

end Prog

namespace Task

variable {ε : Type} {D : List (Event I) → I.Op → Prop} {h : List (Event I)}

/-- Both ways a task may end. -/
def asksEnds (ok : List (Event I) → α → Prop) (err : List (Event I) → ε → Prop)
    (h : List (Event I)) : Except ε α → Prop
  | .ok a => ok h a
  | .error e => err h e

def Asks (D : List (Event I) → I.Op → Prop) (ok : List (Event I) → α → Prop)
    (err : List (Event I) → ε → Prop) (h : List (Event I)) (m : Task I ε α) : Prop :=
  Prog.Asks D (asksEnds ok err) h m.run

variable {ok : List (Event I) → α → Prop} {err : List (Event I) → ε → Prop}

@[simp] theorem asks_pure (a : α) : Asks D ok err h (pure a : Task I ε α) ↔ ok h a := Iff.rfl

@[simp] theorem asks_throw (e : ε) : Asks D ok err h (throw e : Task I ε α) ↔ err h e := Iff.rfl

theorem asks_bind {ok : List (Event I) → β → Prop} {m : Task I ε α} {f : α → Task I ε β} :
    Asks D ok err h (m >>= f) ↔ Asks D (fun h a => Asks D ok err h (f a)) err h m := by
  have post_eq : (fun h r => Prog.Asks D (asksEnds ok err) h (ExceptT.bindCont f r)) =
      asksEnds (fun h a => Asks D ok err h (f a)) err := by
    funext h r
    cases r <;> rfl
  change Prog.Asks D (asksEnds ok err) h (m.run >>= ExceptT.bindCont f) ↔ _
  rw [Prog.asks_bind, post_eq]
  rfl

theorem asks_call {op : I.Op} {ok : List (Event I) → I.Reply op → Prop} :
    Asks D ok err h (call op : Task I ε _) ↔ D h op ∧ ∀ r, ok (h ++ [⟨op, r⟩]) r := by
  change Prog.Asks D (asksEnds ok err) h (Prog.call op >>= fun a => Prog.ret (Except.ok a)) ↔ _
  rw [Prog.asks_bind]
  rfl

/-- The rule for an operation and what follows it. -/
theorem asks_call_bind {op : I.Op} {f : I.Reply op → Task I ε β}
    {ok : List (Event I) → β → Prop} : Asks D ok err h (call op >>= f) ↔
      D h op ∧ ∀ r, Asks D ok err (h ++ [⟨op, r⟩]) (f r) := by
  rw [asks_bind, asks_call]

theorem asks_map {f : α → β} {ok : List (Event I) → β → Prop} {m : Task I ε α} :
    Asks D ok err h (f <$> m) ↔ Asks D (fun h a => ok h (f a)) err h m := by
  rw [map_eq_pure_bind, asks_bind]
  rfl

theorem asks_tryCatch {m : Task I ε α} {handler : ε → Task I ε α} :
    Asks D ok err h (tryCatch m handler) ↔
      Asks D ok (fun h e => Asks D ok err h (handler e)) h m := by
  have post_eq : (fun h r => Prog.Asks D (asksEnds ok err) h (handleCont handler r)) =
      asksEnds ok (fun h e => Asks D ok err h (handler e)) := by
    funext h r
    cases r <;> rfl
  rw [Asks, run_tryCatch, Prog.asks_bind, post_eq]
  rfl

theorem Asks.weaken {ok' : List (Event I) → α → Prop} {err' : List (Event I) → ε → Prop}
    {m : Task I ε α} (asks : Asks D ok err h m) (ho : ∀ h a, ok h a → ok' h a)
    (he : ∀ h e, err h e → err' h e) : Asks D ok' err' h m :=
  Prog.Asks.weaken asks (fun _ _ => id) fun h r => match r with
    | .ok a => ho h a
    | .error e => he h e

/-- A task whose operations are all allowed after any history. -/
theorem Asks.of_all {P : I.Op → Prop} {m : Task I ε α} (all : All P m)
    (hD : ∀ h op, P op → D h op) :
    Asks D (fun h' _ => Extends P h h') (fun h' _ => Extends P h h') h m :=
  Prog.Asks.weaken (Prog.Asks.of_all all hD) (fun _ _ => id) fun _ r grown => match r with
    | .ok _ => grown
    | .error _ => grown

/-- The rule for such a task and what follows it. -/
theorem Asks.all_bind {P : I.Op → Prop} {m : Task I ε α} {f : α → Task I ε β}
    {ok : List (Event I) → β → Prop} (all : All P m) (hD : ∀ h op, P op → D h op)
    (he : ∀ h' e, Extends P h h' → err h' e)
    (hf : ∀ h' a, Extends P h h' → Asks D ok err h' (f a)) :
    Asks D ok err h (m >>= f) :=
  asks_bind.mpr ((of_all all hD).weaken hf he)

/-- Every operation of the task is allowed, whatever was done before. -/
structure Always (D : List (Event I) → I.Op → Prop) (m : Task I ε α) : Prop where
  asks : ∀ h, Asks D (fun _ _ => True) (fun _ _ => True) h m

theorem always_pure (a : α) : Always D (pure a : Task I ε α) := ⟨fun _ => trivial⟩

theorem always_throw (e : ε) : Always D (throw e : Task I ε α) := ⟨fun _ => trivial⟩

theorem Always.bind {m : Task I ε α} {f : α → Task I ε β} (hm : Always D m)
    (hf : ∀ a, Always D (f a)) : Always D (m >>= f) :=
  ⟨fun h => asks_bind.mpr ((hm.asks h).weaken (fun h a _ => (hf a).asks h) fun _ _ _ => trivial)⟩

theorem Always.map {f : α → β} {m : Task I ε α} (hm : Always D m) : Always D (f <$> m) :=
  ⟨fun h => asks_map.mpr (hm.asks h)⟩

theorem Always.of_all {P : I.Op → Prop} {m : Task I ε α} (all : All P m)
    (hD : ∀ h op, P op → D h op) : Always D m :=
  ⟨fun _ => (Asks.of_all all hD).weaken (fun _ _ _ => trivial) fun _ _ _ => trivial⟩

end Task

/-! ### The course of a run -/

/-- An operation of a request, and where it was run. -/
structure Entry (I : Interface) (ι σ ρ : Type) where
  thread : Nat
  req : ρ
  op : I.Op
  input : ι
  before : σ

namespace Entry

variable (M : Machine I ι σ) (e : Entry I ι σ ρ)

def reply : I.Reply e.op := (M.exec e.op e.input e.before).1

def after : σ := (M.exec e.op e.input e.before).2

def event : Event I := ⟨e.op, e.reply M⟩

/-- What an event says of the operation. -/
theorem of_event {M : Machine I ι σ} {e : Entry I ι σ ρ} {op : I.Op} {r : I.Reply op}
    (h : e.event M = ⟨op, r⟩) : e.op = op ∧ (M.exec op e.input e.before).1 = r := by
  obtain ⟨thread, req, op', input, before⟩ := e
  obtain rfl : op' = op := congrArg Event.op h
  exact ⟨rfl, eq_of_heq (Event.mk.inj h).2⟩

end Entry

/-- What request `n` did. -/
def own (M : Machine I ι σ) (log : List (Entry I ι σ ρ)) (n : Nat) : List (Event I) :=
  (log.filter fun e => e.thread == n).map (Entry.event M)

/-- Where a log ends that starts from a state. -/
def ending (M : Machine I ι σ) (s : σ) (log : List (Entry I ι σ ρ)) : σ :=
  (log.getLast?.map (Entry.after M)).getD s

section Log

variable {M : Machine I ι σ} {log : List (Entry I ι σ ρ)} {e : Entry I ι σ ρ} {n : Nat} {s : σ}

@[simp] theorem ending_nil : ending M s ([] : List (Entry I ι σ ρ)) = s := rfl

@[simp] theorem ending_snoc : ending M s (log ++ [e]) = e.after M := by simp [ending]

theorem own_snoc : own M (log ++ [e]) n =
    if e.thread = n then own M log n ++ [e.event M] else own M log n := by
  by_cases h : e.thread = n <;> simp [own, h]

theorem own_snoc_self : own M (log ++ [e]) e.thread = own M log e.thread ++ [e.event M] := by
  rw [own_snoc, if_pos rfl]

/-- What every request does once at most, as many requests have done. -/
theorem threads_nodup {q : Entry I ι σ ρ → Bool}
    (once : ∀ before e after, log = before ++ e :: after → q e = true →
      ∀ e' ∈ before, q e' = true → e'.thread ≠ e.thread) :
    ((log.filter q).map Entry.thread).Nodup := by
  induction log using List.reverseRecOn with
  | nil => exact List.nodup_nil
  | append_singleton log e ih =>
    have earlier : ((log.filter q).map Entry.thread).Nodup := by
      refine ih fun before e' after split => once before e' (after ++ [e]) ?_
      rw [split, List.append_assoc, List.cons_append]
    by_cases now : q e = true
    · rw [List.filter_append, List.filter_cons_of_pos now, List.filter_nil, List.map_append,
        List.map_singleton, List.nodup_append]
      refine ⟨earlier, List.pairwise_singleton _ _, ?_⟩
      intro n there m here
      obtain ⟨e', listed, rfl⟩ := List.mem_map.mp there
      obtain ⟨listed, same⟩ := List.mem_filter.mp listed
      obtain rfl := List.mem_singleton.mp here
      exact once log e [] rfl now e' listed same
    · rw [List.filter_append, List.filter_cons_of_neg now, List.filter_nil, List.append_nil]
      exact earlier

/-- Nothing of the second kind was done since anything of the first. -/
def quietSince (mark stirs : Entry I ι σ ρ → Bool) : List (Entry I ι σ ρ) → Bool
  | [] => true
  | e :: after => (!mark e || after.all fun e' => !stirs e') && quietSince mark stirs after

theorem quietSince_split {mark stirs : Entry I ι σ ρ → Bool} {before after : List (Entry I ι σ ρ)}
    (quiet : quietSince mark stirs (before ++ e :: after) = true) (marked : mark e = true) :
    ∀ e' ∈ after, stirs e' = false := by
  induction before with
  | nil =>
    simp only [List.nil_append, quietSince, marked, Bool.not_true, Bool.false_or, Bool.and_eq_true,
      List.all_eq_true, Bool.not_eq_true'] at quiet
    exact quiet.1
  | cons first before ih =>
    rw [List.cons_append, quietSince, Bool.and_eq_true] at quiet
    exact ih quiet.2

/-- Something was done at some point of the log; what, may depend on what came before it. -/
def Happened (R : List (Entry I ι σ ρ) → Entry I ι σ ρ → Prop) (log : List (Entry I ι σ ρ)) : Prop :=
  ∃ before e after, log = before ++ e :: after ∧ R before e

section Happened

variable {R : List (Entry I ι σ ρ) → Entry I ι σ ρ → Prop}

theorem happened_nil : ¬Happened R [] := by
  rintro ⟨before, e, after, split, -⟩
  simp at split

theorem happened_snoc : Happened R (log ++ [e]) ↔ Happened R log ∨ R log e := by
  constructor
  · rintro ⟨before, e', after, split, done⟩
    rcases List.eq_nil_or_concat after with rfl | ⟨rest, last, rfl⟩
    · obtain ⟨rfl, same⟩ := List.append_inj' split rfl
      obtain rfl := (List.cons.inj same).1
      exact .inr done
    · rw [List.concat_eq_append, ← List.cons_append, ← List.append_assoc] at split
      obtain ⟨rfl, -⟩ := List.append_inj' split rfl
      exact .inl ⟨before, e', rest, rfl, done⟩
  · rintro (⟨before, e', after, rfl, done⟩ | done)
    · exact ⟨before, e', after ++ [e], by simp, done⟩
    · exact ⟨log, e, [], rfl, done⟩

end Happened

/-- Where the request did something. -/
theorem own_split {event : Event I} {first rest : List (Event I)}
    (did : own M log n = first ++ event :: rest) : ∃ before e after, log = before ++ e :: after ∧
      e.thread = n ∧ e.event M = event ∧ own M before n = first ∧ own M after n = rest := by
  obtain ⟨mine, others, filtered, earlier, more⟩ := List.map_eq_append_iff.mp did
  obtain ⟨e, later, rfl, same, last⟩ := List.map_eq_cons_iff.mp more
  obtain ⟨before, mid, rfl, first', here⟩ := List.filter_eq_append_iff.mp filtered
  obtain ⟨skipped, after, rfl, none_, thread, last'⟩ := List.filter_eq_cons_iff.mp here
  refine ⟨before ++ skipped, e, after, by simp, beq_iff_eq.mp thread, same, ?_, ?_⟩
  · have nothing : (skipped.filter fun e => e.thread == n) = [] := List.filter_eq_nil_iff.mpr none_
    rw [own, List.filter_append, nothing, List.append_nil, first', earlier]
  · rw [own, last', last]

theorem mem_own {event : Event I} :
    event ∈ own M log n ↔ ∃ e ∈ log, e.thread = n ∧ e.event M = event := by
  simp only [own, List.mem_map, List.mem_filter, beq_iff_eq, and_assoc]

end Log

namespace Pool

variable (S : System I ι σ ρ α) (s₀ : σ)

/-- The runs from a state, with what was done in them. A condition may look at all of it. -/
inductive Recorded (cond : List (Entry I ι σ ρ) → Entry I ι σ ρ → Prop) :
    List (Entry I ι σ ρ) → Pool I σ ρ α → Prop
  | idle : Recorded cond [] (Pool.idle s₀)
  | start {log c} (r : ρ) (sofar : Recorded cond log c) : Recorded cond log (c.start S r)
  | run {log c} (n : Nat) (r : ρ) (op : I.Op) (next : I.Reply op → Prog I α) (i : ι)
      (sofar : Recorded cond log c) (thread : c.threads[n]? = some ⟨r, .act op next⟩)
      (ready : S.machine.ready op i c.state = true) (ok : cond log ⟨n, r, op, i, c.state⟩) :
      Recorded cond (log ++ [⟨n, r, op, i, c.state⟩])
        ⟨(S.machine.exec op i c.state).2, c.threads.set n ⟨r, next (S.machine.exec op i c.state).1⟩⟩

variable {S s₀} {cond cond' : List (Entry I ι σ ρ) → Entry I ι σ ρ → Prop}
  {log before after : List (Entry I ι σ ρ)} {c c' : Pool I σ ρ α} {e : Entry I ι σ ρ} {n : Nat}

/-- The record aside, it is a run. -/
theorem Recorded.toRun (recorded : Recorded S s₀ cond log c) :
    Run S (fun _ _ _ => True) (Pool.idle s₀) c := by
  induction recorded with
  | idle => exact .refl
  | start r _ ih => exact .tail ih (.start r _)
  | run n r op next i _ thread ready _ ih => exact .tail ih (.run n i _ r op next thread ready trivial)

/-- Every run can be recorded. -/
theorem Run.recorded (run : Run S (fun _ _ _ => True) (Pool.idle s₀) c) :
    ∃ log, Recorded S s₀ (fun _ _ => True) log c := by
  induction run with
  | refl => exact ⟨[], .idle⟩
  | tail _ step ih =>
    obtain ⟨log, recorded⟩ := ih
    cases step with
    | start r => exact ⟨log, .start r recorded⟩
    | run n i _ r op next thread ready _ => exact ⟨_, .run n r op next i recorded thread ready trivial⟩

theorem Recorded.mono (recorded : Recorded S s₀ cond log c)
    (h : ∀ log e, cond log e → cond' log e) : Recorded S s₀ cond' log c := by
  induction recorded with
  | idle => exact .idle
  | start r _ ih => exact .start r ih
  | run n r op next i _ thread ready ok ih => exact .run n r op next i ih thread ready (h _ _ ok)

theorem Recorded.state (recorded : Recorded S s₀ cond log c) :
    c.state = ending S.machine s₀ log := by
  induction recorded with
  | idle => rfl
  | start r _ ih => exact ih
  | run n r op next i _ thread ready ok ih =>
    rw [ending_snoc]
    rfl

/-- A record begins with a record, and the rest is a run from where that one led. -/
theorem Recorded.resume (recorded : Recorded S s₀ cond (before ++ after) c) :
    ∃ c', Recorded S s₀ cond before c' ∧ Run S (fun _ _ _ => True) c' c := by
  generalize hlog : before ++ after = log at recorded
  induction recorded generalizing after with
  | idle =>
    obtain ⟨rfl, rfl⟩ := List.append_eq_nil_iff.mp hlog
    exact ⟨_, .idle, .refl⟩
  | start r _ ih =>
    obtain ⟨c', earlier, run⟩ := ih hlog
    exact ⟨c', earlier, .tail run (.start r _)⟩
  | @run log c n r op next i sofar thread ready ok ih =>
    rcases List.eq_nil_or_concat after with rfl | ⟨rest, last, rfl⟩
    · rw [List.append_nil] at hlog
      subst hlog
      exact ⟨_, .run n r op next i sofar thread ready ok, .refl⟩
    · rw [List.concat_eq_append, ← List.append_assoc] at hlog
      obtain ⟨c', earlier, run⟩ := ih (List.append_inj' hlog rfl).1
      exact ⟨c', earlier, .tail run (.run n i _ r op next thread ready trivial)⟩

/-- What a record begins with is a record. -/
theorem Recorded.of_append (recorded : Recorded S s₀ cond (before ++ after) c) :
    ∃ c', Recorded S s₀ cond before c' := by
  obtain ⟨c', earlier, -⟩ := recorded.resume
  exact ⟨c', earlier⟩

/-- Each operation was run where the ones before it had led, and met the condition. -/
theorem Recorded.step (recorded : Recorded S s₀ cond (before ++ e :: after) c) :
    e.before = ending S.machine s₀ before ∧ cond before e := by
  rw [List.append_cons] at recorded
  obtain ⟨c', recorded⟩ := recorded.of_append
  generalize hlog : before ++ [e] = log at recorded
  induction recorded with
  | idle => simp at hlog
  | start r _ ih => exact ih hlog
  | run n r op next i sofar thread ready ok _ =>
    obtain ⟨rfl, last⟩ := List.append_inj' hlog rfl
    obtain rfl := (List.cons.inj last).1
    exact ⟨sofar.state, ok⟩

/-- Each operation was ready when it was run. -/
theorem Recorded.ready (recorded : Recorded S s₀ cond (before ++ e :: after) c) :
    S.machine.ready e.op e.input e.before = true := by
  rw [List.append_cons] at recorded
  obtain ⟨c', recorded⟩ := recorded.of_append
  generalize hlog : before ++ [e] = log at recorded
  induction recorded with
  | idle => simp at hlog
  | start r _ ih => exact ih hlog
  | run n r op next i sofar thread ready ok _ =>
    obtain ⟨rfl, last⟩ := List.append_inj' hlog rfl
    obtain rfl := (List.cons.inj last).1
    exact ready

/-- What is kept from operation to operation holds of every record. -/
theorem Recorded.induct {P : List (Entry I ι σ ρ) → Prop} (recorded : Recorded S s₀ cond log c)
    (start : P [])
    (step : ∀ log e c, Recorded S s₀ cond (log ++ [e]) c →
      e.before = ending S.machine s₀ log → cond log e → P log → P (log ++ [e])) : P log := by
  induction recorded with
  | idle => exact start
  | start r _ ih => exact ih
  | run n r op next i sofar thread ready ok ih =>
    exact step _ _ _ (.run n r op next i sofar thread ready ok) sofar.state ok ih

/-- What is kept from operation to operation holds of every record from a point of it on. -/
theorem Recorded.since {P : List (Entry I ι σ ρ) → Prop}
    (recorded : Recorded S s₀ cond (before ++ after) c) (start : P [])
    (step : ∀ mid e rest, after = mid ++ e :: rest →
      e.before = ending S.machine s₀ (before ++ mid) → cond (before ++ mid) e → P mid →
        P (mid ++ [e])) : P after := by
  suffices main : ∀ mid rest, after = mid ++ rest → P mid from
    main after [] (List.append_nil after).symm
  intro mid
  induction mid using List.reverseRecOn with
  | nil => exact fun _ _ => start
  | append_singleton mid e ih =>
    intro rest h
    rw [List.append_assoc, List.singleton_append] at h
    rw [h, ← List.append_assoc] at recorded
    obtain ⟨from_, ok⟩ := recorded.step
    exact step mid e rest h from_ ok (ih (e :: rest) h)

/-- What no operation from a point on changes is still what it was there. -/
theorem Recorded.kept {β : Type} (f : σ → β) (recorded : Recorded S s₀ cond (before ++ after) c)
    (same : ∀ e ∈ after, f (e.after S.machine) = f e.before) :
    f (ending S.machine s₀ (before ++ after)) = f (ending S.machine s₀ before) := by
  refine recorded.since (P := fun mid => f (ending S.machine s₀ (before ++ mid)) =
    f (ending S.machine s₀ before)) ?_ ?_
  · rw [List.append_nil]
  · rintro mid e rest rfl from_ _ sofar
    rw [← List.append_assoc, ending_snoc, same e (by simp), from_, sofar]

/-- Whoever did something was there. -/
theorem Recorded.thread (recorded : Recorded S s₀ cond log c) (done : e ∈ log) :
    ∃ th, c.threads[e.thread]? = some th ∧ th.req = e.req := by
  induction recorded with
  | idle => simp at done
  | start r _ ih =>
    obtain ⟨th, found, same⟩ := ih done
    have there := (List.getElem?_eq_some_iff.mp found).1
    exact ⟨th, by rwa [Pool.start, List.getElem?_append_left there], same⟩
  | @run log c n r op next i sofar running ready ok ih =>
    have there := (List.getElem?_eq_some_iff.mp running).1
    rcases List.mem_append.mp done with earlier | now
    · obtain ⟨th, found, same⟩ := ih earlier
      by_cases self : n = e.thread
      · subst self
        rw [running] at found
        obtain rfl := Option.some.inj found
        exact ⟨_, List.getElem?_set_self there, same⟩
      · exact ⟨th, by rwa [List.getElem?_set_ne self], same⟩
    · obtain rfl := List.mem_singleton.mp now
      exact ⟨_, List.getElem?_set_self there, rfl⟩

/-- Every request is on a path of its program. -/
theorem Recorded.path (recorded : Recorded S s₀ cond log c) {th : Thread I ρ α}
    (thread : c.threads[n]? = some th) :
    (S.serve n th.req).Path (own S.machine log n) th.prog := by
  induction recorded generalizing n th with
  | idle => simp [Pool.idle] at thread
  | @start log c r sofar ih =>
    rw [Pool.start, List.getElem?_append] at thread
    split at thread
    · exact ih thread
    · rename_i new
      rw [List.getElem?_singleton] at thread
      split at thread
      · obtain rfl := Option.some.inj thread
        have first : n = c.threads.length := by omega
        have nothing : own S.machine log n = [] := by
          refine List.map_eq_nil_iff.mpr (List.filter_eq_nil_iff.mpr fun e done => ?_)
          obtain ⟨th, found, -⟩ := sofar.thread done
          have there := (List.getElem?_eq_some_iff.mp found).1
          simp only [beq_iff_eq]
          omega
        rw [nothing, first]
        exact .refl _
      · cases thread
  | @run log c m r op next i sofar running ready ok ih =>
    by_cases self : m = n
    · subst self
      have there := (List.getElem?_eq_some_iff.mp running).1
      rw [List.getElem?_set_self there] at thread
      obtain rfl := Option.some.inj thread
      rw [own_snoc, if_pos rfl]
      exact (ih running).snoc _
    · rw [List.getElem?_set_ne self] at thread
      rw [own_snoc, if_neg self]
      exact ih thread

/-- What the program of a request says of each of its operations. -/
theorem Recorded.asks (recorded : Recorded S s₀ cond (before ++ e :: after) c)
    {D : List (Event I) → I.Op → Prop} {post : List (Event I) → α → Prop}
    (asks : (S.serve e.thread e.req).Asks D post []) : D (own S.machine before e.thread) e.op := by
  rw [List.append_cons] at recorded
  obtain ⟨c', recorded⟩ := recorded.of_append
  obtain ⟨th, found, same⟩ := recorded.thread (e := e) (by simp)
  have path := recorded.path found
  rw [same, own_snoc_self] at path
  exact asks.at_ path

/-- What the program of a request says of the operation that is next. -/
theorem Recorded.waits (recorded : Recorded S s₀ cond log c) {r : ρ} {op : I.Op}
    {next : I.Reply op → Prog I α} (thread : c.threads[n]? = some ⟨r, .act op next⟩)
    {D : List (Event I) → I.Op → Prop} {post : List (Event I) → α → Prop}
    (asks : (S.serve n r).Asks D post []) : D (own S.machine log n) op := by
  have path := recorded.path thread
  exact (asks.path path).1

/-- What the program of a request says of its end. -/
theorem Recorded.finished (recorded : Recorded S s₀ cond log c) {r : ρ} {a : α}
    (finished : c.Finished n r a) {D : List (Event I) → I.Op → Prop}
    {post : List (Event I) → α → Prop} (asks : (S.serve n r).Asks D post []) :
    post (own S.machine log n) a := by
  have path := recorded.path finished
  exact asks.path path

/-- A request stays what it is. -/
theorem Recorded.same_req (recorded : Recorded S s₀ cond log c) {e e' : Entry I ι σ ρ}
    (done : e ∈ log) (done' : e' ∈ log) (same : e.thread = e'.thread) : e.req = e'.req := by
  obtain ⟨th, found, hreq⟩ := recorded.thread done
  obtain ⟨th', found', hreq'⟩ := recorded.thread done'
  rw [same, found'] at found
  obtain rfl := Option.some.inj found
  exact hreq.symm.trans hreq'

/-! ### Sections under a lock -/

section Locks

variable (acquires releases : Event I → Bool)

/-- Whether the lock was taken last, or given back. -/
def inside : List (Event I) → Bool → Bool
  | [], taken => taken
  | e :: h, taken => inside h (if acquires e then true else if releases e then false else taken)

variable {acquires releases}

theorem inside_snoc (h : List (Event I)) (e : Event I) (taken : Bool) :
    inside acquires releases (h ++ [e]) taken =
      if acquires e then true else if releases e then false else inside acquires releases h taken := by
  induction h generalizing taken with
  | nil => rfl
  | cons first h ih => exact ih _

/-- A lock is taken when it is free only, and only who holds it gives it back. -/
structure Locks (S : System I ι σ ρ α) (cond : List (Entry I ι σ ρ) → Entry I ι σ ρ → Prop)
    (holds : σ → Bool) (acquires releases : Event I → Bool) : Prop where
  acquire : ∀ e : Entry I ι σ ρ, acquires (e.event S.machine) = true →
    holds e.before = false ∧ holds (e.after S.machine) = true
  release : ∀ e : Entry I ι σ ρ, releases (e.event S.machine) = true → holds (e.after S.machine) = false
  other : ∀ log (e : Entry I ι σ ρ), cond log e → acquires (e.event S.machine) = false →
    releases (e.event S.machine) = false → holds (e.after S.machine) = holds e.before
  mine : ∀ n r, (S.serve n r).Asks
    (fun h op => ∀ reply, releases ⟨op, reply⟩ = true → inside acquires releases h false = true)
    (fun _ _ => True) []

/-- Whoever is inside holds the lock, and nobody else is. -/
theorem Recorded.exclusive {holds : σ → Bool} (locks : Locks S cond holds acquires releases)
    (recorded : Recorded S s₀ cond log c) (n : Nat)
    (within : inside acquires releases (own S.machine log n) false = true) :
    holds (ending S.machine s₀ log) = true ∧
      ∀ m, inside acquires releases (own S.machine log m) false = true → m = n := by
  refine recorded.induct (P := fun log => ∀ n, inside acquires releases (own S.machine log n) false = true →
    holds (ending S.machine s₀ log) = true ∧
      ∀ m, inside acquires releases (own S.machine log m) false = true → m = n) ?_ ?_ n within
  · intro n within
    cases within
  · intro log e c recorded from_ ok sofar n within
    rw [ending_snoc]
    have others : ∀ m, m ≠ e.thread → own S.machine (log ++ [e]) m = own S.machine log m :=
      fun m other => by rw [own_snoc, if_neg (Ne.symm other)]
    have self : inside acquires releases (own S.machine (log ++ [e]) e.thread) false =
        if acquires (e.event S.machine) then true else if releases (e.event S.machine) then false
          else inside acquires releases (own S.machine log e.thread) false := by
      rw [own_snoc_self, inside_snoc]
    cases took : acquires (e.event S.machine) with
    | true =>
      obtain ⟨free, held⟩ := locks.acquire e took
      have nobody : ∀ m, m ≠ e.thread →
          inside acquires releases (own S.machine (log ++ [e]) m) false = false := by
        intro m other
        rw [others m other]
        cases there : inside acquires releases (own S.machine log m) false with
        | false => rfl
        | true =>
          have taken := (sofar m there).1
          rw [← from_, free] at taken
          cases taken
      have me : ∀ m, inside acquires releases (own S.machine (log ++ [e]) m) false = true → m = e.thread := by
        intro m there
        by_contra other
        rw [nobody m other] at there
        cases there
      exact ⟨held, fun m there => (me m there).trans (me n within).symm⟩
    | false =>
      cases gave : releases (e.event S.machine) with
      | true =>
        have asked := recorded.asks (locks.mine e.thread e.req)
        have there := asked (e.reply S.machine) gave
        have nobody : inside acquires releases (own S.machine (log ++ [e]) e.thread) false = false := by
          rw [self, took, gave]
          rfl
        exfalso
        have other : n ≠ e.thread := by
          rintro rfl
          rw [nobody] at within
          cases within
        rw [others n other] at within
        exact other ((sofar e.thread there).2 n within)
      | false =>
        have same : ∀ m, inside acquires releases (own S.machine (log ++ [e]) m) false =
            inside acquires releases (own S.machine log m) false := by
          intro m
          by_cases mine : m = e.thread
          · rw [mine, self, took, gave]
            rfl
          · rw [others m mine]
        simp only [same] at within ⊢
        rw [locks.other log e ok took gave, from_]
        exact sofar n within

end Locks

/-! ### Scheduled runs -/

section Schedules

variable (S) (guard : List (Entry I ι σ ρ) → Entry I ι σ ρ → Bool)

/-- A run so far: what was done, and where it led. -/
abbrev Course (I : Interface) (ι σ ρ α : Type) : Type :=
  List (Entry I ι σ ρ) × Pool I σ ρ α

def record1 : Move ι ρ → Course I ι σ ρ α → Option (Course I ι σ ρ α)
  | .start r, (log, c) => some (log, c.start S r)
  | .run n i, (log, c) =>
    match c.threads[n]? with
    | some ⟨r, .act op next⟩ =>
      if S.machine.ready op i c.state && guard log ⟨n, r, op, i, c.state⟩ then
        let step := S.machine.exec op i c.state
        some (log ++ [⟨n, r, op, i, c.state⟩], ⟨step.2, c.threads.set n ⟨r, next step.1⟩⟩)
      else none
    | _ => none

def record : List (Move ι ρ) → Course I ι σ ρ α → Option (Course I ι σ ρ α)
  | [], course => some course
  | m :: ms, course => (record1 S guard m course).bind (record ms)

/-- Where a schedule leads under a guard; nowhere when some entry cannot be taken. -/
def courseUnder (s : σ) (ms : List (Move ι ρ)) : Course I ι σ ρ α :=
  (record S guard ms ([], Pool.idle s)).getD ([], Pool.idle s)

def course (s : σ) (ms : List (Move ι ρ)) : Course I ι σ ρ α := courseUnder S (fun _ _ => true) s ms

variable {S guard} {ms : List (Move ι ρ)} {before after : Course I ι σ ρ α}

theorem record1_recorded {m : Move ι ρ} (h : record1 S guard m before = some after)
    (sofar : Recorded S s₀ (fun log e => guard log e = true) before.1 before.2) :
    Recorded S s₀ (fun log e => guard log e = true) after.1 after.2 := by
  obtain ⟨log, c⟩ := before
  cases m with
  | start r =>
    obtain rfl := Option.some.inj h
    exact .start r sofar
  | run n i =>
    simp only [record1] at h
    split at h
    · rename_i r op next thread
      split at h
      · rename_i taken
        rw [Bool.and_eq_true] at taken
        obtain rfl := Option.some.inj h
        exact .run n r op next i sofar thread taken.1 taken.2
      · cases h
    · cases h

theorem record_recorded (h : record S guard ms before = some after)
    (sofar : Recorded S s₀ (fun log e => guard log e = true) before.1 before.2) :
    Recorded S s₀ (fun log e => guard log e = true) after.1 after.2 := by
  induction ms generalizing before with
  | nil =>
    obtain rfl := Option.some.inj h
    exact sofar
  | cons m ms ih =>
    simp only [record] at h
    obtain ⟨next, first, rest⟩ := Option.bind_eq_some_iff.mp h
    exact ih rest (record1_recorded first sofar)

/-- A schedule describes a run whose operations all meet the guard. -/
theorem courseUnder_recorded (S : System I ι σ ρ α)
    (guard : List (Entry I ι σ ρ) → Entry I ι σ ρ → Bool) (s : σ) (ms : List (Move ι ρ)) :
    Recorded S s (fun log e => guard log e = true) (courseUnder S guard s ms).1
      (courseUnder S guard s ms).2 := by
  rw [courseUnder]
  cases h : record S guard ms ([], Pool.idle s) with
  | none => exact .idle
  | some after => exact record_recorded h .idle

theorem course_recorded (S : System I ι σ ρ α) (s : σ) (ms : List (Move ι ρ)) :
    Recorded S s (fun _ _ => True) (course S s ms).1 (course S s ms).2 :=
  (courseUnder_recorded S _ s ms).mono fun _ _ _ => trivial

end Schedules

end Pool

end Interleave
