import Finverse.Auth.MfaSteps
import Finverse.Auth.SignIns
import Mathlib.Data.List.Perm.Subperm

/-! How many wrong codes a sign-in challenge takes, and how many sessions it gives. -/

namespace Finverse.Auth

open Interleave

/-! ### What a request does with its challenge -/

/-- The calls that look a challenge up, end the attempt at it or open a session. -/
def Call.guessing : Call → Bool
  | .findChallenge .. | .failChallenge .. | .consumeChallenge .. | .createSession .. => true
  | _ => false

/-- The calls that end an attempt. -/
def Call.closes : Call → Bool
  | .failChallenge .. | .consumeChallenge .. => true
  | _ => false

def Call.opensSession : Call → Bool
  | .createSession .. => true
  | _ => false

/-- What a request on a challenge may ask for: it ends one attempt that it began, and opens one
session after it used the challenge up. -/
structure GuessAsks (K : Config) (challengeToken : Nat) (h : List (Event ports)) (op : Call) : Prop
    where
  close : ∀ tokenHash at_, op = .failChallenge tokenHash at_ ∨ op = .consumeChallenge tokenHash at_ →
    tokenHash = K.prims.hashToken challengeToken ∧
      (∃ owner, ⟨.findChallenge tokenHash at_, some owner⟩ ∈ h) ∧ ∀ ev ∈ h, Call.closes ev.op = false
  session : op.opensSession = true →
    (∃ at_, ⟨.consumeChallenge (K.prims.hashToken challengeToken) at_, true⟩ ∈ h) ∧
      ∀ ev ∈ h, Call.opensSession ev.op = false

section Asks

variable {K : Config} {n challengeToken : Nat} {h : List (Event ports)}

theorem guessAsks_other {c : Call} (closes : c.closes = false) (opens : c.opensSession = false) :
    GuessAsks K challengeToken h c where
  close := by
    rintro tokenHash at_ (rfl | rfl) <;> cases closes
  session := by
    intro opens'
    rw [opens] at opens'
    cases opens'

theorem challengeFactor_quiet (found : Option User) (code : String) (now : Date) :
    Calls (fun c => c.guessing = false) (challengeFactor K n found code now) := by
  refine challengeFactor_plain ?_ ⟨fun _ _ => rfl, fun _ _ _ => rfl⟩ found code now
  intro c ordinary
  cases c <;> first | rfl | cases ordinary

theorem Call.closes_of_quiet {c : Call} (quiet : c.guessing = false) : c.closes = false := by
  cases c <;> first | rfl | cases quiet

theorem Call.opensSession_of_quiet {c : Call} (quiet : c.guessing = false) :
    c.opensSession = false := by
  cases c <;> first | rfl | cases quiet

theorem verifyMfaChallenge_guessAsks (code : String) (context : RequestContext) :
    Task.Asks (I := ports) (GuessAsks K challengeToken) (fun _ _ => True) (fun _ _ => True) []
      (verifyMfaChallenge K n challengeToken code context) := by
  have other : ∀ {h : List (Event ports)} {c : Call}, c.closes = false → c.opensSession = false →
      GuessAsks K challengeToken h c := guessAsks_other
  unfold verifyMfaChallenge
  refine call_bind_asks.mpr ⟨other rfl rfl, fun now => ?_⟩
  refine call_bind_asks.mpr ⟨other rfl rfl, fun owner => ?_⟩
  cases owner with
  | none => trivial
  | some owner =>
    refine call_bind_asks.mpr ⟨other rfl rfl, fun found => ?_⟩
    refine Task.Asks.all_bind (challengeFactor_quiet found code now)
      (fun _ _ quiet => other (Call.closes_of_quiet quiet) (Call.opensSession_of_quiet quiet))
      (fun _ _ _ => trivial) ?_
    rintro h accepted ⟨more, rfl, quiet⟩
    generalize hbegun : [] ++ [(⟨.now, now⟩ : Event ports)] ++
      [⟨.findChallenge (K.prims.hashToken challengeToken) now, some owner⟩] ++
        [⟨.findUserById owner, found⟩] ++ more = begun
    have looked : ⟨.findChallenge (K.prims.hashToken challengeToken) now, some owner⟩ ∈ begun := by
      rw [← hbegun]
      simp
    have open_ : ∀ ev ∈ begun, Call.closes ev.op = false := by
      rw [← hbegun]
      simp only [List.nil_append, List.cons_append, List.forall_mem_cons]
      exact ⟨rfl, rfl, rfl, fun ev there => Call.closes_of_quiet (quiet ev there)⟩
    have none_ : ∀ ev ∈ begun, Call.opensSession ev.op = false := by
      rw [← hbegun]
      simp only [List.nil_append, List.cons_append, List.forall_mem_cons]
      exact ⟨rfl, rfl, rfl, fun ev there => Call.opensSession_of_quiet (quiet ev there)⟩
    have close : ∀ {c : Call}, c.opensSession = false →
        (∀ tokenHash at_, c = .failChallenge tokenHash at_ ∨ c = .consumeChallenge tokenHash at_ →
          tokenHash = K.prims.hashToken challengeToken ∧ at_ = now) →
        GuessAsks K challengeToken begun c := by
      intro c opens same
      refine ⟨fun tokenHash at_ closes => ?_, fun opens' => by rw [opens] at opens'; cases opens'⟩
      obtain ⟨rfl, rfl⟩ := same tokenHash at_ closes
      exact ⟨rfl, ⟨owner, looked⟩, open_⟩
    have failed : Task.Asks (I := ports) (GuessAsks K challengeToken) (fun _ _ => True)
        (fun _ _ => True) begun (do
          let remaining ← call (.failChallenge (K.prims.hashToken challengeToken) now)
          record .mfaVerified false (some (found.elim owner User.id)) (found.map User.email) context
            (some "invalid second factor")
          throw (if remaining = some 0 then
            ⟨.unauthorized, "Too many incorrect codes. Sign in again.", [], none⟩
            else factorIncorrect) : Service AuthResult) := by
      refine call_bind_asks.mpr ⟨close rfl (by rintro _ _ (same | same) <;> cases same; exact ⟨rfl, rfl⟩),
        fun remaining => ?_⟩
      exact call_bind_asks.mpr ⟨other rfl rfl, fun _ => trivial⟩
    rcases found with _ | user
    · exact failed
    cases accepted with
    | false => exact failed
    | true =>
      refine call_bind_asks.mpr ⟨close rfl (by rintro _ _ (same | same) <;> cases same; exact ⟨rfl, rfl⟩),
        fun consumed => ?_⟩
      cases consumed with
      | false => trivial
      | true =>
        refine call_bind_asks.mpr ⟨other rfl rfl, fun _ => call_bind_asks.mpr ⟨other rfl rfl, fun _ => ?_⟩⟩
        refine call_bind_asks.mpr ⟨⟨?_, fun _ => ⟨⟨now, by simp⟩, ?_⟩⟩, fun _ => trivial⟩
        · rintro tokenHash at_ (same | same) <;> cases same
        · intro ev there
          simp only [List.mem_append, List.mem_singleton] at there
          rcases there with ((earlier | rfl) | rfl) | rfl
          · exact none_ ev earlier
          · rfl
          · rfl
          · rfl

end Asks

/-! ### Counting attempts -/

/-- The challenge is looked up and found. -/
def finds (tokenHash : Nat) (e : Deed) : Bool :=
  match e.op with
  | .findChallenge h at_ => h == tokenHash && (e.before.mfa.findChallenge h at_).isSome
  | _ => false

/-- A wrong code is counted against the challenge. -/
def fails (tokenHash : Nat) (e : Deed) : Bool :=
  match e.op with
  | .failChallenge h _ => h == tokenHash
  | _ => false

/-- A right code is to use the challenge up. -/
def tries (tokenHash : Nat) (e : Deed) : Bool :=
  match e.op with
  | .consumeChallenge h _ => h == tokenHash
  | _ => false

/-- The challenge is used up. -/
def usesUp (tokenHash : Nat) (e : Deed) : Bool :=
  match e.op with
  | .consumeChallenge h at_ => h == tokenHash && (e.before.mfa.consumeChallenge h at_).isSome
  | _ => false

/-- A request on the challenge opens a session. -/
def opensThrough (K : Config) (tokenHash : Nat) (e : Deed) : Bool :=
  match e.req with
  | .verifyMfaChallenge challengeToken _ _ =>
    K.prims.hashToken challengeToken == tokenHash && Call.opensSession e.op
  | _ => false

/-- How many requests have found the challenge and not ended their attempt at it. -/
def inFlight (tokenHash : Nat) (log : List Deed) : Nat :=
  log.countP (finds tokenHash) - (log.countP (fails tokenHash) + log.countP (tries tokenHash))

/-- The challenge is found only while the failures counted so far and the attempts under way leave
room for one more. -/
def LeavesRoom (tokenHash : Nat) (log : List Deed) (e : Deed) : Prop :=
  finds tokenHash e = true → ∀ row, e.before.mfa.challenges.get? tokenHash = some row →
    row.failedAttempts + inFlight tokenHash log < 5

section Events

variable {K : Config} {tokenHash : Nat} {e : Deed} {at_ : Date} {w : World}

theorem finds_iff : finds tokenHash e = true ↔
    ∃ at_, e.op = .findChallenge tokenHash at_ ∧ ∃ row, e.before.mfa.live tokenHash at_ = some row := by
  cases h : (e.op : Call) with
  | findChallenge other at_ =>
    simp only [finds, h, Bool.and_eq_true, beq_iff_eq, MfaStore.findChallenge, Option.isSome_map,
      Option.isSome_iff_exists]
    constructor
    · rintro ⟨rfl, live⟩
      exact ⟨at_, rfl, live⟩
    · rintro ⟨at', same, live⟩
      obtain ⟨rfl, rfl⟩ := Call.findChallenge.inj same
      exact ⟨rfl, live⟩
  | _ => simp [finds, h]

theorem usesUp_iff : usesUp tokenHash e = true ↔
    ∃ at_, e.op = .consumeChallenge tokenHash at_ ∧
      ∃ row, e.before.mfa.live tokenHash at_ = some row := by
  cases h : (e.op : Call) with
  | consumeChallenge other at_ =>
    simp only [usesUp, h, Bool.and_eq_true, beq_iff_eq, MfaStore.consumeChallenge, Option.isSome_map,
      Option.isSome_iff_exists]
    constructor
    · rintro ⟨rfl, live⟩
      exact ⟨at_, rfl, live⟩
    · rintro ⟨at', same, live⟩
      obtain ⟨rfl, rfl⟩ := Call.consumeChallenge.inj same
      exact ⟨rfl, live⟩
  | _ => simp [usesUp, h]

theorem fails_iff : fails tokenHash e = true ↔ ∃ at_, e.op = .failChallenge tokenHash at_ := by
  cases h : (e.op : Call) with
  | failChallenge other at_ =>
    simp only [fails, h, beq_iff_eq]
    constructor
    · rintro rfl
      exact ⟨at_, rfl⟩
    · rintro ⟨at', same⟩
      exact (Call.failChallenge.inj same).1
  | _ => simp [fails, h]

theorem tries_iff : tries tokenHash e = true ↔ ∃ at_, e.op = .consumeChallenge tokenHash at_ := by
  cases h : (e.op : Call) with
  | consumeChallenge other at_ =>
    simp only [tries, h, beq_iff_eq]
    constructor
    · rintro rfl
      exact ⟨at_, rfl⟩
    · rintro ⟨at', same⟩
      exact (Call.consumeChallenge.inj same).1
  | _ => simp [tries, h]

theorem finds_of_event {owner : Nat}
    (h : e.event (machine K) = ⟨.findChallenge tokenHash at_, some owner⟩) :
    finds tokenHash e = true ∧ e.op = .findChallenge tokenHash at_ := by
  obtain ⟨op, reply⟩ := Entry.of_event h
  have found : e.before.mfa.findChallenge tokenHash at_ = some owner := reply
  obtain ⟨row, live, -⟩ := MfaStore.findChallenge_eq_some.mp found
  exact ⟨finds_iff.mpr ⟨at_, op, row, live⟩, op⟩

theorem usesUp_of_event
    (h : e.event (machine K) = ⟨.consumeChallenge tokenHash at_, true⟩) :
    usesUp tokenHash e = true := by
  have mfaStep := deed_mfaStep K e
  rw [h] at mfaStep
  obtain ⟨row, live, -⟩ := MfaStore.consumeChallenge_eq_some.mp mfaStep.of_consumed
  exact usesUp_iff.mpr ⟨at_, congrArg Event.op h, row, live⟩

end Events

/-! ### The challenge along a run -/

/-- What the counts say of the challenge, and how far they go. -/
structure GuessInv (K : Config) (tokenHash : Nat) (log : List Deed) (w : World) : Prop where
  bound : log.countP (finds tokenHash) ≤ 5 + log.countP (tries tokenHash)
  once : log.countP (usesUp tokenHash) ≤ 1
  -- what is stored or was found has been drawn
  drawn : (∃ row, w.mfa.challenges.get? tokenHash = some row) ∨
    (∃ e ∈ log, finds tokenHash e = true) → ∃ d < w.supply, tokenHash = K.prims.hashToken d
  -- a challenge that was found has not expired for those who found it
  unexpired : ∀ e ∈ log, finds tokenHash e = true → ∀ at_, e.op = .findChallenge tokenHash at_ →
    ∀ row, w.mfa.challenges.get? tokenHash = some row → at_ < row.expiresAt
  counted : ∀ row, w.mfa.challenges.get? tokenHash = some row → row.usedAt = none →
    row.failedAttempts = log.countP (fails tokenHash)
  used : 0 < log.countP (usesUp tokenHash) →
    ∀ row, w.mfa.challenges.get? tokenHash = some row → row.usedAt.isSome = true
  found : (∃ e ∈ log, fails tokenHash e = true ∨ usesUp tokenHash e = true) →
    ∃ e ∈ log, finds tokenHash e = true

/-- An attempt is ended by a request that found the challenge at the same time. -/
def EndsOwn (tokenHash : Nat) (log : List Deed) (e : Deed) : Prop :=
  ∀ at_, (e.op = .failChallenge tokenHash at_ ∨ e.op = .consumeChallenge tokenHash at_) →
    ∃ e' ∈ log, finds tokenHash e' = true ∧ e'.op = .findChallenge tokenHash at_

section Inv

variable {K : Config} {tokenHash : Nat} {log : List Deed} {e : Deed} {w : World}

theorem GuessInv.start : GuessInv K tokenHash [] .empty where
  bound := Nat.zero_le _
  once := Nat.zero_le _
  drawn := by
    rintro (⟨row, there⟩ | ⟨e, there, -⟩)
    · cases there
    · cases there
  unexpired := fun _ there => by cases there
  counted := by
    intro row there
    cases there
  used := fun some_ => by cases some_
  found := by
    rintro ⟨e, there, -⟩
    cases there

theorem finds_snoc (more : ∃ e' ∈ log, finds tokenHash e' = true) :
    ∃ e' ∈ log ++ [e], finds tokenHash e' = true := by
  obtain ⟨e', there, finds⟩ := more
  exact ⟨e', List.mem_append_left _ there, finds⟩

/-- A step that finds, fails and uses up nothing, and stores no new row. -/
theorem GuessInv.quiet (inv : GuessInv K tokenHash log e.before)
    (kept : ∀ row, w.mfa.challenges.get? tokenHash = some row →
      e.before.mfa.challenges.get? tokenHash = some row)
    (grown : e.before.supply ≤ w.supply) (noFind : finds tokenHash e = false)
    (noFail : fails tokenHash e = false) (noUse : usesUp tokenHash e = false) :
    GuessInv K tokenHash (log ++ [e]) w where
  bound := by
    have bound := inv.bound
    simp only [List.countP_append, List.countP_singleton, noFind]
    simp only [Bool.false_eq_true, if_false]
    omega
  once := by simpa [List.countP_append, noUse] using inv.once
  drawn := by
    intro known
    obtain ⟨d, drawn, same⟩ := inv.drawn (by
      rcases known with ⟨row, there⟩ | ⟨e', there, finds'⟩
      · exact .inl ⟨row, kept row there⟩
      · rcases List.mem_append.mp there with earlier | now
        · exact .inr ⟨e', earlier, finds'⟩
        · obtain rfl := List.mem_singleton.mp now
          rw [noFind] at finds'
          cases finds')
    exact ⟨d, drawn.trans_le grown, same⟩
  unexpired := by
    intro e' there finds' at_ op row stored
    rcases List.mem_append.mp there with earlier | now
    · exact inv.unexpired e' earlier finds' at_ op row (kept row stored)
    · obtain rfl := List.mem_singleton.mp now
      rw [noFind] at finds'
      cases finds'
  counted := by
    intro row there unused
    simpa [List.countP_append, noFail] using inv.counted row (kept row there) unused
  used := by
    intro some_ row there
    exact inv.used (by simpa [List.countP_append, noUse] using some_) row (kept row there)
  found := by
    rintro ⟨e', there, ends⟩
    refine finds_snoc (inv.found ?_)
    rcases List.mem_append.mp there with earlier | now
    · exact ⟨e', earlier, ends⟩
    · obtain rfl := List.mem_singleton.mp now
      simp [noFail, noUse] at ends

/-- What is not one of these calls finds, fails and uses up nothing. -/
theorem not_finds (other : ∀ at_, e.op ≠ .findChallenge tokenHash at_) :
    finds tokenHash e = false := by
  rw [Bool.eq_false_iff]
  intro h
  obtain ⟨at_, op, -⟩ := finds_iff.mp h
  exact other at_ op

theorem not_fails (other : ∀ at_, e.op ≠ .failChallenge tokenHash at_) :
    fails tokenHash e = false := by
  rw [Bool.eq_false_iff]
  intro h
  obtain ⟨at_, op⟩ := fails_iff.mp h
  exact other at_ op

theorem not_usesUp (other : ∀ at_, e.op ≠ .consumeChallenge tokenHash at_) :
    usesUp tokenHash e = false := by
  rw [Bool.eq_false_iff]
  intro h
  obtain ⟨at_, op, -⟩ := usesUp_iff.mp h
  exact other at_ op

/-- A new challenge. Nothing was done with its hash before. -/
theorem GuessInv.created (collisionFree : Function.Injective K.prims.hashToken)
    (inv : GuessInv K tokenHash log e.before) {userId : Nat} {expiresAt : Date}
    (op : e.op = .createChallenge userId expiresAt)
    (stored : w.mfa = e.before.mfa.createChallenge (K.prims.hashToken e.before.supply) userId expiresAt)
    (drawn : w.supply = e.before.supply + 1) : GuessInv K tokenHash (log ++ [e]) w := by
  have noFind : finds tokenHash e = false := not_finds fun _ same => nomatch op.symm.trans same
  have noFail : fails tokenHash e = false := not_fails fun _ same => nomatch op.symm.trans same
  have noUse : usesUp tokenHash e = false := not_usesUp fun _ same => nomatch op.symm.trans same
  by_cases same : K.prims.hashToken e.before.supply = tokenHash
  · have new : ¬((∃ row, e.before.mfa.challenges.get? tokenHash = some row) ∨
        ∃ e ∈ log, finds tokenHash e = true) := by
      intro known
      obtain ⟨d, earlier, hash⟩ := inv.drawn known
      have draws := collisionFree (same.trans hash)
      omega
    have nothing : ∀ e' ∈ log, fails tokenHash e' = false ∧ usesUp tokenHash e' = false := by
      intro e' there
      by_contra some_
      refine new (.inr (inv.found ⟨e', there, ?_⟩))
      cases hf : fails tokenHash e' <;> simp_all
    have zero : log.countP (finds tokenHash) = 0 :=
      List.countP_eq_zero.mpr fun e' there finds' => new (.inr ⟨e', there, finds'⟩)
    have noFails : log.countP (fails tokenHash) = 0 :=
      List.countP_eq_zero.mpr fun e' there => by simp [(nothing e' there).1]
    have noUses : log.countP (usesUp tokenHash) = 0 :=
      List.countP_eq_zero.mpr fun e' there => by simp [(nothing e' there).2]
    have listed : ∀ e' ∈ log ++ [e], finds tokenHash e' = false ∧ fails tokenHash e' = false ∧
        usesUp tokenHash e' = false := by
      intro e' there
      rcases List.mem_append.mp there with earlier | now
      · refine ⟨?_, nothing e' earlier⟩
        rw [Bool.eq_false_iff]
        exact fun finds' => new (.inr ⟨e', earlier, finds'⟩)
      · obtain rfl := List.mem_singleton.mp now
        exact ⟨noFind, noFail, noUse⟩
    have row_eq : ∀ row, w.mfa.challenges.get? tokenHash = some row →
        row = ⟨userId, expiresAt, none, 0⟩ := by
      intro row there
      rw [stored, MfaStore.createChallenge, same, OrdMap.get?_set_self] at there
      exact (Option.some.inj there).symm
    refine ⟨?_, ?_, ?_, ?_, ?_, ?_, ?_⟩
    · simp [List.countP_append, zero, noFind]
    · simp [List.countP_append, noUses, noUse]
    · exact fun _ => ⟨e.before.supply, by omega, same.symm⟩
    · intro e' there finds'
      rw [(listed e' there).1] at finds'
      cases finds'
    · intro row there _
      rw [row_eq row there]
      simp [List.countP_append, noFails, noFail]
    · intro some_
      simp [List.countP_append, noUses, noUse] at some_
    · rintro ⟨e', there, ends⟩
      simp [(listed e' there).2] at ends
  · refine inv.quiet (fun row there => ?_) (by omega) noFind noFail noUse
    rwa [stored, MfaStore.createChallenge, OrdMap.get?_set_ne _ _ same] at there

/-- The challenge is found, with room for one more attempt. -/
theorem GuessInv.looked (inv : GuessInv K tokenHash log e.before) (finds' : finds tokenHash e = true)
    (room : LeavesRoom tokenHash log e) : GuessInv K tokenHash (log ++ [e]) e.before := by
  obtain ⟨at_, op, row, live⟩ := finds_iff.mp finds'
  obtain ⟨there, unused, early⟩ := MfaStore.live_eq_some.mp live
  have noFail : fails tokenHash e = false := not_fails fun _ same => nomatch op.symm.trans same
  have noUse : usesUp tokenHash e = false := not_usesUp fun _ same => nomatch op.symm.trans same
  have here : ∃ e' ∈ log ++ [e], finds tokenHash e' = true := ⟨e, by simp, finds'⟩
  refine ⟨?_, ?_, ?_, ?_, ?_, ?_, fun _ => here⟩
  · have fits := room finds' row there
    rw [inv.counted row there unused, inFlight] at fits
    simp only [List.countP_append, List.countP_singleton, finds', if_true]
    omega
  · simpa [List.countP_append, noUse] using inv.once
  · exact fun _ => inv.drawn (.inl ⟨row, there⟩)
  · intro e' listed found at' op' row' there'
    rcases List.mem_append.mp listed with earlier | now
    · exact inv.unexpired e' earlier found at' op' row' there'
    · obtain rfl := List.mem_singleton.mp now
      rw [op] at op'
      obtain ⟨-, rfl⟩ := Call.findChallenge.inj op'
      rw [there] at there'
      obtain rfl := Option.some.inj there'
      exact early
  · intro row' there' unused'
    simpa [List.countP_append, noFail] using inv.counted row' there' unused'
  · intro some_
    exact inv.used (by simpa [List.countP_append, noUse] using some_)

/-- A failure is counted as long as the challenge is unused. -/
theorem GuessInv.failed (inv : GuessInv K tokenHash log e.before) {at_ : Date}
    (op : e.op = .failChallenge tokenHash at_) (ends : EndsOwn tokenHash log e)
    (drawn : e.before.supply ≤ w.supply)
    (stored : ∀ row', w.mfa.challenges.get? tokenHash = some row' →
      ∃ row, e.before.mfa.challenges.get? tokenHash = some row ∧ row'.expiresAt = row.expiresAt ∧
        (row.usedAt.isSome = true → row'.usedAt.isSome = true) ∧
        (at_ < row.expiresAt → row'.usedAt = none →
          row.usedAt = none ∧ row'.failedAttempts = row.failedAttempts + 1)) :
    GuessInv K tokenHash (log ++ [e]) w := by
  have fails' : fails tokenHash e = true := fails_iff.mpr ⟨at_, op⟩
  have noFind : finds tokenHash e = false := not_finds fun _ same => nomatch op.symm.trans same
  have noUse : usesUp tokenHash e = false := not_usesUp fun _ same => nomatch op.symm.trans same
  obtain ⟨own_, listed, found, same⟩ := ends at_ (.inl op)
  have here : ∃ e' ∈ log, finds tokenHash e' = true := ⟨own_, listed, found⟩
  refine ⟨?_, ?_, ?_, ?_, ?_, ?_, fun _ => finds_snoc here⟩
  · have bound := inv.bound
    simp only [List.countP_append, List.countP_singleton, noFind, Bool.false_eq_true, if_false]
    omega
  · simpa [List.countP_append, noUse] using inv.once
  · intro _
    obtain ⟨d, early, hash⟩ := inv.drawn (.inr here)
    exact ⟨d, early.trans_le drawn, hash⟩
  · intro e' there finds' at' op' row' there'
    obtain ⟨row, before_, expires, -⟩ := stored row' there'
    rw [expires]
    rcases List.mem_append.mp there with earlier | now
    · exact inv.unexpired e' earlier finds' at' op' row before_
    · obtain rfl := List.mem_singleton.mp now
      rw [noFind] at finds'
      cases finds'
  · intro row' there' unused
    obtain ⟨row, before_, -, -, counts⟩ := stored row' there'
    obtain ⟨unused, failures⟩ :=
      counts (inv.unexpired own_ listed found at_ same row before_) unused
    simp [List.countP_append, fails', failures, inv.counted row before_ unused]
  · intro some_ row' there'
    obtain ⟨row, before_, -, used, -⟩ := stored row' there'
    exact used (inv.used (by simpa [List.countP_append, noUse] using some_) row before_)

/-- The challenge is used up, and was not before. -/
theorem GuessInv.consumed (inv : GuessInv K tokenHash log e.before) {at_ : Date} {row : ChallengeRow}
    (op : e.op = .consumeChallenge tokenHash at_) (live : e.before.mfa.live tokenHash at_ = some row)
    (ends : EndsOwn tokenHash log e) (drawn : e.before.supply ≤ w.supply)
    (stored : w.mfa.challenges.get? tokenHash = some { row with usedAt := some at_ }) :
    GuessInv K tokenHash (log ++ [e]) w := by
  obtain ⟨there, unused, -⟩ := MfaStore.live_eq_some.mp live
  have noFind : finds tokenHash e = false := not_finds fun _ same => nomatch op.symm.trans same
  have uses : usesUp tokenHash e = true := usesUp_iff.mpr ⟨at_, op, row, live⟩
  obtain ⟨own_, listed, found, -⟩ := ends at_ (.inr op)
  have here : ∃ e' ∈ log, finds tokenHash e' = true := ⟨own_, listed, found⟩
  have first : log.countP (usesUp tokenHash) = 0 := by
    by_contra some_
    have used := inv.used (Nat.pos_of_ne_zero some_) row there
    rw [unused] at used
    cases used
  refine ⟨?_, ?_, ?_, ?_, ?_, ?_, fun _ => finds_snoc here⟩
  · have bound := inv.bound
    simp only [List.countP_append, List.countP_singleton, noFind, Bool.false_eq_true, if_false]
    omega
  · simp [List.countP_append, first, uses]
  · intro _
    obtain ⟨d, early, hash⟩ := inv.drawn (.inr here)
    exact ⟨d, early.trans_le drawn, hash⟩
  · intro e' there' finds' at' op' row' stored'
    rw [stored] at stored'
    obtain rfl := Option.some.inj stored'
    rcases List.mem_append.mp there' with earlier | now
    · exact inv.unexpired e' earlier finds' at' op' row there
    · obtain rfl := List.mem_singleton.mp now
      rw [noFind] at finds'
      cases finds'
  · intro row' stored' unused'
    rw [stored] at stored'
    obtain rfl := Option.some.inj stored'
    cases unused'
  · intro _ row' stored'
    rw [stored] at stored'
    obtain rfl := Option.some.inj stored'
    rfl

theorem GuessInv.next_consumed (inv : GuessInv K tokenHash log e.before) {h : Nat} {at_ : Date}
    (op : e.op = .consumeChallenge h at_) (ends : EndsOwn tokenHash log e)
    (drawn : e.before.supply ≤ w.supply)
    (stored : (e.before.mfa.consumeChallenge h at_ = none ∧ w.mfa = e.before.mfa) ∨
      e.before.mfa.consumeChallenge h at_ = some w.mfa) : GuessInv K tokenHash (log ++ [e]) w := by
  have noFind : finds tokenHash e = false := not_finds fun _ same => nomatch op.symm.trans same
  have noFail : fails tokenHash e = false := not_fails fun _ same => nomatch op.symm.trans same
  rcases stored with ⟨dead, same⟩ | stored
  · have noUse : usesUp tokenHash e = false := by
      rw [Bool.eq_false_iff]
      intro uses
      obtain ⟨at', op', row, live⟩ := usesUp_iff.mp uses
      rw [op] at op'
      obtain ⟨rfl, rfl⟩ := Call.consumeChallenge.inj op'
      simp [MfaStore.consumeChallenge, live] at dead
    exact inv.quiet (fun row there => by rwa [same] at there) drawn noFind noFail noUse
  · obtain ⟨row, live, mfa⟩ := MfaStore.consumeChallenge_eq_some.mp stored
    by_cases mine : h = tokenHash
    · subst mine
      exact inv.consumed op live ends drawn (by rw [mfa]; exact OrdMap.get?_set_self _ _ _)
    · refine inv.quiet (fun row there => ?_) drawn noFind noFail (not_usesUp fun at' op' => ?_)
      · rwa [mfa, OrdMap.get?_set_ne _ _ mine] at there
      · exact mine (Call.consumeChallenge.inj (op.symm.trans op')).1

theorem GuessInv.next_failed (inv : GuessInv K tokenHash log e.before) {h : Nat} {at_ : Date}
    (op : e.op = .failChallenge h at_) (ends : EndsOwn tokenHash log e)
    (drawn : e.before.supply ≤ w.supply)
    (stored : (e.before.mfa.failChallenge h at_ = none ∧ w.mfa = e.before.mfa) ∨
      ∃ remaining, e.before.mfa.failChallenge h at_ = some (remaining, w.mfa)) :
    GuessInv K tokenHash (log ++ [e]) w := by
  have noFind : finds tokenHash e = false := not_finds fun _ same => nomatch op.symm.trans same
  have noUse : usesUp tokenHash e = false := not_usesUp fun _ same => nomatch op.symm.trans same
  rcases stored with ⟨dead, same⟩ | ⟨remaining, stored⟩
  · by_cases mine : h = tokenHash
    · subst mine
      refine inv.failed op ends drawn fun row' there => ?_
      rw [same] at there
      refine ⟨row', there, rfl, id, fun early unused => ?_⟩
      have live := MfaStore.live_eq_some.mpr ⟨there, unused, early⟩
      simp [MfaStore.failChallenge, live] at dead
    · refine inv.quiet (fun row there => by rwa [same] at there) drawn noFind
        (not_fails fun at' op' => ?_) noUse
      exact mine (Call.failChallenge.inj (op.symm.trans op')).1
  · obtain ⟨row, live, -, mfa⟩ := MfaStore.failChallenge_eq_some.mp stored
    obtain ⟨there, unused, -⟩ := MfaStore.live_eq_some.mp live
    by_cases mine : h = tokenHash
    · subst mine
      refine inv.failed op ends drawn fun row' there' => ?_
      rw [mfa, OrdMap.get?_set_self] at there'
      obtain rfl := Option.some.inj there'
      refine ⟨row, there, rfl, fun used => ?_, fun _ _ => ⟨unused, rfl⟩⟩
      rw [unused] at used
      cases used
    · refine inv.quiet (fun row there => ?_) drawn noFind (not_fails fun at' op' => ?_) noUse
      · rwa [mfa, OrdMap.get?_set_ne _ _ mine] at there
      · exact mine (Call.failChallenge.inj (op.symm.trans op')).1

/-- The other calls store no challenge. -/
theorem perform_challenges (K : Config) (call : Call) (env : Env) (w : World)
    (created : ∀ userId expiresAt, call ≠ .createChallenge userId expiresAt)
    (consumed : ∀ h at_, call ≠ .consumeChallenge h at_)
    (failed : ∀ h at_, call ≠ .failChallenge h at_) {row : ChallengeRow}
    (there : (perform K call env w).2.mfa.challenges.get? tokenHash = some row) :
    w.mfa.challenges.get? tokenHash = some row := by
  have step := perform_mfaStep K call env w
  revert there step
  generalize (perform K call env w).2.mfa = st'
  generalize (perform K call env w).2.supply = supply'
  generalize hev : (⟨call, (perform K call env w).1⟩ : Event ports) = ev
  have op : call = ev.op := congrArg Event.op hev
  intro there step
  cases step with
  | same | pending => exact there
  | enabled _ stored =>
    obtain ⟨_, -, -, rfl⟩ := MfaStore.enable_eq_some.mp stored
    exact there
  | disabled u =>
    rw [MfaStore.disable, OrdMap.get?_filter, Option.filter_eq_some_iff] at there
    exact there.1
  | step stored =>
    obtain ⟨_, -, -, -, rfl⟩ := MfaStore.acceptTotpStep_eq_some.mp stored
    exact there
  | code stored =>
    obtain ⟨_, _, -, -, rfl⟩ := MfaStore.consumeRecoveryCode_eq_some.mp stored
    exact there
  | challenged userId expiresAt => exact absurd op (created userId expiresAt)
  | consumed => exact absurd op (consumed _ _)
  | failed => exact absurd op (failed _ _)

theorem GuessInv.next (collisionFree : Function.Injective K.prims.hashToken)
    (inv : GuessInv K tokenHash log e.before) (ends : EndsOwn tokenHash log e)
    (room : LeavesRoom tokenHash log e) :
    GuessInv K tokenHash (log ++ [e]) (e.after (machine K)) := by
  have grown : e.before.supply ≤ (e.after (machine K)).supply := (deed_mfaStep K e).drawn
  obtain ⟨thread, req, op, input, before⟩ := e
  cases op with
  | createChallenge userId expiresAt => exact inv.created collisionFree rfl rfl rfl
  | findChallenge h at_ =>
    cases finds' : finds tokenHash ⟨thread, req, .findChallenge h at_, input, before⟩ with
    | true => exact inv.looked finds' room
    | false => exact inv.quiet (fun _ there => there) grown finds' rfl rfl
  | consumeChallenge h at_ =>
    refine inv.next_consumed rfl ends grown ?_
    cases stored : before.mfa.consumeChallenge h at_ with
    | none => exact .inl ⟨rfl, by simp [Entry.after, machine, perform, stored]⟩
    | some mfa => exact .inr (by simp [Entry.after, machine, perform, stored])
  | failChallenge h at_ =>
    refine inv.next_failed rfl ends grown ?_
    cases stored : before.mfa.failChallenge h at_ with
    | none => exact .inl ⟨rfl, by simp [Entry.after, machine, perform, stored]⟩
    | some counted => exact .inr ⟨counted.1, by simp [Entry.after, machine, perform, stored]⟩
  | _ =>
    refine inv.quiet (fun row there => perform_challenges K _ input before ?_ ?_ ?_ there) grown rfl rfl rfl <;>
      intros <;> intro other <;> cases other

end Inv

/-! ### What the requests of a run did -/

section Requests

variable {K : Config} {tokenHash : Nat} {w₀ : World} {cond : List Deed → Deed → Prop}
  {before after log : List Deed} {e : Deed} {c : Pool ports World Request (Except AuthError Response)}

/-- The request may end attempts: it is one on a challenge. -/
def Request.answers : Request → Bool
  | .verifyMfaChallenge .. => true
  | _ => false

theorem handle_guessAsks (n challengeToken : Nat) (code : String) (context : RequestContext) :
    Task.Asks (I := ports) (GuessAsks K challengeToken) (fun _ _ => True) (fun _ _ => True) []
      (handle K n (.verifyMfaChallenge challengeToken code context)) :=
  Task.asks_map.mpr (verifyMfaChallenge_guessAsks code context)

/-- The attempt that a deed ends was begun by the same request, and not ended before. -/
theorem attempt_ended (recorded : Pool.Recorded (system K) w₀ cond (before ++ e :: after) c) {at_ : Date}
    (closes : e.op = .failChallenge tokenHash at_ ∨ e.op = .consumeChallenge tokenHash at_) :
    (∃ e' ∈ before, e'.thread = e.thread ∧ finds tokenHash e' = true ∧
      e'.op = .findChallenge tokenHash at_) ∧
    ∀ e' ∈ before, e'.thread = e.thread → Call.closes e'.op = false := by
  have made := deed_made recorded (by rcases closes with op | op <;> rw [op] <;> rfl)
  obtain ⟨thread, req, op, input, state⟩ := e
  cases req with
  | verifyMfaChallenge challengeToken code context =>
    have asked := recorded.asks (handle_guessAsks thread challengeToken code context)
    obtain ⟨-, ⟨owner, looked⟩, open_⟩ := asked.close tokenHash at_ closes
    obtain ⟨e', listed, same, event⟩ := mem_own.mp looked
    obtain ⟨found, op'⟩ := finds_of_event event
    refine ⟨⟨e', listed, same, found, op'⟩, fun e' listed same => ?_⟩
    exact open_ (e'.event (machine K)) (mem_own.mpr ⟨e', listed, same, rfl⟩)
  | _ => rcases closes with rfl | rfl <;> cases made

/-- A session is opened through the challenge by a request that used it up, and only once. -/
theorem session_opened (recorded : Pool.Recorded (system K) w₀ cond (before ++ e :: after) c)
    (opens : opensThrough K tokenHash e = true) :
    (∃ e' ∈ before, e'.thread = e.thread ∧ usesUp tokenHash e' = true) ∧
    ∀ e' ∈ before, e'.thread = e.thread → Call.opensSession e'.op = false := by
  obtain ⟨thread, req, op, input, state⟩ := e
  cases req with
  | verifyMfaChallenge challengeToken code context =>
    have asked := recorded.asks (handle_guessAsks thread challengeToken code context)
    simp only [opensThrough, Bool.and_eq_true, beq_iff_eq] at opens
    obtain ⟨rfl, opens⟩ := opens
    obtain ⟨⟨at_, used⟩, none_⟩ := asked.session opens
    obtain ⟨e', listed, same, event⟩ := mem_own.mp used
    refine ⟨⟨e', listed, same, usesUp_of_event event⟩, fun e' listed same => ?_⟩
    exact none_ (e'.event (machine K)) (mem_own.mpr ⟨e', listed, same, rfl⟩)
  | _ => cases opens

theorem guesses_inv (collisionFree : Function.Injective K.prims.hashToken)
    (recorded : Pool.Recorded (system K) .empty (LeavesRoom tokenHash) log c) :
    GuessInv K tokenHash log (ending (machine K) .empty log) := by
  refine recorded.induct
    (P := fun log => GuessInv K tokenHash log (ending (machine K) .empty log)) .start ?_
  intro log e _ sofar from_ room inv
  have from_ : e.before = ending (machine K) .empty log := from_
  rw [← from_] at inv
  rw [ending_snoc]
  refine inv.next collisionFree (fun at_ closes => ?_) room
  have sofar : Pool.Recorded (system K) .empty (LeavesRoom tokenHash) (log ++ e :: []) _ := sofar
  obtain ⟨⟨e', listed, -, found, op⟩, -⟩ := attempt_ended sofar closes
  exact ⟨e', listed, found, op⟩

/-- Request `n` is about to count a wrong code against the challenge. -/
def aboutToFail (tokenHash : Nat) (c : Pool ports World Request (Except AuthError Response))
    (n : Nat) : Bool :=
  match c.threads[n]? with
  | some ⟨_, .act (.failChallenge h _) _⟩ => h == tokenHash
  | _ => false

/-- Request `n` presented a wrong code for the challenge. -/
def guessedWrong (tokenHash : Nat) (log : List Deed)
    (c : Pool ports World Request (Except AuthError Response)) (n : Nat) : Bool :=
  log.any (fun e => e.thread == n && fails tokenHash e) || aboutToFail tokenHash c n

/-- How many wrong codes were presented for the challenge. -/
def wrongGuesses (tokenHash : Nat) (log : List Deed)
    (c : Pool ports World Request (Except AuthError Response)) : Nat :=
  (List.range c.threads.length).countP (guessedWrong tokenHash log c)

/-- What a request that is about to count a wrong code has done. -/
theorem about_to_fail (recorded : Pool.Recorded (system K) w₀ cond log c) {n : Nat}
    (about : aboutToFail tokenHash c n = true) :
    (∃ e' ∈ log, e'.thread = n ∧ finds tokenHash e' = true) ∧
      ∀ e' ∈ log, e'.thread = n → Call.closes e'.op = false := by
  unfold aboutToFail at about
  split at about
  · rename_i r h at_ next thread
    obtain rfl := beq_iff_eq.mp about
    have makes : r.makes (.failChallenge h at_) = true :=
      recorded.waits thread (Prog.Asks.of_all (handle_makes K n r) fun _ _ => id) rfl
    cases r with
    | verifyMfaChallenge challengeToken code context =>
      have asked := recorded.waits thread (handle_guessAsks n challengeToken code context)
      obtain ⟨-, ⟨owner, looked⟩, open_⟩ := asked.close h at_ (.inl rfl)
      obtain ⟨e', listed, same, event⟩ := mem_own.mp looked
      refine ⟨⟨e', listed, same, (finds_of_event event).1⟩, fun e' listed same => ?_⟩
      exact open_ (e'.event (machine K)) (mem_own.mpr ⟨e', listed, same, rfl⟩)
    | _ => cases makes
  · cases about

theorem ends_op (ends : fails tokenHash e = true ∨ tries tokenHash e = true) :
    ∃ at_, e.op = .failChallenge tokenHash at_ ∨ e.op = .consumeChallenge tokenHash at_ := by
  rcases ends with h | h
  · obtain ⟨at_, op⟩ := fails_iff.mp h
    exact ⟨at_, .inl op⟩
  · obtain ⟨at_, op⟩ := tries_iff.mp h
    exact ⟨at_, .inr op⟩

theorem closes_of_ends (ends : fails tokenHash e = true ∨ tries tokenHash e = true) :
    Call.closes e.op = true := by
  obtain ⟨at_, op | op⟩ := ends_op ends <;> rw [op] <;> rfl

/-- An attempt that ended was begun by the same request. -/
theorem ended_found (recorded : Pool.Recorded (system K) w₀ cond log c) (done : e ∈ log)
    (ends : fails tokenHash e = true ∨ tries tokenHash e = true) :
    ∃ e' ∈ log, e'.thread = e.thread ∧ finds tokenHash e' = true := by
  obtain ⟨before, after, rfl⟩ := List.append_of_mem done
  obtain ⟨at_, closes⟩ := ends_op ends
  obtain ⟨⟨e', listed, same, found, -⟩, -⟩ := attempt_ended recorded closes
  exact ⟨e', List.mem_append_left _ listed, same, found⟩

/-- No request ends two attempts. -/
theorem closers_nodup (recorded : Pool.Recorded (system K) w₀ cond log c) :
    ((log.filter fun e => fails tokenHash e || tries tokenHash e).map Entry.thread).Nodup := by
  refine threads_nodup ?_
  rintro before e after rfl ends e' listed ends' same
  rw [Bool.or_eq_true] at ends ends'
  obtain ⟨at_, closes⟩ := ends_op ends
  have open_ := (attempt_ended recorded closes).2 e' listed same
  rw [closes_of_ends ends'] at open_
  cases open_

/-- The requests that presented a wrong code and those with a right one all found the challenge,
each for itself. -/
theorem wrong_add_tried (recorded : Pool.Recorded (system K) w₀ cond log c) :
    wrongGuesses tokenHash log c + log.countP (tries tokenHash) ≤ log.countP (finds tokenHash) := by
  have closers : ((log.filter fun e => fails tokenHash e || tries tokenHash e).map
      Entry.thread).Nodup := closers_nodup recorded
  let wrong := (List.range c.threads.length).filter (guessedWrong tokenHash log c)
  let right := (log.filter (tries tokenHash)).map Entry.thread
  let found := (log.filter (finds tokenHash)).map Entry.thread
  have wrongs : wrong.Nodup := List.nodup_range.filter _
  have rights : right.Nodup := by
    refine closers.sublist (List.Sublist.map _ ?_)
    have both : (log.filter fun e => fails tokenHash e || tries tokenHash e).filter (tries tokenHash) =
        log.filter (tries tokenHash) := by
      rw [List.filter_filter]
      refine List.filter_congr fun e _ => ?_
      cases tries tokenHash e <;> simp
    rw [← both]
    exact List.filter_sublist
  have apart : ∀ n ∈ wrong, ∀ m ∈ right, n ≠ m := by
    rintro n there _ here rfl
    obtain ⟨e, listed, rfl⟩ := List.mem_map.mp here
    obtain ⟨listed, tried⟩ := List.mem_filter.mp listed
    have guessed := (List.mem_filter.mp there).2
    rw [guessedWrong, Bool.or_eq_true, List.any_eq_true] at guessed
    rcases guessed with ⟨e', listed', failed⟩ | about
    · rw [Bool.and_eq_true, beq_iff_eq] at failed
      have same : e' = e := List.inj_on_of_nodup_map closers
        (List.mem_filter.mpr ⟨listed', by simp [failed.2]⟩)
        (List.mem_filter.mpr ⟨listed, by simp [tried]⟩) failed.1
      subst same
      obtain ⟨at_, op⟩ := fails_iff.mp failed.2
      obtain ⟨at', op'⟩ := tries_iff.mp tried
      exact nomatch op.symm.trans op'
    · have open_ := (about_to_fail recorded about).2 e listed rfl
      rw [closes_of_ends (.inr tried)] at open_
      cases open_
  have sub : wrong ++ right ⊆ found := by
    intro n there
    rcases List.mem_append.mp there with h | h
    · have guessed := (List.mem_filter.mp h).2
      rw [guessedWrong, Bool.or_eq_true, List.any_eq_true] at guessed
      rcases guessed with ⟨e', listed', failed⟩ | about
      · rw [Bool.and_eq_true, beq_iff_eq] at failed
        obtain ⟨e, listed, same, finds'⟩ := ended_found recorded listed' (.inl failed.2)
        exact List.mem_map.mpr ⟨e, List.mem_filter.mpr ⟨listed, finds'⟩, same.trans failed.1⟩
      · obtain ⟨⟨e, listed, same, finds'⟩, -⟩ := about_to_fail recorded about
        exact List.mem_map.mpr ⟨e, List.mem_filter.mpr ⟨listed, finds'⟩, same⟩
    · obtain ⟨e', listed', rfl⟩ := List.mem_map.mp h
      obtain ⟨listed', tried⟩ := List.mem_filter.mp listed'
      obtain ⟨e, listed, same, finds'⟩ := ended_found recorded listed' (.inr tried)
      exact List.mem_map.mpr ⟨e, List.mem_filter.mpr ⟨listed, finds'⟩, same⟩
  have lengths := (List.subperm_of_subset (List.nodup_append.mpr ⟨wrongs, rights, apart⟩) sub).length_le
  simpa [wrong, right, found, wrongGuesses, List.countP_eq_length_filter] using lengths

/-- As many sessions as there are requests that used the challenge up, at most. -/
theorem sessions_le (recorded : Pool.Recorded (system K) w₀ cond log c) :
    log.countP (opensThrough K tokenHash) ≤ log.countP (usesUp tokenHash) := by
  have opened : ((log.filter (opensThrough K tokenHash)).map Entry.thread).Nodup := by
    refine threads_nodup ?_
    rintro before e after rfl opens e' listed opens' same
    have none_ := (session_opened recorded opens).2 e' listed same
    unfold opensThrough at opens'
    split at opens'
    · rw [Bool.and_eq_true, none_] at opens'
      cases opens'.2
    · cases opens'
  have sub : (log.filter (opensThrough K tokenHash)).map Entry.thread ⊆
      (log.filter (usesUp tokenHash)).map Entry.thread := by
    intro n there
    obtain ⟨e, listed, rfl⟩ := List.mem_map.mp there
    obtain ⟨listed, opens⟩ := List.mem_filter.mp listed
    obtain ⟨before, after, rfl⟩ := List.append_of_mem listed
    obtain ⟨⟨e', listed', same, uses⟩, -⟩ := session_opened recorded opens
    exact List.mem_map.mpr ⟨e', List.mem_filter.mpr ⟨List.mem_append_left _ listed', uses⟩, same⟩
  have lengths := (List.subperm_of_subset opened sub).length_le
  simpa [List.countP_eq_length_filter] using lengths

/-- At most five wrong codes are presented for the challenge, and it gives one session at most. -/
structure GuessesBounded (K : Config) (tokenHash : Nat) (log : List Deed)
    (c : Pool ports World Request (Except AuthError Response)) : Prop where
  wrong : wrongGuesses tokenHash log c ≤ 5
  session : log.countP (opensThrough K tokenHash) ≤ 1

theorem guesses_bounded (collisionFree : Function.Injective K.prims.hashToken)
    (recorded : Pool.Recorded (system K) .empty (LeavesRoom tokenHash) log c) :
    GuessesBounded K tokenHash log c := by
  have inv := guesses_inv collisionFree recorded
  have attempts : wrongGuesses tokenHash log c + log.countP (tries tokenHash) ≤
      log.countP (finds tokenHash) := wrong_add_tried recorded
  have bound := inv.bound
  exact ⟨by omega, (sessions_le recorded).trans inv.once⟩

end Requests

/-! ### Guesses at once -/

/-- Sam's password gets a challenge. -/
def challenged : List (Pool.Move Env Request) :=
  protectedAccount ++ (.start (.login "sam@example.com" "correct horse battery" phone) ::
    List.replicate 6 (.run 3 noon))

/-- Each of these requests takes the next steps. -/
def each (requests : List Nat) (steps : Nat) : List (Pool.Move Env Request) :=
  (List.replicate steps (requests.map (.run · noon))).flatten

/-- Six guesses at once: all find the challenge before any of them has failed. -/
def sixGuesses : Pool.Course ports Env World Request (Except AuthError Response) :=
  Pool.course (system sampleConfig) .empty
    (challenged ++ List.replicate 6 (.start (.verifyMfaChallenge 24 "000000" phone)) ++
      each [4, 5, 6, 7, 8, 9] 5)

theorem six_guesses :
    ∃ log c, Pool.Recorded (system sampleConfig) .empty (fun _ _ => True) log c ∧
      ¬GuessesBounded sampleConfig 24 log c := by
  refine ⟨sixGuesses.1, sixGuesses.2, Pool.course_recorded _ _ _, fun bounded => ?_⟩
  have six : wrongGuesses 24 sixGuesses.1 sixGuesses.2 = 6 := by decide +kernel
  have wrong := bounded.wrong
  omega

/-- Whether the challenge is found with room for one more attempt, if it is. -/
def LeavesRoom.check (tokenHash : Nat) (log : List Deed) (e : Deed) : Bool :=
  !finds tokenHash e || (e.before.mfa.challenges.get? tokenHash).all fun row =>
    decide (row.failedAttempts + inFlight tokenHash log < 5)

theorem LeavesRoom.of_check {tokenHash : Nat} {log : List Deed} {e : Deed}
    (h : LeavesRoom.check tokenHash log e = true) : LeavesRoom tokenHash log e := by
  intro found row there
  simpa [LeavesRoom.check, found, there] using h

/-- A wrong guess after another, and then the right code. -/
def guessedInTurn : Pool.Course ports Env World Request (Except AuthError Response) :=
  Pool.courseUnder (system sampleConfig) (LeavesRoom.check 24) .empty
    (challenged ++
      (.start (.verifyMfaChallenge 24 "000000" phone) :: List.replicate 6 (.run 4 noon)) ++
      (.start (.verifyMfaChallenge 24 "000000" phone) :: List.replicate 6 (.run 5 noon)) ++
      (.start (.verifyMfaChallenge 24 "123456" phone) :: List.replicate 9 (.run 6 noon)))

theorem guesses_bounded_in_turn :
    wrongGuesses 24 guessedInTurn.1 guessedInTurn.2 = 2 ∧
      guessedInTurn.1.countP (opensThrough sampleConfig 24) = 1 ∧
      GuessesBounded sampleConfig 24 guessedInTurn.1 guessedInTurn.2 :=
  ⟨by decide +kernel, by decide +kernel, guesses_bounded Function.injective_id
    ((Pool.courseUnder_recorded _ _ _ _).mono fun _ _ => LeavesRoom.of_check)⟩

end Finverse.Auth
