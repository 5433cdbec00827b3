import Finverse.Auth.ChallengeGuesses
import Finverse.Auth.RefreshRotation

/-! What a password reset leaves of the sign-ins and sessions before it. -/

namespace Finverse.Auth

open Interleave

/-! ### Sign-ins by password -/

/-- The password and the status of the account let the request sign its user in. -/
def Request.accepts (K : Config) (user : User) : Request → Bool
  | .login _ password _ =>
    K.prims.verify user.passwordHash password && decide (user.status = .active)
  | .cancelAccountDeletion _ password _ =>
    K.prims.verify user.passwordHash password && decide (user.status = .pendingDeletion)
  | _ => false

/-- The request reads the user's password hash and its password matches. -/
def checks (K : Config) (userId : Nat) (e : Deed) : Bool :=
  match e.op with
  | .findUserByEmail email =>
    (e.before.users.findByEmail email).any fun user => user.id == userId && e.req.accepts K user
  | _ => false

/-- The deed of a request that checked its password in this part of the run. -/
def signsInOn (K : Config) (userId : Nat) (checked : List Deed) (e : Deed) : Bool :=
  checked.any fun e' => e'.thread == e.thread && checks K userId e'

/-- The calls that let somebody in, or nearly. -/
def Call.admits : Call → Bool
  | .createSession .. | .createChallenge .. => true
  | _ => false

/-- What a sign-in has come to: a session, a challenge, or nothing. -/
def settles : Event ports → Bool
  | ⟨.createSession .., _⟩ | ⟨.createChallenge .., _⟩ => true
  | ⟨.cancelDeletion .., cancelled⟩ => !cancelled
  | _ => false

/-- The challenges that the sign-ins on these checks were given. -/
def issued (K : Config) (userId : Nat) (checked log : List Deed) : List Nat :=
  (log.filter fun e => (match e.op with | .createChallenge .. => true | _ => false) &&
    signsInOn K userId checked e).map fun e => K.prims.hashToken e.before.supply

/-- A session is opened on the strength of one of these checks. -/
def opensOn (K : Config) (userId : Nat) (checked log : List Deed) (e : Deed) : Bool :=
  Call.opensSession e.op && (signsInOn K userId checked e ||
    (issued K userId checked log).any fun tokenHash => opensThrough K tokenHash e)

/-! ### Resets -/

def Request.resets : Request → Bool
  | .confirmPasswordReset .. => true
  | _ => false

/-- The reset stores the new hash. -/
def writes (userId : Nat) (e : Deed) : Bool :=
  match e.op with
  | .updatePasswordHash id _ => e.req.resets && id == userId
  | _ => false

/-- The reset revokes the sessions. -/
def revokes (userId : Nat) (e : Deed) : Bool :=
  match e.op with
  | .revokeAllForUser id _ _ => e.req.resets && id == userId
  | _ => false

/-- The last thing the reset does. -/
def completes (userId : Nat) (e : Deed) : Bool :=
  match e.op with
  | .record .passwordResetCompleted true (some id) _ _ _ => e.req.resets && id == userId
  | _ => false

/-- What was done before request `n` stored the new hash. -/
def beforeWrite (userId n : Nat) (log : List Deed) : List Deed :=
  log.takeWhile fun e => !(e.thread == n && writes userId e)

/-- After a reset of the user's password no session is opened on a check against a hash before it,
and the sessions there were are revoked. -/
structure ResetCutsOff (K : Config) (userId : Nat) (log : List Deed) : Prop where
  unissued : ∀ sofar done after, log = sofar ++ done :: after → completes userId done = true →
    ∀ e ∈ after, opensOn K userId (beforeWrite userId done.thread sofar) log e = false
  inactive : ∀ sofar done after, log = sofar ++ done :: after → completes userId done = true →
    ∀ k s, (done.after (machine K)).sessions.get? k = some s → s.userId = userId →
      ∃ s', (ending (machine K) .empty log).sessions.get? k = some s' ∧ s'.revokedAt.isSome = true

/-! ### When a reset does -/

/-- The sign-ins on these checks are over: each has its session or challenge, the challenges are used
up or have expired, and who used one up has opened a session. -/
structure Over (K : Config) (userId : Nat) (checked log : List Deed) (w : World) (now : Date) : Prop
    where
  settled : ∀ e ∈ checked, checks K userId e = true →
    ∃ e' ∈ log, e'.thread = e.thread ∧ settles (e'.event (machine K)) = true
  closed : ∀ tokenHash ∈ issued K userId checked log, ∀ row,
    w.mfa.challenges.get? tokenHash = some row → row.usedAt = none → row.expiresAt ≤ now
  opened : ∀ tokenHash ∈ issued K userId checked log, ∀ e ∈ log, usesUp tokenHash e = true →
    ∃ e' ∈ log, e'.thread = e.thread ∧ Call.opensSession e'.op = true

/-- The step opens a session of the user. -/
def opensFor (userId : Nat) (e : Deed) : Bool :=
  match e.op with
  | .createSession _ user _ => user.id == userId
  | _ => false

/-- Resets of the user's password revoke the sessions when the sign-ins before are over. Nobody uses
up a challenge of these at a time before the revocation, and nobody opens a session of the user
between the revocation and the end of the reset. -/
structure SignInsOver (K : Config) (userId : Nat) (log : List Deed) (e : Deed) : Prop where
  done : revokes userId e = true →
    Over K userId (beforeWrite userId e.thread log) log e.before e.input.now
  later : ∀ tokenHash at_, e.op = .consumeChallenge tokenHash at_ →
    ∀ sofar r rest, log = sofar ++ r :: rest → revokes userId r = true →
      tokenHash ∈ issued K userId (beforeWrite userId r.thread sofar) sofar → r.input.now ≤ at_
  apart : opensFor userId e = true → ∀ r ∈ log, revokes userId r = true →
    ∃ d ∈ log, d.thread = r.thread ∧ completes userId d = true

/-! ### What the requests ask for -/

/-- Nothing has come of the sign-in so far. -/
def Tentative (h : List (Event ports)) : Prop := ∀ ev ∈ h, settles ev = false

/-- A sign-in lets its user in once. -/
def SignInAsks (h : List (Event ports)) (op : Call) : Prop := op.admits = true → Tentative h

/-- The task goes on with a sign-in of which nothing has come. -/
structure SignsIn {α : Type} (m : Service α) : Prop where
  asks : ∀ h, Tentative h →
    Task.Asks (I := ports) SignInAsks (fun _ _ => True) (fun _ _ => True) h m

/-- The task leaves a sign-in as it is. -/
structure Waits {α : Type} (m : Service α) : Prop where
  asks : ∀ h, Tentative h →
    Task.Asks (I := ports) SignInAsks (fun h' _ => Tentative h') (fun _ _ => True) h m

section SignIns

variable {K : Config} {n : Nat} {α β : Type}

theorem Tentative.snoc {h : List (Event ports)} {ev : Event ports} (tentative : Tentative h)
    (open_ : settles ev = false) : Tentative (h ++ [ev]) := by
  intro ev' there
  rcases List.mem_append.mp there with earlier | now
  · exact tentative ev' earlier
  · obtain rfl := List.mem_singleton.mp now
    exact open_

theorem waits_call {c : Call} (open_ : ∀ r : c.Reply, settles ⟨c, r⟩ = false) : Waits (call c) where
  asks := by
    intro h tentative
    refine call_asks.mpr ⟨fun _ => tentative, fun r => tentative.snoc (open_ r)⟩

theorem Waits.bind {m : Service α} {f : α → Service β} (hm : Waits m) (hf : ∀ a, SignsIn (f a)) :
    SignsIn (m >>= f) where
  asks := by
    intro h tentative
    refine Task.asks_bind.mpr ((hm.asks h tentative).weaken (fun h' a tentative' => ?_) fun _ _ => id)
    exact (hf a).asks h' tentative'

/-- Nobody is let in any more. -/
theorem signsIn_of_all {m : Service α} (all : Calls (fun c => c.admits = false) m) : SignsIn m where
  asks := by
    intro h _
    have never := Task.Always.of_all (D := SignInAsks) all fun _ _ other admits => by
      rw [other] at admits
      cases admits
    exact never.asks h

theorem signsIn_throw (e : AuthError) : SignsIn (throw e : Service α) := ⟨fun _ _ => trivial⟩

/-- The sign-in comes to something. -/
theorem signsIn_admit {c : Call} {f : c.Reply → Service α}
    (rest : ∀ r, Calls (fun c => c.admits = false) (f r)) : SignsIn (call c >>= f) where
  asks := by
    intro h tentative
    have never : ∀ r, Task.Always (I := ports) SignInAsks (f r) := fun r =>
      Task.Always.of_all (rest r) fun _ _ other admits => by
        rw [other] at admits
        cases admits
    exact call_bind_asks.mpr ⟨fun _ => tentative, fun r => (never r).asks _⟩

theorem admits_plainly : Plainly fun c => c.admits = false := by
  intro c plain
  cases c <;> first | rfl | cases plain

theorem record_waits (kind : AuthEventKind) (succeeded : Bool) (userId : Option Nat)
    (emailAttempted : Option String) (context : RequestContext) (detail : Option String) :
    Waits (record kind succeeded userId emailAttempted context detail) :=
  waits_call fun _ => rfl

theorem record_throw_signsIn {kind : AuthEventKind} {succeeded : Bool} {userId : Option Nat}
    {emailAttempted : Option String} {context : RequestContext} {detail : Option String}
    {e : AuthError} :
    SignsIn (do record kind succeeded userId emailAttempted context detail; throw e : Service α) :=
  (record_waits ..).bind fun _ => signsIn_throw e

theorem issueSession_signsIn (user : User) (context : RequestContext) :
    SignsIn (issueSession n user context) :=
  signsIn_admit fun _ => Task.all_pure _

theorem passwordOk_waits (found : Option User) (password : String) :
    Waits (passwordOk K found password) where
  asks := by
    intro h tentative
    cases found with
    | none => exact call_bind_asks.mpr ⟨fun _ => tentative, fun _ => tentative.snoc rfl⟩
    | some user => exact tentative

theorem login_signsIn (email password : String) (context : RequestContext) :
    SignsIn (login K n email password context) := by
  unfold login
  refine (waits_call fun _ => rfl).bind fun now => ?_
  refine (waits_call fun _ => rfl).bind fun failures => ?_
  refine iteInduction (fun _ => record_throw_signsIn) fun _ => ?_
  refine (waits_call fun _ => rfl).bind fun found => ?_
  refine (passwordOk_waits found password).bind fun ok => ?_
  split
  · rename_i user
    refine iteInduction (fun _ => record_throw_signsIn) fun _ => ?_
    have after : SignsIn (do
        let mfa ← call (.getMfaForLogin n user.id)
        if (mfa.bind MfaRecord.enabledAt).isSome then do
          let challengeToken ← call (.createChallenge user.id (now + 5 * 60 * 1000))
          record .mfaChallenge true (some user.id) (some (normalizeEmail K.prims email)) context
            (some "password verified")
          pure (LoginResult.mfaRequired challengeToken (now + 5 * 60 * 1000))
        else do
          record .login true (some user.id) (some (normalizeEmail K.prims email)) context none
          let result ← issueSession n user context
          pure (LoginResult.signedIn result)) := by
      refine (waits_call fun _ => rfl).bind fun mfa => ?_
      refine iteInduction (fun _ => ?_) fun _ => ?_
      · refine signsIn_admit fun challengeToken => ?_
        exact Task.all_bind (record_plain admits_plainly ..) fun _ => Task.all_pure _
      · refine (record_waits ..).bind fun _ => ?_
        exact signsIn_admit fun _ => Task.all_pure _
    refine iteInduction (fun _ => ?_) fun _ => after
    refine (waits_call fun _ => rfl).bind fun upgraded => ?_
    exact (waits_call fun _ => rfl).bind fun _ => after
  · exact record_throw_signsIn

theorem cancelAccountDeletion_signsIn (email password : String) (context : RequestContext) :
    SignsIn (cancelAccountDeletion K n email password context) := by
  unfold cancelAccountDeletion
  refine (waits_call fun _ => rfl).bind fun found => ?_
  refine (passwordOk_waits found password).bind fun ok => ?_
  split
  · rename_i user _
    constructor
    intro h tentative
    refine call_bind_asks.mpr ⟨fun _ => tentative, fun cancelled => ?_⟩
    cases cancelled with
    | false => trivial
    | true =>
      have rest : SignsIn (do
          record .accountDeletionCancelled true (some user.id) (some (normalizeEmail K.prims email))
            context none
          issueSession n { user with status := .active } context) :=
        (record_waits ..).bind fun _ => issueSession_signsIn _ context
      exact rest.asks _ (tentative.snoc rfl)
  · exact record_throw_signsIn

end SignIns

end Finverse.Auth
