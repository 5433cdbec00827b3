import Finverse.Auth.Lockout

/-! How many wrong passwords an address takes within a window. -/

namespace Finverse.Auth

open Interleave

/-! ### Requests one at a time -/

/-- A request with nothing else in between, and what the environment decides during it. -/
structure Handled where
  request : Nat
  req : Request
  env : Env

/-- The address and the password that a request presents. -/
def Request.presents : Request → Option (String × String)
  | .login email password _ | .cancelAccountDeletion email password _ => some (email, password)
  | _ => none

def Call.looksUp : Call → Bool
  | .findUserByEmail _ => true
  | _ => false

section Handled

variable (K : Config) (address : String)

def Handled.run (a : Handled) (w : World) : Except AuthError Response × World :=
  Task.solo (performIn K a.env) (handle K a.request a.req) w

def Handled.does (a : Handled) (w : World) : List (Event ports) :=
  Task.trace (performIn K a.env) (handle K a.request a.req) w

/-- The password is wrong for the user who has the address. -/
def wrong (password : String) (w : World) : Bool :=
  (w.users.findByEmail address).any fun user => !K.prims.verify user.passwordHash password

/-- The request gets as far as checking a wrong password against the hash of the address. -/
def Handled.guessesWrong (a : Handled) (w : World) : Bool :=
  a.req.presents.any fun (email, password) =>
    normalizeEmail K.prims email == address && (a.does K w).any (fun ev => Call.looksUp ev.op) &&
      wrong K address password w

/-- When the wrong passwords of a sequence of requests were checked. -/
def wrongTimes : List Handled → World → List Date
  | [], _ => []
  | a :: rest, w =>
    (if a.guessesWrong K address w then [a.env.now] else []) ++ wrongTimes rest (a.run K w).2

/-- No window takes more wrong passwords than it takes to lock the address. -/
def GuessBound (requests : List Handled) (w : World) : Prop :=
  ∀ start, (wrongTimes K address requests w).countP
    (fun t => decide (start ≤ t ∧ t < start + FAILURE_WINDOW_MS)) ≤ MAX_FAILED_ATTEMPTS

/-- Whoever cancels an account's deletion presents the right password. -/
def CancelsRight : List Handled → World → Prop
  | [], _ => True
  | a :: rest, w =>
    (∀ email password context, a.req = .cancelAccountDeletion email password context →
      normalizeEmail K.prims email = address → wrong K address password w = false) ∧
        CancelsRight rest (a.run K w).2

end Handled

/-! ### Failures are not forgotten -/

section Failures

variable {K : Config} {address : String} {w : World}

theorem perform_events (call : Call) (env : Env) :
    ∃ more, (perform K call env w).2.events = w.events ++ more := by
  cases call with
  | record => exact ⟨_, rfl⟩
  | _ =>
    refine ⟨[], ?_⟩
    rw [List.append_nil]
    first
    | rfl
    | simp only [perform]
      split <;> rfl
    | simp only [perform, World.createRegistration, World.rotateSession]
      split <;> rfl

theorem solo_events {α : Type} (m : Service α) (env : Env) (w : World) :
    ∃ more, (Task.solo (performIn K env) m w).2.events = w.events ++ more := by
  refine Prog.solo_keeps (performIn K env) (R := fun w w' => ∃ more, w'.events = w.events ++ more)
    (fun w => ⟨[], (List.append_nil _).symm⟩) ?_ (fun op w => perform_events op env) m.run w
  rintro s t u ⟨more, grown⟩ ⟨more', grown'⟩
  exact ⟨more ++ more', by rw [grown', grown, List.append_assoc]⟩

/-- The failures since a time only get more. -/
theorem failures_run (a : Handled) (w : World) (start : Date) :
    (failuresOf w address).countP (start ≤ ·) ≤
      (failuresOf (a.run K w).2 address).countP (start ≤ ·) := by
  obtain ⟨more, grown⟩ := solo_events (handle K a.request a.req) a.env w
  rw [Handled.run, failuresOf, failuresOf, grown, List.filter_append, List.map_append,
    List.countP_append]
  exact Nat.le_add_right _ _

end Failures

/-! ### Wrong passwords -/

section Wrong

variable {K : Config} {address email password : String} {context : RequestContext} {w : World}
  {env : Env} {n : Nat}

/-- A login that checks a wrong password is not locked out, and fails on record. -/
theorem login_wrong (lookedUp : (Task.trace (performIn K env) (login K n email password context) w).any
      (fun ev => Call.looksUp ev.op) = true)
    (wrong_ : wrong K (normalizeEmail K.prims email) password w = true) :
    (lockoutAt w (normalizeEmail K.prims email) env.now).locked = false ∧
      failuresOf (Task.solo (performIn K env) (login K n email password context) w).2
        (normalizeEmail K.prims email) =
          failuresOf w (normalizeEmail K.prims email) ++ [env.now] := by
  have now : Task.solo (performIn K env) (call .now) w = (.ok env.now, w) := rfl
  have failures : Task.solo (performIn K env) (call (.recentFailures (normalizeEmail K.prims email)
      (env.now - FAILURE_WINDOW_MS) .login)) w = (.ok (recentFailures w.events
        (normalizeEmail K.prims email) (env.now - FAILURE_WINDOW_MS) .login), w) := rfl
  have found : Task.solo (performIn K env) (call (.findUserByEmail (normalizeEmail K.prims email))) w =
      (.ok (w.users.findByEmail (normalizeEmail K.prims email)), w) := rfl
  unfold login at lookedUp ⊢
  rw [Task.trace_bind, now] at lookedUp
  dsimp only at lookedUp
  rw [Task.trace_bind, failures] at lookedUp
  dsimp only at lookedUp
  rw [Task.solo_bind, now]
  dsimp only
  rw [Task.solo_bind, failures]
  dsimp only
  rw [lockoutAt]
  cases locked : (evaluateLockout (recentFailures w.events (normalizeEmail K.prims email)
      (env.now - FAILURE_WINDOW_MS) .login) env.now).locked with
  | true =>
    rw [if_pos locked] at lookedUp
    cases lookedUp
  | false =>
    refine ⟨rfl, ?_⟩
    rw [if_neg Bool.false_ne_true, Task.solo_bind, found]
    obtain ⟨user, there, fails⟩ := (Option.any_eq_true _ _).mp wrong_
    have fails : K.prims.verify user.passwordHash password = false := by simpa using fails
    have checked : Task.solo (performIn K env) (passwordOk K (some user) password) w =
        (.ok false, w) := by
      rw [passwordOk, fails]
      rfl
    dsimp only
    rw [there, Task.solo_bind, checked]
    change failuresOf { w.draw 1 with events := w.events ++ [_] } _ = _
    simp [failuresOf]

/-- A request that checks a wrong password is a login that fails on record, unless someone cancels a
deletion with a wrong password. -/
theorem guess_recorded {a : Handled} {requests : List Handled}
    (right : CancelsRight K address (a :: requests) w) (guesses : a.guessesWrong K address w = true) :
    (lockoutAt w address a.env.now).locked = false ∧
      failuresOf (a.run K w).2 address = failuresOf w address ++ [a.env.now] := by
  obtain ⟨n, req, env⟩ := a
  cases req with
  | login email password context =>
    simp only [Handled.guessesWrong, Request.presents, Option.any_some, Bool.and_eq_true,
      beq_iff_eq] at guesses
    obtain ⟨⟨rfl, lookedUp⟩, wrong_⟩ := guesses
    rw [Handled.does, handle, Task.trace_map] at lookedUp
    rw [Handled.run, handle, Task.solo_map]
    exact login_wrong lookedUp wrong_
  | cancelAccountDeletion email password context =>
    simp only [Handled.guessesWrong, Request.presents, Option.any_some, Bool.and_eq_true,
      beq_iff_eq] at guesses
    obtain ⟨⟨ours, -⟩, wrong_⟩ := guesses
    rw [right.1 email password context rfl ours] at wrong_
    cases wrong_
  | _ => cases guesses

/-- What a window has room for, next to the failures it knows of. -/
theorem guesses_room {requests : List Handled} (right : CancelsRight K address requests w)
    (start : Date) :
    (wrongTimes K address requests w).countP
        (fun t => decide (start ≤ t ∧ t < start + FAILURE_WINDOW_MS)) ≤
      MAX_FAILED_ATTEMPTS - (failuresOf w address).countP (start ≤ ·) := by
  induction requests generalizing w with
  | nil => exact Nat.zero_le _
  | cons a requests ih =>
    have rest := ih right.2
    rw [wrongTimes, List.countP_append]
    cases guesses : a.guessesWrong K address w with
    | false =>
      have more : (failuresOf w address).countP (start ≤ ·) ≤
          (failuresOf (a.run K w).2 address).countP (start ≤ ·) := failures_run a w start
      simp only [Bool.false_eq_true, if_false, List.countP_nil]
      omega
    | true =>
      obtain ⟨unlocked, recorded⟩ := guess_recorded right guesses
      rw [recorded, List.countP_append, List.countP_singleton] at rest
      rw [if_pos rfl, List.countP_singleton]
      by_cases inside : start ≤ a.env.now ∧ a.env.now < start + FAILURE_WINDOW_MS
      · -- An eighth failure would have locked the address.
        have few : (failuresOf w address).countP (start ≤ ·) < MAX_FAILED_ATTEMPTS := by
          by_contra enough
          rw [lockoutAt_eq, locked_of_enough (Nat.le_of_not_lt enough) inside.2] at unlocked
          cases unlocked
        rw [if_pos (by simpa using inside.1)] at rest
        rw [if_pos (by simpa using inside)]
        omega
      · rw [if_neg (by simpa using inside)]
        omega

/-- As long as nobody cancels the deletion of the account with a wrong password, no window takes more
than eight wrong passwords for an address, whatever the requests, one at a time. -/
theorem guess_bound {requests : List Handled} (right : CancelsRight K address requests w) :
    GuessBound K address requests w :=
  fun start => (guesses_room right start).trans (Nat.sub_le _ _)

end Wrong

/-! ### Guesses at one password -/

def signIn (password : String) : Handled :=
  ⟨0, .login "sam@example.com" password phone, noon⟩

/-- Of nine guesses, the last is not checked. -/
theorem guess_bound_sign_ins :
    (wrongTimes sampleConfig "sam@example.com" (List.replicate 9 (signIn "guess")) signedUp).length = 8 ∧
      GuessBound sampleConfig "sam@example.com" (List.replicate 9 (signIn "guess")) signedUp := by
  refine ⟨by decide +kernel, guess_bound ?_⟩
  have signIns (k : Nat) (w : World) :
      CancelsRight sampleConfig "sam@example.com" (List.replicate k (signIn "guess")) w := by
    induction k generalizing w with
    | zero => trivial
    | succ k ih => exact ⟨fun _ _ _ same => (nomatch same), ih _⟩
  exact signIns 9 signedUp

/-- Nobody counts the wrong passwords of those who cancel a deletion. -/
theorem guesses_unbounded : ¬GuessBound sampleConfig "sam@example.com" (List.replicate 9
    ⟨0, .cancelAccountDeletion "sam@example.com" "guess" phone, noon⟩) signedUp := by
  intro bound
  have nine : (wrongTimes sampleConfig "sam@example.com" (List.replicate 9
      ⟨0, .cancelAccountDeletion "sam@example.com" "guess" phone, noon⟩) signedUp).countP
        (fun t => decide ((1000 : Int) ≤ t ∧ t < 1000 + FAILURE_WINDOW_MS)) = 9 := by decide +kernel
  have few := bound 1000
  rw [nine] at few
  exact absurd few (by decide)

end Finverse.Auth
