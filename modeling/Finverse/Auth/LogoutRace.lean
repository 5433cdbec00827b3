import Finverse.Auth.RefreshRotation

/-! Sign-out against a refresh of the same session. -/

namespace Finverse.Auth

open Interleave

/-- A revocation of the session runs only while no refresh has rotated it. -/
def revokesUnrotated (sessionId : Nat) (call : Call) (_ : Env) (w : World) : Bool :=
  match call with
  | .revokeSession id _ _ =>
    id != sessionId || (w.sessions.get? id).all fun s => s.revokedReason != some .rotated
  | _ => true

abbrev logoutContract (K : Config) (sessionId : Nat) : Contract (machine K) :=
  families K True fun call env w => revokesUnrotated sessionId call env w = true

section Logout

variable {K : Config} {w : World} {sessionId n : Nat} {s : Session}

theorem revokesUnrotated_revoke {reason : RevokedReason} {at_ : Date} {env : Env}
    (h : revokesUnrotated sessionId (.revokeSession sessionId reason at_) env w = true)
    (hs : w.sessions.get? sessionId = some s) : s.revokedReason ≠ some .rotated := by
  simpa [revokesUnrotated, hs] using h

/-- Revoking a session that was not rotated ends its family: no successor was left. -/
theorem dead_of_revokeSession (collisionFree : Function.Injective K.prims.hashToken)
    (inv : FamilyInv K.prims w) (hs : w.sessions.get? sessionId = some s)
    (unrotated : s.revokedReason ≠ some .rotated) (reason : RevokedReason)
    (hreason : reason ≠ .rotated) (at_ : Date) (env : Env) :
    Dead (perform K (.revokeSession sessionId reason at_) env w).2 s.familyId := by
  have hcall : ¬(Call.revokeSession sessionId reason at_).IsRotate := id
  obtain ⟨inv', he⟩ := inv.perform collisionFree hcall env
  obtain ⟨s', hs', hc⟩ := he.sessions sessionId s hs
  rw [← hc.familyId]
  have get := SessionStore.get?_revoke inv.keyed sessionId reason at_ sessionId
  have hget : (w.sessions.revoke sessionId reason at_).get? sessionId = some s' := hs'
  rw [get, hs, Option.map_some, Option.some.injEq] at hget
  have hid : s.id = sessionId := inv.keyed _ _ hs
  cases hr : s.revokedAt with
  | none =>
    have hrevoked : s' = SessionStore.revoked s reason at_ := by simp [← hget, hr, hid]
    refine inv'.ended sessionId s' hs' ?_ ?_
    · rw [hrevoked]
      rfl
    · rw [hrevoked]
      simpa [SessionStore.revoked] using hreason
  | some _ =>
    have hsame : s' = s := by simp [← hget, hr]
    rw [hsame] at hs' ⊢
    exact inv'.ended sessionId s hs' (by simp [hr]) unrotated

/-- The revocation that a sign-out makes, and whatever it records afterwards. -/
theorem revoke_then_record_meets (collisionFree : Function.Injective K.prims.hashToken)
    (hs : w.sessions.get? sessionId = some s) (reason : RevokedReason) (hreason : reason ≠ .rotated)
    (at_ : Date) (kind : AuthEventKind) (userId : Nat) (context : RequestContext)
    (detail : Option String) :
    Task.Meets (logoutContract K sessionId) n (fun _ t => Dead t s.familyId)
      (fun _ t => Dead t s.familyId) w (do
        call (.revokeSession sessionId reason at_)
        record kind true (some userId) none context detail) := by
  rw [Task.meets_bind]
  refine meets_call_safe (safe_now collisionFree id (by simpa [Call.sessional] using hreason)) ?_
  intro env t he hi guard _ _
  obtain ⟨s', hs', hc⟩ := he.1.sessions _ _ hs
  have dead := dead_of_revokeSession collisionFree hi hs' (revokesUnrotated_revoke guard hs') reason
    hreason at_ env
  rw [hc.familyId] at dead
  refine meets_call_safe (safe_now collisionFree) ?_
  intro env' t' het _ _ _ het'
  exact het'.1.dead _ (het.1.dead _ dead)

theorem logout_meets (collisionFree : Function.Injective K.prims.hashToken)
    (hs : w.sessions.get? sessionId = some s) (userId : Nat) (context : RequestContext) :
    Task.Meets (logoutContract K sessionId) n (fun _ t => Dead t s.familyId)
      (fun _ t => Dead t s.familyId) w (logout userId sessionId context) := by
  unfold logout
  rw [Task.meets_bind]
  refine meets_call_safe (safe_now collisionFree) ?_
  intro env t he _ _ _ _
  obtain ⟨s', hs', hc⟩ := he.1.sessions _ _ hs
  have h := revoke_then_record_meets (K := K) (n := n) collisionFree hs' .logout (by simp)
    (perform K .now env t).1 .logout userId context none
  rwa [hc.familyId] at h

/-- The owner finds the session, since sessions are never deleted while requests run. -/
theorem revokeSession_meets (collisionFree : Function.Injective K.prims.hashToken)
    (hs : w.sessions.get? sessionId = some s) (context : RequestContext) :
    Task.Meets (logoutContract K sessionId) n (fun _ t => Dead t s.familyId)
      (fun _ t => Dead t s.familyId) w (revokeSession s.userId sessionId context) := by
  unfold revokeSession
  rw [Task.meets_bind]
  refine meets_call_safe (safe_now collisionFree) ?_
  intro env t he _ _ _ _
  obtain ⟨s', hs', hc⟩ := he.1.sessions _ _ hs
  have found : (perform K (.findSessionById s.userId sessionId) env t).1 = some s' :=
    SessionStore.findById_some.mpr ⟨hs', hc.userId⟩
  rw [found]
  dsimp only
  rw [Task.meets_bind]
  refine meets_call_safe (safe_now collisionFree) ?_
  intro env' t' he' _ _ _ _
  obtain ⟨s'', hs'', hc'⟩ := he'.1.sessions _ _ hs'
  have h := revoke_then_record_meets (K := K) (n := n) collisionFree hs'' .admin (by simp)
    (perform K .now env' t').1 .sessionRevoked s.userId context (some s!"session {sessionId}")
  rwa [hc'.familyId, hc.familyId] at h

/-- A sign-out of the session by its owner, or by the request that holds it. -/
def SignsOut (s : Session) (sessionId : Nat) (r : SessionRequest) : Prop :=
  ∃ context, r = .logout s.userId sessionId context ∨ r = .revokeSession s.userId sessionId context

theorem signOut_sat (collisionFree : Function.Injective K.prims.hashToken)
    (hs : w.sessions.get? sessionId = some s) {r : SessionRequest}
    (h : SignsOut s sessionId r) :
    Sat (logoutContract K sessionId) n (fun _ t => Dead t s.familyId) w
      ((sessionSystem K).serve n r) := by
  obtain ⟨context, rfl | rfl⟩ := h
  · refine Sat.weaken (logout_meets collisionFree hs s.userId context).map ?_
    intro a t ha
    cases a <;> exact ha
  · refine Sat.weaken (revokeSession_meets collisionFree hs context).map ?_
    intro a t ha
    cases a <;> exact ha

/-- A sign-out is final in every run in which no refresh has rotated its session by the time the
session is revoked. -/
theorem logout_final (collisionFree : Function.Injective K.prims.hashToken) {c c' : SessionPool}
    (reachable : Reachable K w) (run : SessionRun K (.idle w.fresh) c)
    (stored : c.state.sessions.get? sessionId = some s) {r : SessionRequest}
    (signOut : SignsOut s sessionId r)
    (run' : Pool.Run (sessionSystem K)
      (fun call env t => revokesUnrotated sessionId call env t = true) (c.start (sessionSystem K) r) c')
    {a : Except AuthError Response} (finished : c'.Finished c.threads.length r a) :
    NeverActiveAgain K c' s.familyId := by
  have inv := (reachable_families collisionFree reachable).fresh_history
  obtain ⟨sound, -⟩ := sessionRun_sound collisionFree inv run
  have started : SessionRun K c (c.start (sessionSystem K) r) := .single (.start r c)
  have anyRun : SessionRun K (c.start (sessionSystem K) r) c' := run'.mono fun _ _ _ _ => trivial
  have sound' := (sessionRun_sound collisionFree inv ((run.trans started).trans anyRun)).1
  have guarded : Pool.Sound (S := sessionSystem K) (logoutContract K sessionId)
      (sessionOutcome K) c := sound.under fun _ _ _ _ => trivial
  obtain ⟨t, -, -, htc, dead⟩ := guarded.finished_of_start
    (sessionSystem_serves _ collisionFree c.state) (Contract.refl _ _) run'
    (signOut_sat collisionFree stored signOut) finished
  exact dead_neverActiveAgain collisionFree sound' (htc.1.dead _ dead)

end Logout

/-! ### The race -/

/-- A refresh of session 7 is about to rotate it. -/
def aboutToRotate : SessionPool :=
  Pool.after (sessionSystem sampleConfig) (.start (.refresh 8 phone) :: List.replicate 3 (.run 0 noon))
    (.idle signedUp.fresh)

/-- The sign-out of session 7 starts, the refresh rotates the session, both requests end. -/
def logoutRace : SessionPool :=
  Pool.after (sessionSystem sampleConfig)
    (List.replicate 2 (.run 0 noon) ++ List.replicate 3 (.run 1 noon))
    (aboutToRotate.start (sessionSystem sampleConfig) (.logout 1 7 phone))

/-- The session is active when its sign-out is admitted, and its successor still is when both the
refresh and the sign-out have succeeded. -/
theorem logout_race_leaves_successor :
    SessionRun sampleConfig (.idle signedUp.fresh) aboutToRotate ∧
    SessionRun sampleConfig
      (aboutToRotate.start (sessionSystem sampleConfig) (.logout 1 7 phone)) logoutRace ∧
    (∃ s, aboutToRotate.state.sessions.get? 7 = some s ∧ s.tokenHash = 8 ∧ s.familyId = 9 ∧
      isSessionActive s 1000 = true) ∧
    logoutRace.threads.length = 2 ∧ (∃ a, logoutRace.Finished 0 (.refresh 8 phone) (.ok a)) ∧
    logoutRace.Finished 1 (.logout 1 7 phone) (.ok .done) ∧
    ∃ k s, logoutRace.state.sessions.get? k = some s ∧ s.familyId = 9 ∧
      isSessionActive s 1000 = true := by
  refine ⟨Pool.after_run _ _ _, Pool.after_run _ _ _, ⟨_, rfl, ?_⟩, by decide +kernel, ⟨_, rfl⟩, rfl,
    10, _, rfl, ?_⟩
  · decide +kernel
  · decide +kernel

/-- The same two requests with the sign-out first. -/
def logoutFirst : SessionPool :=
  Pool.afterUnder (sessionSystem sampleConfig) (revokesUnrotated 7)
    (List.replicate 3 (.run 1 noon) ++ List.replicate 2 (.run 0 noon))
    (aboutToRotate.start (sessionSystem sampleConfig) (.logout 1 7 phone))

theorem logout_final_first :
    logoutFirst.Finished 1 (.logout 1 7 phone) (.ok .done) ∧
      NeverActiveAgain sampleConfig logoutFirst 9 := by
  have finished : logoutFirst.Finished 1 (.logout 1 7 phone) (.ok .done) := rfl
  have stored : aboutToRotate.state.sessions.get? 7 =
      some ⟨7, 1, 9, 8, 1000, 2592001000, none, none, none, some "phone", none⟩ := by
    decide +kernel
  refine ⟨finished, ?_⟩
  exact logout_final Function.injective_id ⟨_, Pool.after_run _ _ _, rfl⟩ (Pool.after_run _ _ _)
    stored ⟨phone, .inl rfl⟩ (Pool.afterUnder_run _ _ _ _) finished

end Finverse.Auth
