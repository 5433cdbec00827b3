import Finverse.Framework.History
import Finverse.Auth.Effects

/-! Which requests find users, change passwords and factors, try challenges and open sessions. -/

namespace Finverse.Auth

open Interleave

/-- The calls that not every request makes. -/
def Call.special : Call → Bool
  | .findUserByEmail _ | .updatePasswordHash .. | .savePendingMfa _ | .enableMfa _ | .disableMfa _
  | .acceptTotpStep .. | .consumeRecoveryCode .. | .createChallenge .. | .findChallenge ..
  | .consumeChallenge .. | .failChallenge .. | .createSession .. | .rotateSession ..
  | .revokeAllForUser .. => true
  | _ => false

/-- Which of them a request may make. -/
def Request.makes : Request → Call → Bool
  | .register .., .createSession .. => true
  | .login .., .findUserByEmail _ | .login .., .updatePasswordHash .. | .login .., .createChallenge ..
  | .login .., .createSession .. => true
  | .loginWithVerifiedPasskey .., .createSession .. => true
  | .enrollMfa .., .savePendingMfa _ => true
  | .enableMfa .., .enableMfa _ => true
  | .verifyMfaChallenge .., .findChallenge .. | .verifyMfaChallenge .., .acceptTotpStep ..
  | .verifyMfaChallenge .., .consumeRecoveryCode .. | .verifyMfaChallenge .., .consumeChallenge ..
  | .verifyMfaChallenge .., .failChallenge .. | .verifyMfaChallenge .., .createSession .. => true
  | .disableMfa .., .acceptTotpStep .. | .disableMfa .., .consumeRecoveryCode ..
  | .disableMfa .., .disableMfa _ => true
  | .requestAccountDeletion .., .acceptTotpStep ..
  | .requestAccountDeletion .., .consumeRecoveryCode ..
  | .requestAccountDeletion .., .revokeAllForUser .. => true
  | .cancelAccountDeletion .., .findUserByEmail _ | .cancelAccountDeletion .., .createSession .. => true
  | .requestPasswordReset .., .findUserByEmail _ => true
  | .confirmPasswordReset .., .updatePasswordHash ..
  | .confirmPasswordReset .., .revokeAllForUser .. => true
  | .refresh .., .rotateSession .. => true
  | .logoutAll .., .revokeAllForUser .. => true
  | _, _ => false

/-- The property holds of every call that any request may make. -/
def Plainly (P : Call → Prop) : Prop := ∀ c : Call, c.special = false → P c

section Plain

variable {K : Config} {n : Nat} {P : Call → Prop}

@[grind .]
theorem call_plain (h : Plainly P) {c : Call} (hc : c.special = false) : Calls P (call c) :=
  (Task.all_call (I := ports) c).mpr (h c hc)

@[grind .]
theorem call_made {c : Call} (hc : P c) : Calls P (call c) := (Task.all_call (I := ports) c).mpr hc

attribute [grind =] Call.special

@[grind .]
theorem record_plain (h : Plainly P) (kind : AuthEventKind) (succeeded : Bool)
    (userId : Option Nat) (emailAttempted : Option String) (context : RequestContext)
    (detail : Option String) :
    Calls P (record kind succeeded userId emailAttempted context detail) :=
  call_plain h rfl

@[grind .]
theorem assertPasswordNotCompromised_plain (h : Plainly P) (password : String) :
    Calls P (assertPasswordNotCompromised K password) := by
  unfold assertPasswordNotCompromised
  grind

@[grind .]
theorem requirePassword_plain (h : Plainly P) (userId : Nat) (password : String) :
    Calls P (requirePassword K userId password) := by
  unfold requirePassword
  grind

@[grind .]
theorem issueAuthAction_plain (h : Plainly P) (user : User) (kind : AuthActionKind) :
    Calls P (issueAuthAction user kind) := by
  unfold issueAuthAction
  grind

@[grind .]
theorem passwordOk_plain (h : Plainly P) (user : Option User) (password : String) :
    Calls P (passwordOk K user password) := by
  unfold passwordOk
  grind

@[grind .]
theorem assertPasskeyNotLocked_plain (h : Plainly P) (email : Option String)
    (context : RequestContext) : Calls P (assertPasskeyNotLocked email context) := by
  unfold assertPasskeyNotLocked
  grind

@[grind .]
theorem revokeReused_plain (h : Plainly P) (familyId userId : Nat) (now : Date)
    (context : RequestContext) : Calls P (revokeReused familyId userId now context) := by
  unfold revokeReused
  grind

@[grind .]
theorem issueSession_plain (hs : ∀ user context, P (.createSession n user context))
    (user : User) (context : RequestContext) : Calls P (issueSession n user context) := by
  unfold issueSession
  grind

/-- The calls that try a factor. -/
structure Factors (n : Nat) (P : Call → Prop) : Prop where
  step : ∀ userId step, P (.acceptTotpStep n userId step)
  code : ∀ userId codeHash at_, P (.consumeRecoveryCode n userId codeHash at_)

@[grind .]
theorem verifyMfaFactor_plain (h : Plainly P) (hf : Factors n P) (userId : Nat)
    (candidate : String) (now : Date) : Calls P (verifyMfaFactor K n userId candidate now) := by
  have step := hf.step
  have code := hf.code
  unfold verifyMfaFactor decryptMfaSecret
  grind

@[grind .]
theorem presentedFactor_plain (h : Plainly P) (hf : Factors n P) (userId : Nat)
    (mfaCode : Option String) : Calls P (presentedFactor K n userId mfaCode) := by
  unfold presentedFactor
  grind

@[grind .]
theorem requireRecentPassword_plain (h : Plainly P) (hf : Factors n P) (userId : Nat)
    (password : String) (mfaCode : Option String) (context : RequestContext) :
    Calls P (requireRecentPassword K n userId password mfaCode context) := by
  unfold requireRecentPassword
  grind

@[grind .]
theorem challengeFactor_plain (h : Plainly P) (hf : Factors n P) (found : Option User)
    (code : String) (now : Date) : Calls P (challengeFactor K n found code now) := by
  unfold challengeFactor
  grind

/-! ### Requests -/

section Requests

variable {email password code : String} {userId token : Nat} {context : RequestContext}

theorem register_plain (h : Plainly P) (hs : ∀ user context, P (.createSession n user context))
    {displayName : Option String} {legalAcceptance : LegalAcceptanceInput} :
    Calls P (register K n email password displayName legalAcceptance context) := by
  unfold register
  dsimp only
  refine iteInduction (fun _ => Task.all_throw _) fun _ => ?_
  refine iteInduction (fun _ => Task.all_throw _) fun _ => ?_
  refine Task.all_bind (assertPasswordNotCompromised_plain h password) fun _ => ?_
  refine iteInduction (fun _ => Task.all_throw _) fun _ => ?_
  refine Task.all_bind (call_plain h rfl) fun passwordHash => ?_
  refine Task.all_bind (call_plain h rfl) fun created => ?_
  cases created with
  | none => exact Task.all_bind (record_plain h ..) fun _ => Task.all_throw _
  | some user =>
    refine Task.all_bind (record_plain h ..) fun _ => ?_
    refine Task.all_bind (Task.all_tryCatch ?_ fun _ => record_plain h ..) fun _ =>
      issueSession_plain hs user context
    exact Task.all_bind (issueAuthAction_plain h user .verifyEmail) fun _ => record_plain h ..

theorem login_plain (h : Plainly P) (hs : ∀ user context, P (.createSession n user context))
    (hfind : ∀ email, P (.findUserByEmail email))
    (hrehash : ∀ userId hash, P (.updatePasswordHash userId hash))
    (hchallenge : ∀ userId expiresAt, P (.createChallenge userId expiresAt)) :
    Calls P (login K n email password context) := by
  unfold login
  refine Task.all_bind (call_plain h rfl) fun now => ?_
  refine Task.all_bind (call_plain h rfl) fun failures => ?_
  refine iteInduction (fun _ => Task.all_bind (record_plain h ..) fun _ => Task.all_throw _)
    fun _ => ?_
  refine Task.all_bind (call_made (hfind _)) fun found => ?_
  refine Task.all_bind (passwordOk_plain h found password) fun ok => ?_
  split
  · rename_i user
    refine iteInduction (fun _ => Task.all_bind (record_plain h ..) fun _ => Task.all_throw _)
      fun _ => ?_
    have after : Calls P (do
        let mfa ← call (.getMfaForLogin n user.id)
        if (mfa.bind MfaRecord.enabledAt).isSome then do
          let challengeToken ← call (.createChallenge user.id (now + 5 * 60 * 1000))
          record .mfaChallenge true (some user.id) (some (normalizeEmail K.prims email)) context
            (some "password verified")
          pure (LoginResult.mfaRequired challengeToken (now + 5 * 60 * 1000))
        else do
          record .login true (some user.id) (some (normalizeEmail K.prims email)) context none
          let result ← issueSession n user context
          pure (LoginResult.signedIn result)) := by
      refine Task.all_bind (call_plain h rfl) fun mfa => ?_
      refine iteInduction (fun _ => ?_) fun _ => ?_
      · refine Task.all_bind (call_made (hchallenge _ _)) fun challengeToken => ?_
        exact Task.all_bind (record_plain h ..) fun _ => Task.all_pure _
      · refine Task.all_bind (record_plain h ..) fun _ => ?_
        exact Task.all_bind (issueSession_plain hs user context) fun _ => Task.all_pure _
    refine iteInduction (fun _ => ?_) fun _ => after
    refine Task.all_bind (call_plain h rfl) fun upgraded => ?_
    exact Task.all_bind (call_made (hrehash _ _)) fun _ => after
  · exact Task.all_bind (record_plain h ..) fun _ => Task.all_throw _

theorem loginWithVerifiedPasskey_plain (h : Plainly P)
    (hs : ∀ user context, P (.createSession n user context)) :
    Calls P (loginWithVerifiedPasskey n userId context) := by
  unfold loginWithVerifiedPasskey
  refine Task.all_bind (call_plain h rfl) fun _ => ?_
  refine Task.all_bind (call_plain h rfl) fun found => ?_
  refine Task.all_bind (assertPasskeyNotLocked_plain h ..) fun _ => ?_
  cases found with
  | none => exact Task.all_bind (record_plain h ..) fun _ => Task.all_throw _
  | some user =>
    refine iteInduction (fun _ => Task.all_bind (record_plain h ..) fun _ => Task.all_throw _)
      fun _ => ?_
    refine Task.all_bind (record_plain h ..) fun _ => ?_
    exact Task.all_bind (record_plain h ..) fun _ => issueSession_plain hs user context

theorem enrollMfa_plain (h : Plainly P) (hsave : ∀ userId, P (.savePendingMfa userId)) :
    Calls P (enrollMfa K userId password context) := by
  unfold enrollMfa
  grind

theorem enableMfa_plain (h : Plainly P) (henable : ∀ userId, P (.enableMfa userId)) :
    Calls P (enableMfa K userId code context) := by
  unfold enableMfa
  refine Task.all_bind (call_plain h rfl) fun found => ?_
  refine Task.all_bind (call_plain h rfl) fun pending => ?_
  rcases found with _ | user
  · exact Task.all_throw _
  rcases pending with _ | mfa
  · exact Task.all_throw _
  · refine iteInduction (fun _ => Task.all_throw _) fun _ => ?_
    refine Task.all_bind (decryptMfaSecret_all _) fun secret => ?_
    refine Task.all_bind (call_plain h rfl) fun now => ?_
    generalize (verifyTotp K.prims secret (trim code) now).isNone = wrong
    cases wrong with
    | true => exact Task.all_bind (record_plain h ..) fun _ => Task.all_throw _
    | false =>
      refine Task.all_bind (call_made (henable _)) fun enabled => ?_
      cases enabled with
      | none => exact Task.all_throw _
      | some codes => exact Task.all_bind (record_plain h ..) fun _ => Task.all_pure _

theorem verifyMfaChallenge_plain (h : Plainly P) (hf : Factors n P)
    (hs : ∀ user context, P (.createSession n user context))
    (hfind : ∀ hash at_, P (.findChallenge hash at_))
    (hconsume : ∀ hash at_, P (.consumeChallenge hash at_))
    (hfail : ∀ hash at_, P (.failChallenge hash at_)) :
    Calls P (verifyMfaChallenge K n token code context) := by
  unfold verifyMfaChallenge
  refine Task.all_bind (call_plain h rfl) fun now => ?_
  refine Task.all_bind (call_made (hfind _ _)) fun owner => ?_
  cases owner with
  | none => exact Task.all_throw _
  | some owner =>
    refine Task.all_bind (call_plain h rfl) fun found => ?_
    refine Task.all_bind (challengeFactor_plain h hf found code now) fun accepted => ?_
    split
    · rename_i user
      refine Task.all_bind (call_made (hconsume _ _)) fun consumed => ?_
      refine iteInduction (fun _ => ?_) fun _ => Task.all_throw _
      refine Task.all_bind (record_plain h ..) fun _ => ?_
      exact Task.all_bind (record_plain h ..) fun _ => issueSession_plain hs user context
    · refine Task.all_bind (call_made (hfail _ _)) fun remaining => ?_
      exact Task.all_bind (record_plain h ..) fun _ => Task.all_throw _

theorem disableMfa_plain (h : Plainly P) (hf : Factors n P)
    (hdisable : ∀ userId, P (.disableMfa userId)) :
    Calls P (disableMfa K n userId password code context) := by
  unfold disableMfa
  grind

theorem requestAccountDeletion_plain (h : Plainly P) (hf : Factors n P)
    (hrevoke : ∀ userId reason at_, P (.revokeAllForUser userId reason at_))
    {mfaCode : Option String} :
    Calls P (requestAccountDeletion K n userId password mfaCode context) := by
  unfold requestAccountDeletion
  refine Task.all_bind (requireRecentPassword_plain h hf ..) fun user => ?_
  refine Task.all_bind (call_plain h rfl) fun banks => ?_
  split
  · exact Task.all_bind (record_plain h ..) fun _ => Task.all_throw _
  · refine Task.all_bind (call_plain h rfl) fun requestedAt => ?_
    refine Task.all_bind (call_plain h rfl) fun requested => ?_
    refine iteInduction (fun _ => ?_) fun _ => Task.all_throw _
    refine Task.all_bind (call_made (hrevoke _ _ _)) fun _ => ?_
    exact Task.all_bind (record_plain h ..) fun _ => Task.all_pure _

theorem cancelAccountDeletion_plain (h : Plainly P)
    (hs : ∀ user context, P (.createSession n user context))
    (hfind : ∀ email, P (.findUserByEmail email)) :
    Calls P (cancelAccountDeletion K n email password context) := by
  unfold cancelAccountDeletion
  refine Task.all_bind (call_made (hfind _)) fun found => ?_
  refine Task.all_bind (passwordOk_plain h found password) fun ok => ?_
  split
  · refine Task.all_bind (call_plain h rfl) fun cancelled => ?_
    refine iteInduction (fun _ => ?_) fun _ => Task.all_throw _
    exact Task.all_bind (record_plain h ..) fun _ => issueSession_plain hs _ context
  · exact Task.all_bind (record_plain h ..) fun _ => Task.all_throw _

theorem requestEmailVerification_plain (h : Plainly P) :
    Calls P (requestEmailVerification userId context) := by
  unfold requestEmailVerification
  grind

theorem confirmEmailVerification_plain (h : Plainly P) :
    Calls P (confirmEmailVerification K token context) := by
  unfold confirmEmailVerification
  refine Task.all_bind (call_plain h rfl) fun now => ?_
  refine Task.all_bind (call_plain h rfl) fun owner => ?_
  cases owner with
  | none => exact Task.all_throw _
  | some userId =>
    refine Task.all_bind (call_plain h rfl) fun found => ?_
    cases found with
    | none => exact Task.all_throw _
    | some user =>
      refine iteInduction (fun _ => Task.all_throw _) fun _ => ?_
      exact Task.all_bind (call_plain h rfl) fun _ => record_plain h ..

theorem requestPasswordReset_plain (h : Plainly P) (hfind : ∀ email, P (.findUserByEmail email)) :
    Calls P (requestPasswordReset K email context) := by
  unfold requestPasswordReset
  grind

theorem confirmPasswordReset_plain (h : Plainly P)
    (hwrite : ∀ userId hash, P (.updatePasswordHash userId hash))
    (hrevoke : ∀ userId reason at_, P (.revokeAllForUser userId reason at_)) :
    Calls P (confirmPasswordReset K token password context) := by
  unfold confirmPasswordReset
  refine iteInduction (fun _ => Task.all_throw _) fun _ => ?_
  refine Task.all_bind (assertPasswordNotCompromised_plain h password) fun _ => ?_
  refine Task.all_bind (call_plain h rfl) fun now => ?_
  refine Task.all_bind (call_plain h rfl) fun owner => ?_
  cases owner with
  | none => exact Task.all_throw _
  | some userId =>
    refine Task.all_bind (call_plain h rfl) fun found => ?_
    cases found with
    | none => exact Task.all_throw _
    | some user =>
      refine iteInduction (fun _ => Task.all_throw _) fun _ => ?_
      refine Task.all_bind (call_plain h rfl) fun passwordHash => ?_
      refine Task.all_bind (call_made (hwrite _ _)) fun _ => ?_
      exact Task.all_bind (call_made (hrevoke _ _ _)) fun _ => record_plain h ..

theorem refresh_plain (h : Plainly P)
    (hrotate : ∀ session user context at_, P (.rotateSession n session user context at_)) :
    Calls P (refresh K n token context) := by
  unfold refresh
  refine Task.all_bind (call_plain h rfl) fun now => ?_
  refine Task.all_bind (call_plain h rfl) fun session => ?_
  split
  · exact Task.all_bind (revokeReused_plain h ..) fun _ => Task.all_throw _
  · refine Task.all_bind (call_plain h rfl) fun found => ?_
    split
    · exact Task.all_bind (call_plain h rfl) fun _ => Task.all_throw _
    · refine Task.all_bind (call_made (hrotate _ _ _ _)) fun rotated => ?_
      cases rotated with
      | none =>
        refine Task.all_bind (call_plain h rfl) fun current => ?_
        split
        · exact Task.all_bind (revokeReused_plain h ..) fun _ => Task.all_throw _
        · exact Task.all_throw _
      | some tokens => exact Task.all_bind (record_plain h ..) fun _ => Task.all_pure _
  · exact Task.all_throw _

theorem logout_plain (h : Plainly P) {sessionId : Nat} :
    Calls P (logout userId sessionId context) := by
  unfold logout
  grind

theorem logoutAll_plain (h : Plainly P)
    (hrevoke : ∀ userId reason at_, P (.revokeAllForUser userId reason at_)) :
    Calls P (logoutAll userId context) := by
  unfold logoutAll
  grind

theorem revokeSession_plain (h : Plainly P) {sessionId : Nat} :
    Calls P (revokeSession userId sessionId context) := by
  unfold revokeSession
  grind

end Requests

end Plain

/-- No request makes a special call that is not its own. -/
theorem handle_makes (K : Config) (n : Nat) (r : Request) :
    Calls (fun c => c.special = true → r.makes c = true) (handle K n r) := by
  have plain : Plainly fun c => c.special = true → r.makes c = true := by
    intro c ordinary special
    rw [ordinary] at special
    cases special
  cases r with
  | register => exact Task.all_map (register_plain plain fun _ _ _ => rfl)
  | login =>
    exact Task.all_map (login_plain plain (fun _ _ _ => rfl) (fun _ _ => rfl) (fun _ _ _ => rfl)
      fun _ _ _ => rfl)
  | loginWithVerifiedPasskey =>
    exact Task.all_map (loginWithVerifiedPasskey_plain plain fun _ _ _ => rfl)
  | enrollMfa => exact Task.all_map (enrollMfa_plain plain fun _ _ => rfl)
  | enableMfa => exact Task.all_map (enableMfa_plain plain fun _ _ => rfl)
  | verifyMfaChallenge =>
    exact Task.all_map (verifyMfaChallenge_plain plain ⟨fun _ _ _ => rfl, fun _ _ _ _ => rfl⟩
      (fun _ _ _ => rfl) (fun _ _ _ => rfl) (fun _ _ _ => rfl) fun _ _ _ => rfl)
  | disableMfa =>
    exact Task.all_map (disableMfa_plain plain ⟨fun _ _ _ => rfl, fun _ _ _ _ => rfl⟩
      fun _ _ => rfl)
  | requestAccountDeletion =>
    exact Task.all_map (requestAccountDeletion_plain plain
      ⟨fun _ _ _ => rfl, fun _ _ _ _ => rfl⟩ fun _ _ _ _ => rfl)
  | cancelAccountDeletion =>
    exact Task.all_map (cancelAccountDeletion_plain plain (fun _ _ _ => rfl) fun _ _ => rfl)
  | requestEmailVerification => exact Task.all_map (requestEmailVerification_plain plain)
  | confirmEmailVerification => exact Task.all_map (confirmEmailVerification_plain plain)
  | requestPasswordReset => exact Task.all_map (requestPasswordReset_plain plain fun _ _ => rfl)
  | confirmPasswordReset =>
    exact Task.all_map (confirmPasswordReset_plain plain (fun _ _ _ => rfl) fun _ _ _ _ => rfl)
  | refresh => exact Task.all_map (refresh_plain plain fun _ _ _ _ _ => rfl)
  | logout => exact Task.all_map (logout_plain plain)
  | logoutAll => exact Task.all_map (logoutAll_plain plain fun _ _ _ _ => rfl)
  | revokeSession => exact Task.all_map (revokeSession_plain plain)

/-- Something a request did, with where it was done. -/
abbrev Deed : Type := Entry ports Env World Request

/-- What was done by a request that may do it. -/
theorem deed_made {K : Config} {w₀ : World} {cond : List Deed → Deed → Prop} {before after : List Deed}
    {e : Deed} {c : Pool ports World Request (Except AuthError Response)}
    (recorded : Pool.Recorded (system K) w₀ cond (before ++ e :: after) c)
    (special : Call.special e.op = true) : e.req.makes e.op = true := by
  have asks : ((system K).serve e.thread e.req).Asks
      (fun _ op => Call.special op = true → e.req.makes op = true)
      (fun h' _ => Extends (fun op => Call.special op = true → e.req.makes op = true) [] h') [] :=
    Prog.Asks.of_all (handle_makes K e.thread e.req) fun _ _ => id
  exact recorded.asks asks special

end Finverse.Auth
