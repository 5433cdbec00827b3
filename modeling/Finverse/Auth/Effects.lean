import Finverse.Auth.Service

/-! Which calls a request may make. Only sign-ins create sessions, only a refresh rotates one and
only an enrolment stores a second factor; everything else is ordinary. -/

namespace Finverse.Auth

open Interleave

def Call.ordinary : Call → Bool
  | .createSession .. => false
  | .rotateSession .. => false
  | .savePendingMfa _ => false
  | _ => true

/-- The call names no request but `n`. -/
def Call.madeBy (n : Nat) : Call → Bool
  | .createRegistration request .. | .getMfaForLogin request _ | .acceptTotpStep request ..
  | .consumeRecoveryCode request .. | .passkeyAsserted request _ | .cancelDeletion request _
  | .createSession request .. | .rotateSession request .. => request == n
  | _ => true

/-- The property holds of every ordinary call of request `n`. -/
def Ordinarily (n : Nat) (P : Call → Prop) : Prop :=
  ∀ c : Call, c.ordinary = true → c.madeBy n = true → P c

variable {K : Config} {n : Nat} {P : Call → Prop}

abbrev Calls (P : Call → Prop) {α : Type} (m : Service α) : Prop := Task.All (I := ports) P m

@[grind .]
theorem call_all (h : Ordinarily n P) {c : Call} (hc : c.ordinary = true)
    (hn : c.madeBy n = true) : Calls P (call c) :=
  (Task.all_call (I := ports) c).mpr (h c hc hn)

attribute [grind =] Call.ordinary Call.madeBy

/-! ### Helpers -/

@[grind .]
theorem record_all (h : Ordinarily n P) (kind : AuthEventKind) (succeeded : Bool)
    (userId : Option Nat) (emailAttempted : Option String) (context : RequestContext)
    (detail : Option String) :
    Calls P (record kind succeeded userId emailAttempted context detail) :=
  call_all h rfl rfl

@[grind .]
theorem assertPasswordNotCompromised_all (h : Ordinarily n P) (password : String) :
    Calls P (assertPasswordNotCompromised K password) := by
  unfold assertPasswordNotCompromised
  grind

@[grind .]
theorem requirePassword_all (h : Ordinarily n P) (userId : Nat) (password : String) :
    Calls P (requirePassword K userId password) := by
  unfold requirePassword
  grind

@[grind .]
theorem decryptMfaSecret_all (ciphertext : String) : Calls P (decryptMfaSecret K ciphertext) := by
  unfold decryptMfaSecret
  grind

@[grind .]
theorem verifyMfaFactor_all (h : Ordinarily n P) (userId : Nat) (candidate : String)
    (now : Date) : Calls P (verifyMfaFactor K n userId candidate now) := by
  unfold verifyMfaFactor
  grind

@[grind .]
theorem presentedFactor_all (h : Ordinarily n P) (userId : Nat)
    (mfaCode : Option String) : Calls P (presentedFactor K n userId mfaCode) := by
  unfold presentedFactor
  grind

@[grind .]
theorem requireRecentPassword_all (h : Ordinarily n P) (userId : Nat) (password : String)
    (mfaCode : Option String) (context : RequestContext) :
    Calls P (requireRecentPassword K n userId password mfaCode context) := by
  unfold requireRecentPassword
  grind

@[grind .]
theorem issueAuthAction_all (h : Ordinarily n P) (user : User) (kind : AuthActionKind) :
    Calls P (issueAuthAction user kind) := by
  unfold issueAuthAction
  grind

@[grind .]
theorem passwordOk_all (h : Ordinarily n P) (user : Option User) (password : String) :
    Calls P (passwordOk K user password) := by
  unfold passwordOk
  grind

@[grind .]
theorem assertPasskeyNotLocked_all (h : Ordinarily n P) (email : Option String)
    (context : RequestContext) : Calls P (assertPasskeyNotLocked email context) := by
  unfold assertPasskeyNotLocked
  grind

@[grind .]
theorem challengeFactor_all (h : Ordinarily n P) (found : Option User)
    (code : String) (now : Date) : Calls P (challengeFactor K n found code now) := by
  unfold challengeFactor
  grind

@[grind .]
theorem revokeReused_all (h : Ordinarily n P) (familyId userId : Nat) (now : Date)
    (context : RequestContext) : Calls P (revokeReused familyId userId now context) := by
  unfold revokeReused
  grind

/-! ### Rules for calls -/

section Rules

variable {C : Contract (machine K)} {w : World} {err : AuthError → World → Prop}

theorem meets_call_own {c : Call} {ok : c.Reply → World → Prop}
    (h : ∀ env t, C.rely n w t → C.inv t → C.cond c env t →
      C.inv (perform K c env t).2 ∧ C.guarantee n t (perform K c env t).2 ∧
        ok (perform K c env t).1 (perform K c env t).2) :
    Task.Meets C n ok err w (call c) :=
  Task.meets_call.mpr fun env t he hi hc _ => h env t he hi hc

theorem meets_call_safe_own {c : Call} {ok : c.Reply → World → Prop} (safe : C.Safe n c)
    (h : ∀ env t, C.rely n w t → C.inv t → C.cond c env t → C.inv (perform K c env t).2 →
      C.guarantee n t (perform K c env t).2 → ok (perform K c env t).1 (perform K c env t).2) :
    Task.Meets C n ok err w (call c) :=
  meets_call_own fun env t he hi hc =>
    have hs := safe env t hi hc rfl
    ⟨hs.1, hs.2, h env t he hi hc hs.1 hs.2⟩

/-- A safe call: only its postcondition is left to show. -/
theorem meets_call_safe {c : Call} {ok : c.Reply → World → Prop} (safe : C.Safe n c)
    (h : ∀ env t, C.evolves w t → C.inv t → C.cond c env t → C.inv (perform K c env t).2 →
      C.evolves t (perform K c env t).2 → ok (perform K c env t).1 (perform K c env t).2) :
    Task.Meets C n ok err w (call c) :=
  meets_call_safe_own safe fun env t he hi hc hi' hg => h env t he.1 hi hc hi' hg.1

variable [Contract.Shared C]

theorem meets_call {c : Call} {ok : c.Reply → World → Prop}
    (h : ∀ env t, C.evolves w t → C.inv t → C.cond c env t →
      C.inv (perform K c env t).2 ∧ C.evolves t (perform K c env t).2 ∧
        ok (perform K c env t).1 (perform K c env t).2) :
    Task.Meets C n ok err w (call c) :=
  meets_call_own fun env t he hi hc =>
    have ht := h env t he.1 hi hc
    ⟨ht.1, Contract.guarantee_of_evolves ht.2.1, ht.2.2⟩

end Rules

/-! ### Requests -/

/-- Requests that issue no session by themselves. -/
def Request.plain : Request → Bool
  | .register .. | .login .. | .loginWithVerifiedPasskey .. | .verifyMfaChallenge ..
  | .cancelAccountDeletion .. | .refresh .. | .enrollMfa .. => false
  | _ => true

theorem plain_all (h : Ordinarily n P) {r : Request} (plain : r.plain = true) :
    Calls P (handle K n r) := by
  cases r with
  | enableMfa userId code context =>
    refine Task.all_map ?_
    unfold enableMfa
    refine Task.all_bind (call_all h rfl (by simp [Call.madeBy])) fun found => ?_
    refine Task.all_bind (call_all h rfl (by simp [Call.madeBy])) fun pending => ?_
    split
    · split
      · exact Task.all_throw _
      · refine Task.all_bind (decryptMfaSecret_all _) fun secret => ?_
        refine Task.all_bind (call_all h rfl (by simp [Call.madeBy])) fun now => ?_
        grind
    · exact Task.all_throw _
  | disableMfa userId password code context =>
    refine Task.all_map ?_
    unfold disableMfa
    grind
  | requestAccountDeletion userId password mfaCode context =>
    refine Task.all_map ?_
    unfold requestAccountDeletion
    refine Task.all_bind (requireRecentPassword_all h ..) fun user => ?_
    refine Task.all_bind (call_all h rfl (by simp [Call.madeBy])) fun banks => ?_
    split
    · grind
    · refine Task.all_bind (call_all h rfl (by simp [Call.madeBy])) fun requestedAt => ?_
      grind
  | requestEmailVerification userId context =>
    refine Task.all_map ?_
    unfold requestEmailVerification
    grind
  | confirmEmailVerification token context =>
    refine Task.all_map ?_
    unfold confirmEmailVerification
    refine Task.all_bind (call_all h rfl (by simp [Call.madeBy])) fun now => ?_
    refine Task.all_bind (call_all h rfl (by simp [Call.madeBy])) fun owner => ?_
    split
    · exact Task.all_throw _
    · refine Task.all_bind (call_all h rfl (by simp [Call.madeBy])) fun user => ?_
      grind
  | requestPasswordReset email context =>
    refine Task.all_map ?_
    unfold requestPasswordReset
    grind
  | confirmPasswordReset token password context =>
    refine Task.all_map ?_
    unfold confirmPasswordReset
    split
    · exact Task.all_throw _
    · refine Task.all_bind (assertPasswordNotCompromised_all h _) fun _ => ?_
      refine Task.all_bind (call_all h rfl (by simp [Call.madeBy])) fun now => ?_
      refine Task.all_bind (call_all h rfl (by simp [Call.madeBy])) fun owner => ?_
      split
      · exact Task.all_throw _
      · refine Task.all_bind (call_all h rfl (by simp [Call.madeBy])) fun user => ?_
        grind
  | logout userId sessionId context =>
    refine Task.all_map ?_
    unfold logout
    grind
  | logoutAll userId context =>
    refine Task.all_map ?_
    unfold logoutAll
    grind
  | revokeSession userId sessionId context =>
    refine Task.all_map ?_
    unfold revokeSession
    grind
  | _ => simp [Request.plain] at plain

/-- The property holds of every session creation. -/
def OfSignIns (n : Nat) (P : Call → Prop) : Prop :=
  ∀ user context, P (.createSession n user context)

@[grind .]
theorem issueSession_all (hs : OfSignIns n P) (user : User) (context : RequestContext) :
    Calls P (issueSession n user context) :=
  Task.all_bind ((Task.all_call (I := ports) _).mpr (hs ..)) fun _ => Task.all_pure _

/-- Requests that sign a user in. -/
def Request.signsIn : Request → Bool
  | .register .. | .login .. | .loginWithVerifiedPasskey .. | .verifyMfaChallenge ..
  | .cancelAccountDeletion .. => true
  | _ => false

theorem signsIn_all (h : Ordinarily n P) (hs : OfSignIns n P) {r : Request}
    (signsIn : r.signsIn = true) : Calls P (handle K n r) := by
  cases r with
  | register email password displayName legalAcceptance context =>
    refine Task.all_map ?_
    unfold register
    dsimp only
    split
    · exact Task.all_throw _
    · split
      · exact Task.all_throw _
      · refine Task.all_bind (assertPasswordNotCompromised_all h _) fun _ => ?_
        split
        · exact Task.all_throw _
        · refine Task.all_bind (call_all h rfl (by simp [Call.madeBy])) fun passwordHash => ?_
          refine Task.all_bind (call_all h rfl (by simp [Call.madeBy])) fun user => ?_
          split
          · grind
          · refine Task.all_bind (record_all h ..) fun _ => ?_
            refine Task.all_bind (Task.all_tryCatch ?_ ?_) fun _ => issueSession_all hs ..
            · grind
            · grind
  | login email password context =>
    refine Task.all_map ?_
    unfold login
    refine Task.all_bind (call_all h rfl (by simp [Call.madeBy])) fun now => ?_
    refine Task.all_bind (call_all h rfl (by simp [Call.madeBy])) fun failures => ?_
    dsimp only
    split
    · grind
    · refine Task.all_bind (call_all h rfl (by simp [Call.madeBy])) fun found => ?_
      refine Task.all_bind (passwordOk_all h ..) fun ok => ?_
      split
      · split
        · grind
        · split
          · grind
          · grind
      · grind
  | loginWithVerifiedPasskey userId context =>
    refine Task.all_map ?_
    unfold loginWithVerifiedPasskey
    refine Task.all_bind (call_all h rfl (by simp [Call.madeBy])) fun _ => ?_
    refine Task.all_bind (call_all h rfl (by simp [Call.madeBy])) fun found => ?_
    refine Task.all_bind (assertPasskeyNotLocked_all h ..) fun _ => ?_
    grind
  | verifyMfaChallenge challengeToken code context =>
    refine Task.all_map ?_
    unfold verifyMfaChallenge
    refine Task.all_bind (call_all h rfl (by simp [Call.madeBy])) fun now => ?_
    refine Task.all_bind (call_all h rfl (by simp [Call.madeBy])) fun owner => ?_
    split
    · grind
    · refine Task.all_bind (call_all h rfl (by simp [Call.madeBy])) fun found => ?_
      refine Task.all_bind (challengeFactor_all h ..) fun accepted => ?_
      grind
  | cancelAccountDeletion email password context =>
    refine Task.all_map ?_
    unfold cancelAccountDeletion
    refine Task.all_bind (call_all h rfl (by simp [Call.madeBy])) fun found => ?_
    refine Task.all_bind (passwordOk_all h ..) fun ok => ?_
    grind
  | _ => simp [Request.signsIn] at signsIn

/-- The property holds of every enrolment of a second factor. -/
def OfEnrolments (P : Call → Prop) : Prop := ∀ userId, P (.savePendingMfa userId)

theorem enrollMfa_all (h : Ordinarily n P) (he : OfEnrolments P) (userId : Nat) (password : String)
    (context : RequestContext) : Calls P (handle K n (.enrollMfa userId password context)) := by
  have saved : ∀ u, Calls P (call (.savePendingMfa u)) :=
    fun u => (Task.all_call (I := ports) _).mpr (he u)
  refine Task.all_map ?_
  unfold enrollMfa
  split
  · exact Task.all_throw _
  · refine Task.all_bind (requirePassword_all h ..) fun user => ?_
    grind

theorem others_all (h : Ordinarily n P) (hs : OfSignIns n P) (he : OfEnrolments P) {r : Request}
    (notRefresh : ∀ refreshToken context, r ≠ .refresh refreshToken context) :
    Calls P (handle K n r) := by
  cases hp : r.plain with
  | true => exact plain_all h hp
  | false =>
    cases r with
    | refresh refreshToken context => exact absurd rfl (notRefresh _ _)
    | enrollMfa userId password context => exact enrollMfa_all h he userId password context
    | register | login | loginWithVerifiedPasskey | verifyMfaChallenge | cancelAccountDeletion =>
      exact signsIn_all h hs rfl
    | _ => simp [Request.plain] at hp

end Finverse.Auth
