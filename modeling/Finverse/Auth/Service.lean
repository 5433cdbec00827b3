import Finverse.Auth.Ports

/-! The identity service. -/

namespace Finverse.Auth

open Interleave

abbrev Service (α : Type) : Type := Task ports AuthError α

def call (c : Call) : Service c.Reply := Task.call (I := ports) c

structure AuthResult where
  user : PublicUser
  tokens : TokenPair
  deriving DecidableEq, Repr

inductive LoginResult
  | signedIn (result : AuthResult)
  | mfaRequired (challengeToken : Nat) (expiresAt : Date)
  deriving DecidableEq, Repr

/-! ### Errors -/

def sessionInvalid : AuthError := ⟨.unauthorized, "Session is no longer valid. Sign in again.", [], none⟩

def incorrectCredentials : AuthError := ⟨.unauthorized, "Incorrect email or password.", [], none⟩

def passwordRejected (problems : List String) : AuthError :=
  ⟨.badRequest, "Password rejected.", problems, none⟩

def tooManyAttempts (lockout : LockoutState) : AuthError :=
  ⟨.tooManyRequests, "Too many failed attempts. Try again later.", [],
    some lockout.retryAfterSeconds⟩

def factorIncorrect : AuthError :=
  ⟨.unauthorized, "Authenticator or recovery code is incorrect.", [], none⟩

def challengeInvalid : AuthError :=
  ⟨.unauthorized, "This sign-in challenge is invalid or expired.", [], none⟩

def setupAgain : AuthError := ⟨.badRequest, "Start authenticator setup again.", [], none⟩

def resetLinkInvalid : AuthError :=
  ⟨.badRequest, "This reset link is invalid or expired.", [], none⟩

def verificationLinkInvalid : AuthError :=
  ⟨.badRequest, "This verification link is invalid or expired.", [], none⟩

/-! ### Helpers -/

variable (K : Config)

def record (kind : AuthEventKind) (succeeded : Bool) (userId : Option Nat)
    (emailAttempted : Option String) (context : RequestContext) (detail : Option String) :
    Service Unit :=
  call (.record kind succeeded userId emailAttempted context detail)

def decryptMfaSecret (ciphertext : String) : Service String :=
  match K.prims.decrypt ciphertext with
  | some secret => pure secret
  | none => throw ⟨.serviceUnavailable, "Authenticator security is temporarily unavailable.", [], none⟩

def assertPasswordNotCompromised (password : String) : Service Unit := do
  match ← call (.checkBreach password) with
  | .compromised _ =>
    throw (passwordRejected
      ["This password appears in known data breaches. Choose a new, unique passphrase."])
  | .unavailable =>
    if K.breachCheckRequired then
      throw ⟨.serviceUnavailable,
        "Password safety screening is temporarily unavailable. Try again shortly.", [], none⟩
    else pure ()
  | .safe => pure ()

def requirePassword (userId : Nat) (password : String) : Service User := do
  match ← call (.findUserById userId) with
  | none => throw sessionInvalid
  | some user =>
    if user.status ≠ .active then throw sessionInvalid
    else if K.prims.verify user.passwordHash password then pure user
    else throw ⟨.unauthorized, "Password is incorrect.", [], none⟩

/-- A six-digit candidate is a one-time code; anything else is tried as a recovery code. -/
def verifyMfaFactor (request : Nat) (userId : Nat) (candidate : String) (now : Date) :
    Service Bool := do
  match ← call (.getMfa userId) with
  | none => pure false
  | some mfa =>
    if mfa.enabledAt.isNone then pure false
    else
      let normalized := trim candidate
      if isSixDigits normalized then do
        let secret ← decryptMfaSecret K mfa.encryptedSecret
        match verifyTotp K.prims secret normalized now with
        | none => pure false
        | some step => call (.acceptTotpStep request userId step)
      else call (.consumeRecoveryCode request userId (hashRecoveryCode K.prims normalized) now)

/-- A missing or empty code is no factor. -/
def presentedFactor (request : Nat) (userId : Nat) (mfaCode : Option String) : Service Bool := do
  match mfaCode.filter (· ≠ "") with
  | none => pure false
  | some code => do
    let now ← call .now
    verifyMfaFactor K request userId code now

def requireRecentPassword (request : Nat) (userId : Nat) (password : String)
    (mfaCode : Option String) (context : RequestContext) : Service User := do
  let user ← requirePassword K userId password
  match ← call (.getMfa user.id) with
  | none => pure user
  | some mfa =>
    if mfa.enabledAt.isNone then pure user
    else
      let accepted ← presentedFactor K request user.id mfaCode
      if accepted then do
        record .passkeyStepUp true (some user.id) (some user.email) context none
        pure user
      else do
        record .passkeyStepUp false (some user.id) (some user.email) context
          (some "second factor failed")
        throw factorIncorrect

def issueAuthAction (user : User) (kind : AuthActionKind) : Service Unit := do
  let token ← call (.issueAction user.id kind)
  let delivered ← call (.sendAction user.email kind token)
  if delivered then pure () else throw ⟨.internalServerError, "delivery failed", [], none⟩

def issueSession (request : Nat) (user : User) (context : RequestContext) : Service AuthResult := do
  let tokens ← call (.createSession request user context)
  pure ⟨toPublicUser user, tokens⟩

/-- Hashing work is done for unknown addresses too. -/
def passwordOk (user : Option User) (password : String) : Service Bool := do
  match user with
  | some user => pure (K.prims.verify user.passwordHash password)
  | none => do
    let decoy ← call .decoyHash
    pure (K.prims.verify decoy password)

/-! ### Registration and sign-in -/

def legalAccepted (legalAcceptance : LegalAcceptanceInput) : Bool :=
  match K.legal with
  | none => true
  | some versions =>
    legalAcceptance.acceptedTerms && legalAcceptance.termsVersion == some versions.terms &&
      legalAcceptance.acceptedPrivacyNotice &&
      legalAcceptance.privacyVersion == some versions.privacyNotice

def register (request : Nat) (email password : String) (displayName : Option String)
    (legalAcceptance : LegalAcceptanceInput) (context : RequestContext) : Service AuthResult := do
  let normalized := normalizeEmail K.prims email
  if !isValidEmail K.prims normalized then
    throw ⟨.badRequest, "Enter a valid email address.", [], none⟩
  else if checkPassword K.prims password (some normalized) ≠ [] then
    throw (passwordRejected (checkPassword K.prims password (some normalized)))
  else do
    assertPasswordNotCompromised K password
    if !legalAccepted K legalAcceptance then
      throw ⟨.badRequest,
        "Accept the current Terms of Service and Privacy Notice to create an account.", [], none⟩
    else do
      let passwordHash ← call (.hash password)
      let name := (displayName.map trim).filter (· ≠ "")
      match ← call (.createRegistration request normalized passwordHash name) with
      | none => do
        record .register false none (some normalized) context (some "duplicate email")
        throw ⟨.conflict, "An account with that email already exists.", [], none⟩
      | some user => do
        record .register true (some user.id) (some normalized) context none
        try
          issueAuthAction user .verifyEmail
          record .emailVerificationSent true (some user.id) (some user.email) context none
        catch _ =>
          record .emailVerificationSent false (some user.id) (some user.email) context
            (some "delivery failed")
        issueSession request user context

def login (request : Nat) (email password : String) (context : RequestContext) :
    Service LoginResult := do
  let normalized := normalizeEmail K.prims email
  let now ← call .now
  let failures ← call (.recentFailures normalized (now - FAILURE_WINDOW_MS) .login)
  let lockout := evaluateLockout failures now
  if lockout.locked then do
    record .login false none (some normalized) context (some "locked out")
    throw (tooManyAttempts lockout)
  else do
    let found ← call (.findUserByEmail normalized)
    let passwordOk ← passwordOk K found password
    match found, passwordOk with
    | some user, true =>
      if user.status ≠ .active then do
        record .login false (some user.id) (some normalized) context
          (some s!"status={user.status.text}")
        throw ⟨.forbidden, "This account is not available. Contact support.", [], none⟩
      else do
        if K.prims.needsRehash user.passwordHash then do
          let upgraded ← call (.hash password)
          call (.updatePasswordHash user.id upgraded)
        let mfa ← call (.getMfaForLogin request user.id)
        if (mfa.bind MfaRecord.enabledAt).isSome then do
          let expiresAt := now + 5 * 60 * 1000
          let challengeToken ← call (.createChallenge user.id expiresAt)
          record .mfaChallenge true (some user.id) (some normalized) context
            (some "password verified")
          pure (.mfaRequired challengeToken expiresAt)
        else do
          record .login true (some user.id) (some normalized) context none
          let result ← issueSession request user context
          pure (.signedIn result)
    | _, _ => do
      record .login false (found.map User.id) (some normalized) context (some "bad credentials")
      throw incorrectCredentials

def assertPasskeyNotLocked (email : Option String) (context : RequestContext) : Service Unit := do
  match email with
  | none => pure ()
  | some email => do
    let now ← call .now
    let failures ← call (.recentFailures email (now - FAILURE_WINDOW_MS) .passkeyLogin)
    let lockout := evaluateLockout failures now
    if lockout.locked then do
      record .passkeyLogin false none (some email) context (some "locked out")
      throw (tooManyAttempts lockout)
    else pure ()

/-- Completes login after a verified assertion of one of the user's passkeys. -/
def loginWithVerifiedPasskey (request : Nat) (userId : Nat) (context : RequestContext) :
    Service AuthResult := do
  call (.passkeyAsserted request userId)
  let found ← call (.findUserById userId)
  assertPasskeyNotLocked (found.map User.email) context
  match found with
  | none => do
    record .passkeyLogin false (some userId) none context (some "missing user")
    throw ⟨.unauthorized, "This passkey could not be verified.", [], none⟩
  | some user =>
    if user.status ≠ .active then do
      record .passkeyLogin false (some userId) (some user.email) context
        (some s!"status={user.status.text}")
      throw ⟨.unauthorized, "This passkey could not be verified.", [], none⟩
    else do
      record .passkeyLogin true (some user.id) (some user.email) context none
      record .login true (some user.id) (some user.email) context (some "passkey")
      issueSession request user context

/-! ### Multi-factor authentication -/

def enrollMfa (userId : Nat) (password : String) (context : RequestContext) :
    Service (String × String) := do
  if !K.prims.cipherAvailable then
    throw ⟨.serviceUnavailable, "Authenticator security is not configured on this server.", [], none⟩
  else do
    let user ← requirePassword K userId password
    let current ← call (.getMfa user.id)
    if (current.bind MfaRecord.enabledAt).isSome then
      throw ⟨.badRequest, "Authenticator security is already enabled.", [], none⟩
    else do
      let secret ← call (.savePendingMfa user.id)
      record .mfaEnrolled true (some user.id) (some user.email) context (some "enrollment started")
      pure (secret, otpauthUri K.prims secret user.email)

def enableMfa (userId : Nat) (code : String) (context : RequestContext) :
    Service (List String) := do
  let found ← call (.findUserById userId)
  let pending ← call (.getMfa userId)
  match found, pending with
  | some user, some mfa =>
    if user.status ≠ .active ∨ mfa.enabledAt.isSome then throw setupAgain
    else do
      let secret ← decryptMfaSecret K mfa.encryptedSecret
      let now ← call .now
      if (verifyTotp K.prims secret (trim code) now).isNone then do
        record .mfaEnrolled false (some user.id) (some user.email) context
          (some "invalid confirmation code")
        throw ⟨.unauthorized, "Authenticator code is incorrect.", [], none⟩
      else do
        match ← call (.enableMfa user.id) with
        | none => throw setupAgain
        | some recoveryCodes => do
          record .mfaEnrolled true (some user.id) (some user.email) context (some "enabled")
          pure recoveryCodes
  | _, _ => throw setupAgain

/-- The factor counts only while the challenge's owner is active. -/
def challengeFactor (request : Nat) (found : Option User) (code : String) (now : Date) :
    Service Bool := do
  match found.filter (·.status = .active) with
  | none => pure false
  | some user => verifyMfaFactor K request user.id code now

def verifyMfaChallenge (request : Nat) (challengeToken : Nat) (code : String)
    (context : RequestContext) : Service AuthResult := do
  let now ← call .now
  let tokenHash := K.prims.hashToken challengeToken
  match ← call (.findChallenge tokenHash now) with
  | none => throw challengeInvalid
  | some owner => do
    let found ← call (.findUserById owner)
    let accepted ← challengeFactor K request found code now
    match found, accepted with
    | some user, true => do
      let consumed ← call (.consumeChallenge tokenHash now)
      if consumed then do
        record .mfaVerified true (some user.id) (some user.email) context none
        record .login true (some user.id) (some user.email) context (some "MFA verified")
        issueSession request user context
      else throw challengeInvalid
    | _, _ => do
      let remaining ← call (.failChallenge tokenHash now)
      record .mfaVerified false (some (found.elim owner User.id)) (found.map User.email) context
        (some "invalid second factor")
      throw (if remaining = some 0 then
        ⟨.unauthorized, "Too many incorrect codes. Sign in again.", [], none⟩ else factorIncorrect)

def disableMfa (request : Nat) (userId : Nat) (password code : String) (context : RequestContext) :
    Service Unit := do
  let user ← requirePassword K userId password
  let now ← call .now
  let accepted ← verifyMfaFactor K request user.id code now
  if accepted then do
    call (.disableMfa user.id)
    record .mfaDisabled true (some user.id) (some user.email) context none
  else do
    record .mfaDisabled false (some user.id) (some user.email) context
      (some "invalid second factor")
    throw factorIncorrect

/-! ### Account deletion -/

def requestAccountDeletion (request : Nat) (userId : Nat) (password : String)
    (mfaCode : Option String) (context : RequestContext) : Service Date := do
  let user ← requireRecentPassword K request userId password mfaCode context
  match ← call (.revokeBanks user.id) with
  | .error reason => do
    record .accountDeletionRequested false (some user.id) (some user.email) context
      (some (reason.getD "bank access revocation failed"))
    throw ⟨.serviceUnavailable,
      reason.getD "Bank access could not be revoked. Try again shortly.", [], none⟩
  | .ok _ => do
    let requestedAt ← call .now
    let purgeAfter := requestedAt + 30 * 24 * 60 * 60 * 1000
    let requested ← call (.requestDeletion user.id user.email purgeAfter)
    if requested then do
      let _ ← call (.revokeAllForUser user.id .admin requestedAt)
      record .accountDeletionRequested true (some user.id) (some user.email) context
        (some ("purge scheduled for " ++ K.prims.toISOString purgeAfter))
      pure purgeAfter
    else throw ⟨.internalServerError, "Account is not active.", [], none⟩

def cancelAccountDeletion (request : Nat) (email password : String) (context : RequestContext) :
    Service AuthResult := do
  let normalized := normalizeEmail K.prims email
  let found ← call (.findUserByEmail normalized)
  let passwordOk ← passwordOk K found password
  match found, passwordOk, found.map User.status with
  | some user, true, some .pendingDeletion => do
    let cancelled ← call (.cancelDeletion request user.id)
    if cancelled then do
      let restored := { user with status := .active }
      record .accountDeletionCancelled true (some user.id) (some normalized) context none
      issueSession request restored context
    else throw ⟨.internalServerError, "Account deletion is not pending.", [], none⟩
  | _, _, _ => do
    record .accountDeletionCancelled false (found.map User.id) (some normalized) context
      (some "bad credentials or deletion not pending")
    throw incorrectCredentials

/-! ### Verification and recovery -/

def requestEmailVerification (userId : Nat) (context : RequestContext) : Service Unit := do
  match ← call (.findUserById userId) with
  | none => throw sessionInvalid
  | some user =>
    if user.status ≠ .active then throw sessionInvalid
    else if user.emailVerifiedAt.isNone then do
      issueAuthAction user .verifyEmail
      record .emailVerificationSent true (some user.id) (some user.email) context none
    else pure ()

def confirmEmailVerification (token : Nat) (context : RequestContext) : Service Unit := do
  let now ← call .now
  match ← call (.consumeAction .verifyEmail (K.prims.hashToken token) now) with
  | none => throw verificationLinkInvalid
  | some userId => do
    match ← call (.findUserById userId) with
    | none => throw verificationLinkInvalid
    | some user =>
      if user.status ≠ .active then throw verificationLinkInvalid
      else do
        call (.markEmailVerified user.id now)
        record .emailVerified true (some user.id) (some user.email) context none

def requestPasswordReset (email : String) (context : RequestContext) : Service Unit := do
  let normalized := normalizeEmail K.prims email
  match (← call (.findUserByEmail normalized)).filter (·.status = .active) with
  | some user => do
    issueAuthAction user .resetPassword
    record .passwordResetRequested true (some user.id) (some normalized) context none
  | none => record .passwordResetRequested false none (some normalized) context none

def confirmPasswordReset (token : Nat) (password : String) (context : RequestContext) :
    Service Unit := do
  if checkPassword K.prims password none ≠ [] then
    throw (passwordRejected (checkPassword K.prims password none))
  else do
    assertPasswordNotCompromised K password
    let now ← call .now
    match ← call (.consumeAction .resetPassword (K.prims.hashToken token) now) with
    | none => throw resetLinkInvalid
    | some userId => do
      match ← call (.findUserById userId) with
      | none => throw resetLinkInvalid
      | some user =>
        if user.status ≠ .active then throw resetLinkInvalid
        else do
          let passwordHash ← call (.hash password)
          call (.updatePasswordHash user.id passwordHash)
          let _ ← call (.revokeAllForUser user.id .admin now)
          record .passwordResetCompleted true (some user.id) (some user.email) context none

/-! ### Refresh -/

/-- A rotated token came back: the whole family goes. -/
def revokeReused (familyId userId : Nat) (now : Date) (context : RequestContext) : Service Unit := do
  let revoked ← call (.revokeFamily familyId .reuseDetected now)
  record .refreshReuseDetected false (some userId) none context
    (some s!"revoked {revoked} session(s) in family {familyId}")

def refresh (request : Nat) (refreshToken : Nat) (context : RequestContext) :
    Service AuthResult := do
  let now ← call .now
  let tokenHash := K.prims.hashToken refreshToken
  let session ← call (.findSessionByTokenHash tokenHash)
  match evaluateRefresh session now with
  | .reuseDetected familyId userId => do
    revokeReused familyId userId now context
    throw sessionInvalid
  | .ok session => do
    match (← call (.findUserById session.userId)).filter (·.status = .active) with
    | none => do
      call (.revokeSession session.id .admin now)
      throw sessionInvalid
    | some user => do
      match ← call (.rotateSession request session user context now) with
      | none => do
        let current ← call (.findSessionByTokenHash tokenHash)
        match evaluateRefresh current now with
        | .reuseDetected familyId userId => do
          revokeReused familyId userId now context
          throw sessionInvalid
        | _ => throw sessionInvalid
      | some tokens => do
        record .refresh true (some user.id) none context none
        pure ⟨toPublicUser user, tokens⟩
  | _ => throw sessionInvalid

/-! ### Sign-out and sessions -/

def logout (userId sessionId : Nat) (context : RequestContext) : Service Unit := do
  let now ← call .now
  call (.revokeSession sessionId .logout now)
  record .logout true (some userId) none context none

def logoutAll (userId : Nat) (context : RequestContext) : Service Nat := do
  let now ← call .now
  let revoked ← call (.revokeAllForUser userId .logoutAll now)
  record .logoutAll true (some userId) none context (some s!"revoked {revoked}")
  pure revoked

def revokeSession (userId sessionId : Nat) (context : RequestContext) : Service Unit := do
  match ← call (.findSessionById userId sessionId) with
  | none => throw ⟨.notFound, "No such session.", [], none⟩
  | some _ => do
    let now ← call .now
    call (.revokeSession sessionId .admin now)
    record .sessionRevoked true (some userId) none context (some s!"session {sessionId}")

/-! ### The system -/

inductive Request
  | register (email password : String) (displayName : Option String)
      (legalAcceptance : LegalAcceptanceInput) (context : RequestContext)
  | login (email password : String) (context : RequestContext)
  | loginWithVerifiedPasskey (userId : Nat) (context : RequestContext)
  | enrollMfa (userId : Nat) (password : String) (context : RequestContext)
  | enableMfa (userId : Nat) (code : String) (context : RequestContext)
  | verifyMfaChallenge (challengeToken : Nat) (code : String) (context : RequestContext)
  | disableMfa (userId : Nat) (password code : String) (context : RequestContext)
  | requestAccountDeletion (userId : Nat) (password : String) (mfaCode : Option String)
      (context : RequestContext)
  | cancelAccountDeletion (email password : String) (context : RequestContext)
  | requestEmailVerification (userId : Nat) (context : RequestContext)
  | confirmEmailVerification (token : Nat) (context : RequestContext)
  | requestPasswordReset (email : String) (context : RequestContext)
  | confirmPasswordReset (token : Nat) (password : String) (context : RequestContext)
  | refresh (refreshToken : Nat) (context : RequestContext)
  | logout (userId sessionId : Nat) (context : RequestContext)
  | logoutAll (userId : Nat) (context : RequestContext)
  | revokeSession (userId sessionId : Nat) (context : RequestContext)

inductive Response
  | auth (result : AuthResult)
  | login (result : LoginResult)
  | enrollment (secret otpauthUri : String)
  | recoveryCodes (codes : List String)
  | purgeScheduledFor (date : Date)
  | revoked (count : Nat)
  | done
  deriving DecidableEq, Repr

def handle (request : Nat) : Request → Service Response
  | .register email password displayName legalAcceptance context =>
    .auth <$> register K request email password displayName legalAcceptance context
  | .login email password context => .login <$> login K request email password context
  | .loginWithVerifiedPasskey userId context =>
    .auth <$> loginWithVerifiedPasskey request userId context
  | .enrollMfa userId password context =>
    (fun r => .enrollment r.1 r.2) <$> enrollMfa K userId password context
  | .enableMfa userId code context => .recoveryCodes <$> enableMfa K userId code context
  | .verifyMfaChallenge challengeToken code context =>
    .auth <$> verifyMfaChallenge K request challengeToken code context
  | .disableMfa userId password code context =>
    (fun _ => .done) <$> disableMfa K request userId password code context
  | .requestAccountDeletion userId password mfaCode context =>
    .purgeScheduledFor <$> requestAccountDeletion K request userId password mfaCode context
  | .cancelAccountDeletion email password context =>
    .auth <$> cancelAccountDeletion K request email password context
  | .requestEmailVerification userId context =>
    (fun _ => .done) <$> requestEmailVerification userId context
  | .confirmEmailVerification token context =>
    (fun _ => .done) <$> confirmEmailVerification K token context
  | .requestPasswordReset email context => (fun _ => .done) <$> requestPasswordReset K email context
  | .confirmPasswordReset token password context =>
    (fun _ => .done) <$> confirmPasswordReset K token password context
  | .refresh refreshToken context => .auth <$> refresh K request refreshToken context
  | .logout userId sessionId context => (fun _ => .done) <$> logout userId sessionId context
  | .logoutAll userId context => .revoked <$> logoutAll userId context
  | .revokeSession userId sessionId context =>
    (fun _ => .done) <$> revokeSession userId sessionId context

def system : System ports Env World Request (Except AuthError Response) where
  machine := machine K
  serve := fun n r => (handle K n r).run

/-! ### A configuration to run the service with -/

/-- Transparent stand-ins, right for lower-case input. -/
def samplePrimitives : Primitives where
  toLowerCase := id
  toUpperCase := id
  toISOString := fun _ => ""
  encodeURIComponent := id
  hash := fun password _ => password
  verify := fun hash password => hash == password
  needsRehash := fun _ => false
  hashToken := id
  hashText := id
  totpSecret := fun _ => "SECRET"
  totpForStep := fun _ _ => "123456"
  hexDigits := fun _ => ""
  cipherAvailable := true
  encrypt := fun plain _ => plain
  decrypt := some

def sampleConfig : Config := ⟨samplePrimitives, none, true⟩

def noon : Env := { now := 1000 }

def phone : RequestContext := ⟨none, some "phone"⟩

/-- Sam signs up. -/
def signedUp : World :=
  (Pool.after (system sampleConfig)
    (.start (.register "sam@example.com" "correct horse battery" none
      ⟨false, none, false, none⟩ phone) :: List.replicate 8 (.run 0 noon)) (.idle .empty)).state

end Finverse.Auth
