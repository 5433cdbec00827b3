import Finverse.Webauthn.Ports

/-! The passkey service. -/

namespace Finverse.Webauthn

open Interleave
open Auth (AuthError AuthResult AuthEventKind PublicUser RequestContext User)

abbrev Service (α : Type) : Type := Task ports AuthError α

def call (c : Call) : Service c.Reply := Task.call (I := ports) c

/-- What the identity service does for this one. -/
def auth {α : Type} (m : Auth.Service α) : Service α := m.via authPorts

def recordAuthEvent (kind : AuthEventKind) (succeeded : Bool) (userId : Option Nat)
    (emailAttempted : Option String) (context : RequestContext) (detail : Option String) :
    Service Unit :=
  call (.auth (.record kind succeeded userId emailAttempted context detail))

/-! ### Errors -/

def passkeysNotEnabled : AuthError :=
  ⟨.serviceUnavailable, "Passkeys are not enabled on this server yet.", [], none⟩

def setupAgain : AuthError := ⟨.notFound, "Start passkey setup again.", [], none⟩

def failedLogin : AuthError := ⟨.unauthorized, "This passkey could not be verified.", [], none⟩

variable (K : Config)

def requireConfig : Service Unit := if K.available then pure () else throw passkeysNotEnabled

/-! ### Registration -/

structure RegistrationOptions where
  ceremonyId : Nat
  rpId : String
  rpName : String
  userId : Nat
  name : String
  displayName : String
  challenge : Nat
  excludeCredentials : List String
  alg : Int := -7
  timeout : Nat := 60000
  attestation : String := "none"
  residentKey : String := "required"
  userVerification : String := "required"
  deriving DecidableEq, Repr

def registrationOptions (user : PublicUser) : Service RegistrationOptions := do
  requireConfig K
  let (ceremonyId, challenge) ← call (.issue .register (some user.id) (some user.email))
  let existing ← call (.list user.id)
  pure {
    ceremonyId, rpId := K.rpId, rpName := K.rpName, userId := user.id, name := user.email,
    displayName := user.displayName.getD user.email, challenge,
    excludeCredentials := existing.map WebAuthnCredential.credentialId }

structure RegistrationBody where
  id : String
  ceremonyId : Nat
  clientDataJson : String
  attestationObject : String
  deriving DecidableEq, Repr

/-- Tells the owner, if there is one to tell. -/
def notifyChange (user : Option User) (added : Bool) : Service Unit := do
  match (user.map User.email).filter (· ≠ "") with
  | none => pure ()
  | some email => call (.notifyPasskeyChange email added)

def registrationVerify (userId : Nat) (body : RegistrationBody) (context : RequestContext) :
    Service String := do
  requireConfig K
  match ← call (.consume body.ceremonyId .register) with
  | none => throw setupAgain
  | some ceremony =>
    if ceremony.userId ≠ some userId then throw setupAgain
    else
      match ← call (.verifyRegistration body.clientDataJson body.attestationObject
          ceremony.challenge) with
      | none => throw setupAgain
      | some (credentialId, publicKeyPem) =>
        if credentialId ≠ body.id then throw setupAgain
        else do
          call (.register userId credentialId publicKeyPem)
          let user ← call (.auth (.findUserById userId))
          recordAuthEvent .passkeyRegistered true (some userId) (user.map User.email) context none
          notifyChange user true
          pure credentialId

/-! ### Login -/

structure LoginOptions where
  ceremonyId : Nat
  rpId : String
  rpName : String
  challenge : Nat
  timeout : Nat := 60000
  userVerification : String := "required"
  deriving DecidableEq, Repr

/-- A missing or empty address belongs to no user. -/
def findByAddress (email : Option String) : Service (Option User) := do
  match email.filter (· ≠ "") with
  | none => pure none
  | some email => call (.auth (.findUserByEmail email))

def loginOptions (email : Option String) : Service LoginOptions := do
  requireConfig K
  let normalized := (email.filter (· ≠ "")).map (Auth.normalizeEmail K.auth.prims)
  let user ← findByAddress normalized
  let (ceremonyId, challenge) ← call (.issue .login (user.map User.id) normalized)
  pure { ceremonyId, rpId := K.rpId, rpName := K.rpName, challenge }

structure LoginBody where
  id : String
  ceremonyId : Nat
  clientDataJson : String
  authenticatorData : String
  signature : String
  deriving DecidableEq, Repr

/-- The user that owns the credential, as long as there is one. -/
def findOwner (owned : Option (Nat × WebAuthnCredential)) : Service (Option User) := do
  match owned with
  | none => pure none
  | some (userId, _) => call (.auth (.findUserById userId))

def assertOwnerNotLocked (owned : Option (Nat × WebAuthnCredential)) (email : Option String)
    (context : RequestContext) : Service Unit :=
  if owned.isSome then auth (Auth.assertPasskeyNotLocked (email.filter (· ≠ "")) context) else pure ()

/-- Whether the signature is right and the counter advances. -/
def assertion (body : LoginBody) (challenge : Nat) (userId : Nat) (publicKeyPem : String) :
    Service Bool := do
  let verified ← call (.verifyAuthentication body.clientDataJson body.authenticatorData
    body.signature challenge body.id publicKeyPem)
  if verified then
    match K.readCounter body.authenticatorData with
    | none => pure false
    | some counter => call (.updateCounter userId body.id counter)
  else pure false

/-- The credential is stored, and the challenge was issued for its owner if for anyone. -/
def accepted (ceremony : WebAuthnChallengeRecord) (owned : Option (Nat × WebAuthnCredential)) :
    Option (Nat × WebAuthnCredential) :=
  owned.filter fun (userId, _) => ceremony.userId.all (· = userId)

def loginVerify (request : Nat) (body : LoginBody) (context : RequestContext) :
    Service AuthResult := do
  requireConfig K
  match ← call (.consume body.ceremonyId .login) with
  | none => throw failedLogin
  | some ceremony => do
    let owned ← call (.findByCredentialId body.id)
    let owner ← findOwner owned
    let ownerEmail := (owner.map User.email).or ceremony.emailAttempted
    assertOwnerNotLocked owned ownerEmail context
    match accepted ceremony owned with
    | none => do
      recordAuthEvent .passkeyLogin false ceremony.userId ceremony.emailAttempted context
        (some "unknown credential")
      throw failedLogin
    | some (userId, credential) => do
      if ← assertion K body ceremony.challenge userId credential.publicKeyPem then
        auth (Auth.loginWithVerifiedPasskey request userId context)
      else do
        recordAuthEvent .passkeyLogin false (some userId) ownerEmail context (some "assertion failed")
        throw failedLogin

/-! ### Management -/

structure ListedCredential where
  credentialId : String
  createdAt : Date
  lastUsedAt : Option Date
  deriving DecidableEq, Repr

def listCredentials (userId : Nat) : Service (List ListedCredential) := do
  let rows ← call (.list userId)
  pure (rows.map fun row => ⟨row.credentialId, row.createdAt, row.lastUsedAt⟩)

def removeCredential (userId : Nat) (credentialId : String) (context : RequestContext) :
    Service Bool := do
  let removed ← call (.remove userId credentialId)
  let user ← call (.auth (.findUserById userId))
  recordAuthEvent .passkeyRemoved removed (some userId) (user.map User.email) context
    (if removed then none else some "unknown credential")
  if removed then notifyChange user false else pure ()
  pure removed

/-! ### The system -/

/-- The requests to this service and to the identity service, and the upkeep of the stores. -/
inductive Request
  | registrationOptions (user : PublicUser)
  | registrationVerify (userId : Nat) (body : RegistrationBody) (context : RequestContext)
  | loginOptions (email : Option String)
  | loginVerify (body : LoginBody) (context : RequestContext)
  | listCredentials (userId : Nat)
  | removeCredential (userId : Nat) (credentialId : String) (context : RequestContext)
  | purgeUser (userId : Nat)
  | deleteExpired
  | auth (request : Auth.Request)

inductive Response
  | registrationOptions (options : RegistrationOptions)
  | loginOptions (options : LoginOptions)
  | registered (credentialId : String)
  | credentials (listed : List ListedCredential)
  | removed (removed : Bool)
  | auth (response : Auth.Response)
  | done
  deriving DecidableEq, Repr

def handle (request : Nat) : Request → Service Response
  | .registrationOptions user => .registrationOptions <$> registrationOptions K user
  | .registrationVerify userId body context => .registered <$> registrationVerify K userId body context
  | .loginOptions email => .loginOptions <$> loginOptions K email
  | .loginVerify body context => (.auth ∘ .auth) <$> loginVerify K request body context
  | .listCredentials userId => .credentials <$> listCredentials userId
  | .removeCredential userId credentialId context =>
    .removed <$> removeCredential userId credentialId context
  | .purgeUser userId => (fun _ => .done) <$> call (.purgeUser userId)
  | .deleteExpired => (fun _ => .done) <$> call .deleteExpired
  | .auth r => .auth <$> auth (Auth.handle K.auth request r)

def system : System ports Auth.Env World Request (Except AuthError Response) where
  machine := machine K
  serve := fun n r => (handle K n r).run

end Finverse.Webauthn
