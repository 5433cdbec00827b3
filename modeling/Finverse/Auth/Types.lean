import Finverse.Framework.OrderedMap

/-! Identity and session types. A random identifier or token is the number of the draw that
produced it. -/

namespace Finverse

/-- Milliseconds since the epoch. -/
abbrev Date := Int

namespace Auth

inductive UserStatus
  | active
  | locked
  | pendingDeletion
  deriving DecidableEq, Repr

def UserStatus.text : UserStatus → String
  | .active => "active"
  | .locked => "locked"
  | .pendingDeletion => "pending_deletion"

structure User where
  id : Nat
  email : String
  passwordHash : String
  displayName : Option String
  emailVerifiedAt : Option Date
  status : UserStatus
  createdAt : Date
  deletedAt : Option Date
  deriving DecidableEq, Repr

/-- A user as it may be sent to a client. -/
structure PublicUser where
  id : Nat
  email : String
  displayName : Option String
  emailVerified : Bool
  createdAt : Date
  deriving DecidableEq, Repr

def toPublicUser (user : User) : PublicUser where
  id := user.id
  email := user.email
  displayName := user.displayName
  emailVerified := user.emailVerifiedAt.isSome
  createdAt := user.createdAt

inductive RevokedReason
  | rotated
  | logout
  | logoutAll
  | reuseDetected
  | admin
  deriving DecidableEq, Repr

structure Session where
  id : Nat
  userId : Nat
  familyId : Nat
  tokenHash : Nat
  issuedAt : Date
  expiresAt : Date
  lastUsedAt : Option Date
  revokedAt : Option Date
  revokedReason : Option RevokedReason
  userAgent : Option String
  ipAddress : Option String
  deriving DecidableEq, Repr

inductive AuthEventKind
  | register
  | login
  | logout
  | logoutAll
  | refresh
  | refreshReuseDetected
  | sessionRevoked
  | accountDeletionRequested
  | accountDeletionCancelled
  | emailVerificationSent
  | emailVerified
  | passwordResetRequested
  | passwordResetCompleted
  | mfaEnrolled
  | mfaChallenge
  | mfaVerified
  | mfaDisabled
  | passkeyLogin
  | passkeyStepUp
  | passkeyRegistered
  | passkeyRemoved
  deriving DecidableEq, Repr

structure AuthEvent where
  id : Nat
  userId : Option Nat
  emailAttempted : Option String
  kind : AuthEventKind
  succeeded : Bool
  ipAddress : Option String
  userAgent : Option String
  detail : Option String
  createdAt : Date
  deriving DecidableEq, Repr

/-- What an access token carries. -/
structure AccessToken where
  sub : Nat
  sid : Nat
  exp : Date
  deriving DecidableEq, Repr

structure TokenPair where
  accessToken : AccessToken
  expiresIn : Int
  refreshToken : Nat
  refreshExpiresAt : Date
  deriving DecidableEq, Repr

structure MfaRecord where
  userId : Nat
  encryptedSecret : String
  enabledAt : Option Date
  lastUsedStep : Option Int
  deriving DecidableEq, Repr

inductive ConsentKind
  | terms
  | privacyNotice
  deriving DecidableEq, Repr

structure ConsentEvent where
  id : Nat
  userId : Nat
  kind : ConsentKind
  granted : Bool
  policyVersion : String
  source : String
  createdAt : Date
  deriving DecidableEq, Repr

inductive AuthActionKind
  | verifyEmail
  | resetPassword
  deriving DecidableEq, Repr

/-- Where a request came from. -/
structure RequestContext where
  ipAddress : Option String
  userAgent : Option String
  deriving DecidableEq, Repr

structure LegalAcceptanceInput where
  acceptedTerms : Bool
  termsVersion : Option String
  acceptedPrivacyNotice : Bool
  privacyVersion : Option String
  deriving DecidableEq, Repr

inductive PasswordBreachResult
  | safe
  | compromised (occurrences : Nat)
  | unavailable
  deriving DecidableEq, Repr

inductive HttpStatus
  | badRequest
  | unauthorized
  | forbidden
  | notFound
  | conflict
  | tooManyRequests
  | serviceUnavailable
  | internalServerError
  deriving DecidableEq, Repr

structure AuthError where
  status : HttpStatus
  message : String
  problems : List String := []
  retryAfterSeconds : Option Int := none
  deriving DecidableEq, Repr

end Auth

end Finverse
