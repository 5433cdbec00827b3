import Finverse.Framework.Pool
import Finverse.Auth.Stores

/-! The ports of the identity service. One call is one uninterrupted segment of the service: the
synchronous code that prepares its arguments, and the body of the store operation. -/

namespace Finverse.Auth

open Interleave

/-- The versions that a registration must accept, when legal documents are configured. -/
structure LegalVersions where
  terms : String
  privacyNotice : String
  deriving DecidableEq, Repr

structure Config where
  prims : Primitives
  legal : Option LegalVersions
  breachCheckRequired : Bool

/-- What the environment decides at a call: the clock, the breach corpus, mail delivery and the
bank aggregator. -/
structure Env where
  now : Date
  breach : PasswordBreachResult := .safe
  delivered : Bool := true
  banksRevoked : Except (Option String) Unit := .ok ()

/-- What a request did that bears on second factors, for the record only. -/
inductive Trail
  | waived (request : Nat) (userId : Nat)
  | asserted (request : Nat) (userId : Nat)
  | accepted (request : Nat) (userId : Nat)
  | issued (request : Nat) (userId : Nat) (mfaEnabled : Bool)
  deriving DecidableEq, Repr

/-- `redeemed` and `trail` are histories: no call reads them. -/
structure World where
  supply : Nat
  users : UserStore
  sessions : SessionStore
  events : List AuthEvent
  mfa : MfaStore
  deletions : DeletionStore
  actions : List ActionRow
  consents : List ConsentEvent
  decoyHash : Option String
  redeemed : List (Nat × Nat)
  trail : List Trail

def World.empty : World where
  supply := 0
  users := ⟨∅⟩
  sessions := ⟨∅⟩
  events := []
  mfa := ⟨∅, ∅, ∅⟩
  deletions := ⟨∅⟩
  actions := []
  consents := []
  decoyHash := none
  redeemed := []
  trail := []

inductive Call
  | now
  | checkBreach (password : String)
  | hash (password : String)
  | decoyHash
  | createRegistration (request : Nat) (email passwordHash : String)
      (displayName : Option String)
  | record (kind : AuthEventKind) (succeeded : Bool) (userId : Option Nat)
      (emailAttempted : Option String) (context : RequestContext) (detail : Option String)
  | recentFailures (email : String) (since : Date) (kind : AuthEventKind)
  | findUserByEmail (email : String)
  | findUserById (id : Nat)
  | updatePasswordHash (userId : Nat) (passwordHash : String)
  | markEmailVerified (userId : Nat) (at_ : Date)
  | issueAction (userId : Nat) (kind : AuthActionKind)
  | sendAction (email : String) (kind : AuthActionKind) (token : Nat)
  | consumeAction (kind : AuthActionKind) (tokenHash : Nat) (at_ : Date)
  | getMfa (userId : Nat)
  | getMfaForLogin (request : Nat) (userId : Nat)
  | savePendingMfa (userId : Nat)
  | enableMfa (userId : Nat)
  | disableMfa (userId : Nat)
  | acceptTotpStep (request : Nat) (userId : Nat) (step : Int)
  | consumeRecoveryCode (request : Nat) (userId : Nat) (codeHash : String) (at_ : Date)
  | createChallenge (userId : Nat) (expiresAt : Date)
  | findChallenge (tokenHash : Nat) (at_ : Date)
  | consumeChallenge (tokenHash : Nat) (at_ : Date)
  | failChallenge (tokenHash : Nat) (at_ : Date)
  | passkeyAsserted (request : Nat) (userId : Nat)
  | revokeBanks (userId : Nat)
  | requestDeletion (userId : Nat) (email : String) (purgeAfter : Date)
  | cancelDeletion (request : Nat) (userId : Nat)
  | createSession (request : Nat) (user : User) (context : RequestContext)
  | findSessionByTokenHash (tokenHash : Nat)
  | findSessionById (userId sessionId : Nat)
  | rotateSession (request : Nat) (session : Session) (user : User) (context : RequestContext)
      (at_ : Date)
  | revokeSession (sessionId : Nat) (reason : RevokedReason) (at_ : Date)
  | revokeFamily (familyId : Nat) (reason : RevokedReason) (at_ : Date)
  | revokeAllForUser (userId : Nat) (reason : RevokedReason) (at_ : Date)

@[reducible] def Call.Reply : Call → Type
  | .now => Date
  | .checkBreach _ => PasswordBreachResult
  | .hash _ => String
  | .decoyHash => String
  | .createRegistration .. => Option User
  | .record .. => Unit
  | .recentFailures .. => List Date
  | .findUserByEmail _ => Option User
  | .findUserById _ => Option User
  | .updatePasswordHash .. => Unit
  | .markEmailVerified .. => Unit
  | .issueAction .. => Nat
  | .sendAction .. => Bool
  | .consumeAction .. => Option Nat
  | .getMfa _ => Option MfaRecord
  | .getMfaForLogin .. => Option MfaRecord
  | .savePendingMfa _ => String
  | .enableMfa _ => Option (List String)
  | .disableMfa _ => Unit
  | .acceptTotpStep .. => Bool
  | .consumeRecoveryCode .. => Bool
  | .createChallenge .. => Nat
  | .findChallenge .. => Option Nat
  | .consumeChallenge .. => Bool
  | .failChallenge .. => Option Nat
  | .passkeyAsserted .. => Unit
  | .revokeBanks _ => Except (Option String) Unit
  | .requestDeletion .. => Bool
  | .cancelDeletion .. => Bool
  | .createSession .. => TokenPair
  | .findSessionByTokenHash _ => Option Session
  | .findSessionById .. => Option Session
  | .rotateSession .. => Option TokenPair
  | .revokeSession .. => Unit
  | .revokeFamily .. => Nat
  | .revokeAllForUser .. => Nat

def ports : Interface := ⟨Call, Call.Reply⟩

/-! ### Sessions and tokens -/

def REFRESH_TOKEN_TTL_MS : Int := 30 * 24 * 60 * 60 * 1000

def ACCESS_TOKEN_TTL_SECONDS : Int := 15 * 60

/-- The draws from `supply` on give the session id, the refresh token and, for a new family, the
family id. -/
def buildSession (P : Primitives) (supply : Nat) (user : User) (familyId : Option Nat)
    (context : RequestContext) (now : Date) : Session × TokenPair :=
  let sessionId := supply
  let refreshToken := supply + 1
  let expiresAt := now + REFRESH_TOKEN_TTL_MS
  (⟨sessionId, user.id, familyId.getD (supply + 2), P.hashToken refreshToken, now, expiresAt, none,
      none, none, context.userAgent, context.ipAddress⟩,
    ⟨⟨user.id, sessionId, now + ACCESS_TOKEN_TTL_SECONDS * 1000⟩, ACCESS_TOKEN_TTL_SECONDS,
      refreshToken, expiresAt⟩)

/-- The acceptance evidence of a registration. -/
def legalEvents (legal : Option LegalVersions) (supply userId : Nat) (acceptedAt : Date) :
    List ConsentEvent :=
  match legal with
  | none => []
  | some versions =>
    [⟨supply, userId, .terms, true, versions.terms, "registration", acceptedAt⟩,
      ⟨supply + 1, userId, .privacyNotice, true, versions.privacyNotice, "registration",
        acceptedAt⟩]

namespace World

def note (w : World) (entry : Trail) : World := { w with trail := w.trail ++ [entry] }

def draw (w : World) (n : Nat) : World := { w with supply := w.supply + n }

def issueAction (P : Primitives) (w : World) (userId : Nat) (kind : AuthActionKind) (now : Date) :
    Nat × World :=
  let token := w.supply
  let lifetime := match kind with
    | .verifyEmail => 24 * 60 * 60 * 1000
    | .resetPassword => 60 * 60 * 1000
  (token, { w.draw 1 with
    actions := Auth.issueAction w.actions userId kind (P.hashToken token) (now + lifetime) now })

def createRegistration (K : Config) (w : World) (request : Nat) (email passwordHash : String)
    (displayName : Option String) (now : Date) : Option User × World :=
  let userId := w.supply
  match w.users.create userId email passwordHash displayName now with
  | none => (none, w.draw 3)
  | some (user, users) =>
    (some user, { (w.draw 3).note (.waived request userId) with
      users
      consents := w.consents ++ legalEvents K.legal (w.supply + 1) userId now })

def createSession (P : Primitives) (w : World) (request : Nat) (user : User)
    (context : RequestContext) (now : Date) : TokenPair × World :=
  let (session, tokens) := buildSession P w.supply user none context now
  (tokens, { (w.draw 3).note (.issued request user.id (w.mfa.enabled user.id)) with
    sessions := w.sessions.create session })

def rotateSession (P : Primitives) (w : World) (request : Nat) (session : Session) (user : User)
    (context : RequestContext) (at_ now : Date) : Option TokenPair × World :=
  let (successor, tokens) := buildSession P w.supply user (some session.familyId) context now
  match w.sessions.rotate session.id successor at_ with
  | none => (none, w.draw 3)
  | some sessions =>
    (some tokens, { w.draw 3 with
      sessions
      redeemed := (request, session.tokenHash) :: w.redeemed })

end World

/-- Runs one call. -/
def perform (K : Config) (call : Call) (env : Env) (w : World) : call.Reply × World :=
  let P := K.prims
  match call with
  | .now => (env.now, w)
  | .checkBreach _ => (env.breach, w)
  | .hash password => (P.hash password w.supply, w.draw 1)
  | .decoyHash =>
    match w.decoyHash with
    | some hash => (hash, w)
    | none =>
      let hash := P.hash (P.hexDigits w.supply) (w.supply + 1)
      (hash, { w.draw 2 with decoyHash := some hash })
  | .createRegistration request email passwordHash displayName =>
    w.createRegistration K request email passwordHash displayName env.now
  | .record kind succeeded userId emailAttempted context detail =>
    ((), { w.draw 1 with
      events := w.events ++ [⟨w.supply, userId, emailAttempted, kind, succeeded,
        context.ipAddress, context.userAgent, detail, env.now⟩] })
  | .recentFailures email since kind => (Auth.recentFailures w.events email since kind, w)
  | .findUserByEmail email => (w.users.findByEmail email, w)
  | .findUserById id => (w.users.findById id, w)
  | .updatePasswordHash userId passwordHash =>
    ((), { w with users := w.users.updatePasswordHash userId passwordHash })
  | .markEmailVerified userId at_ => ((), { w with users := w.users.markEmailVerified userId at_ })
  | .issueAction userId kind => w.issueAction P userId kind env.now
  | .sendAction .. => (env.delivered, w)
  | .consumeAction kind tokenHash at_ =>
    match Auth.consumeAction kind tokenHash at_ w.actions with
    | some (userId, actions) => (some userId, { w with actions })
    | none => (none, w)
  | .getMfa userId => (w.mfa.records.get? userId, w)
  | .getMfaForLogin request userId =>
    (w.mfa.records.get? userId,
      if w.mfa.enabled userId then w else w.note (.waived request userId))
  | .savePendingMfa userId =>
    let secret := P.totpSecret w.supply
    (secret, { w.draw 2 with
      mfa := w.mfa.savePending userId (P.encrypt secret (w.supply + 1)) })
  | .enableMfa userId =>
    let codes := (List.range 10).map fun k => generateRecoveryCode P (w.supply + k)
    match w.mfa.enable userId (codes.map (hashRecoveryCode P)) env.now with
    | some mfa => (some codes, { w.draw 10 with mfa })
    | none => (none, w.draw 10)
  | .disableMfa userId => ((), { w with mfa := w.mfa.disable userId })
  | .acceptTotpStep request userId step =>
    match w.mfa.acceptTotpStep userId step with
    | some mfa => (true, { w.note (.accepted request userId) with mfa })
    | none => (false, w)
  | .consumeRecoveryCode request userId codeHash at_ =>
    match w.mfa.consumeRecoveryCode userId codeHash at_ with
    | some mfa => (true, { w.note (.accepted request userId) with mfa })
    | none => (false, w)
  | .createChallenge userId expiresAt =>
    (w.supply, { w.draw 1 with
      mfa := w.mfa.createChallenge (P.hashToken w.supply) userId expiresAt })
  | .findChallenge tokenHash at_ => (w.mfa.findChallenge tokenHash at_, w)
  | .consumeChallenge tokenHash at_ =>
    match w.mfa.consumeChallenge tokenHash at_ with
    | some mfa => (true, { w with mfa })
    | none => (false, w)
  | .failChallenge tokenHash at_ =>
    match w.mfa.failChallenge tokenHash at_ with
    | some (remaining, mfa) => (some remaining, { w with mfa })
    | none => (none, w)
  | .passkeyAsserted request userId => ((), w.note (.asserted request userId))
  | .revokeBanks _ => (env.banksRevoked, w)
  | .requestDeletion userId email purgeAfter =>
    match w.deletions.request w.users userId email purgeAfter with
    | some (deletions, users) => (true, { w with deletions, users })
    | none => (false, w)
  | .cancelDeletion request userId =>
    match w.deletions.cancel w.users userId with
    | some (deletions, users) =>
      (true, { w.note (.waived request userId) with deletions, users })
    | none => (false, w)
  | .createSession request user context => w.createSession P request user context env.now
  | .findSessionByTokenHash tokenHash => (w.sessions.findByTokenHash tokenHash, w)
  | .findSessionById userId sessionId => (w.sessions.findById userId sessionId, w)
  | .rotateSession request session user context at_ =>
    w.rotateSession P request session user context at_ env.now
  | .revokeSession sessionId reason at_ =>
    ((), { w with sessions := w.sessions.revoke sessionId reason at_ })
  | .revokeFamily familyId reason at_ =>
    let (sessions, count) := w.sessions.revokeFamily familyId reason at_
    (count, { w with sessions })
  | .revokeAllForUser userId reason at_ =>
    let (sessions, count) := w.sessions.revokeAllForUser userId reason at_
    (count, { w with sessions })

/-- Every call is ready at once. -/
def machine (K : Config) : Machine ports Env World where
  ready := fun _ _ _ => true
  exec := perform K

end Finverse.Auth
