import Finverse.Auth.Domain

/-! The in-memory identity stores. -/

namespace Finverse.Auth

/-! ### Users -/

structure UserStore where
  byId : OrdMap Nat User

namespace UserStore

def findByEmail (st : UserStore) (email : String) : Option User :=
  st.byId.values.find? fun user => user.email == email && user.deletedAt.isNone

def findById (st : UserStore) (id : Nat) : Option User :=
  (st.byId.get? id).filter fun user => user.deletedAt.isNone

/-- `none` stands for the duplicate-email error. -/
def create (st : UserStore) (id : Nat) (email passwordHash : String) (displayName : Option String)
    (createdAt : Date) : Option (User × UserStore) :=
  if (st.findByEmail email).isSome then none
  else
    let user : User :=
      { id, email, passwordHash, displayName, emailVerifiedAt := none, status := .active,
        createdAt, deletedAt := none }
    some (user, ⟨st.byId.set id user⟩)

def modify (st : UserStore) (userId : Nat) (change : User → User) : UserStore :=
  match st.byId.get? userId with
  | some user => ⟨st.byId.set userId (change user)⟩
  | none => st

def updatePasswordHash (st : UserStore) (userId : Nat) (passwordHash : String) : UserStore :=
  st.modify userId fun user => { user with passwordHash }

def setStatus (st : UserStore) (userId : Nat) (status : UserStatus) : UserStore :=
  st.modify userId fun user => { user with status }

def markEmailVerified (st : UserStore) (userId : Nat) (at_ : Date) : UserStore :=
  st.modify userId fun user => { user with emailVerifiedAt := some at_ }

end UserStore

/-! ### Sessions -/

structure SessionStore where
  byId : OrdMap Nat Session

namespace SessionStore

def create (st : SessionStore) (session : Session) : SessionStore :=
  ⟨st.byId.set session.id session⟩

def revoked (session : Session) (reason : RevokedReason) (at_ : Date) : Session :=
  { session with revokedAt := some at_, revokedReason := some reason }

/-- `none` when the session has already been spent or revoked. -/
def rotate (st : SessionStore) (sessionId : Nat) (successor : Session) (at_ : Date) :
    Option SessionStore :=
  match st.byId.get? sessionId with
  | none => none
  | some current =>
    if current.revokedAt.isSome then none
    else some ⟨(st.byId.set sessionId (revoked current .rotated at_)).set successor.id successor⟩

def findByTokenHash (st : SessionStore) (tokenHash : Nat) : Option Session :=
  st.byId.values.find? fun session => session.tokenHash == tokenHash

def findById (st : SessionStore) (userId sessionId : Nat) : Option Session :=
  (st.byId.get? sessionId).filter fun session => session.userId == userId

/-- An already revoked row keeps its first reason. -/
def revoke (st : SessionStore) (sessionId : Nat) (reason : RevokedReason) (at_ : Date) :
    SessionStore :=
  match st.byId.get? sessionId with
  | none => st
  | some session =>
    if session.revokedAt.isSome then st
    else ⟨st.byId.set sessionId (revoked session reason at_)⟩

/-- Revokes the unrevoked sessions that `p` selects, and counts them. -/
def revokeWhere (st : SessionStore) (p : Session → Bool) (reason : RevokedReason) (at_ : Date) :
    SessionStore × Nat :=
  let hit := fun session => p session && session.revokedAt.isNone
  (⟨st.byId.sweep Session.id hit fun session => revoked session reason at_⟩,
    (st.byId.values.filter hit).length)

def revokeFamily (st : SessionStore) (familyId : Nat) (reason : RevokedReason) (at_ : Date) :
    SessionStore × Nat :=
  st.revokeWhere (fun session => session.familyId == familyId) reason at_

def revokeAllForUser (st : SessionStore) (userId : Nat) (reason : RevokedReason) (at_ : Date) :
    SessionStore × Nat :=
  st.revokeWhere (fun session => session.userId == userId) reason at_

end SessionStore

/-! ### Audit trail -/

/-- Failure timestamps of one address, for the lockout. -/
def recentFailures (events : List AuthEvent) (email : String) (since : Date)
    (kind : AuthEventKind) : List Date :=
  (events.filter fun e => !e.succeeded && e.kind == kind && e.emailAttempted == some email &&
    decide (since ≤ e.createdAt)).map AuthEvent.createdAt

/-! ### Second factors -/

structure RecoveryRow where
  hash : String
  usedAt : Option Date
  deriving DecidableEq, Repr

structure ChallengeRow where
  userId : Nat
  expiresAt : Date
  usedAt : Option Date
  failedAttempts : Nat
  deriving DecidableEq, Repr

structure MfaStore where
  records : OrdMap Nat MfaRecord
  recovery : OrdMap Nat (List RecoveryRow)
  challenges : OrdMap Nat ChallengeRow

/-- Marks the first unused code with this hash. -/
def spendRecovery (codeHash : String) (at_ : Date) : List RecoveryRow → Option (List RecoveryRow)
  | [] => none
  | row :: rows =>
    if row.hash = codeHash ∧ row.usedAt = none then some ({ row with usedAt := some at_ } :: rows)
    else (spendRecovery codeHash at_ rows).map (row :: ·)

namespace MfaStore

def savePending (st : MfaStore) (userId : Nat) (encryptedSecret : String) : MfaStore :=
  { st with
    records := st.records.set userId ⟨userId, encryptedSecret, none, none⟩
    recovery := st.recovery.erase userId }

def enable (st : MfaStore) (userId : Nat) (hashes : List String) (at_ : Date) : Option MfaStore :=
  match st.records.get? userId with
  | none => none
  | some row =>
    if row.enabledAt.isSome then none
    else some { st with
      records := st.records.set userId { row with enabledAt := some at_ }
      recovery := st.recovery.set userId (hashes.map fun hash => ⟨hash, none⟩) }

def disable (st : MfaStore) (userId : Nat) : MfaStore where
  records := st.records.erase userId
  recovery := st.recovery.erase userId
  challenges := st.challenges.filter fun _ challenge => challenge.userId != userId

def acceptTotpStep (st : MfaStore) (userId : Nat) (step : Int) : Option MfaStore :=
  match st.records.get? userId with
  | none => none
  | some row =>
    if row.enabledAt.isNone || row.lastUsedStep.any (decide <| step ≤ ·) then none
    else some { st with records := st.records.set userId { row with lastUsedStep := some step } }

def consumeRecoveryCode (st : MfaStore) (userId : Nat) (codeHash : String) (at_ : Date) :
    Option MfaStore :=
  match st.recovery.get? userId with
  | none => none
  | some rows =>
    (spendRecovery codeHash at_ rows).map fun rows =>
      { st with recovery := st.recovery.set userId rows }

def createChallenge (st : MfaStore) (tokenHash userId : Nat) (expiresAt : Date) : MfaStore :=
  { st with challenges := st.challenges.set tokenHash ⟨userId, expiresAt, none, 0⟩ }

/-- The challenge under this hash, while it is unused and has not expired. -/
def live (st : MfaStore) (tokenHash : Nat) (at_ : Date) : Option ChallengeRow :=
  (st.challenges.get? tokenHash).filter fun row =>
    row.usedAt.isNone && decide (row.expiresAt > at_)

def findChallenge (st : MfaStore) (tokenHash : Nat) (at_ : Date) : Option Nat :=
  (st.live tokenHash at_).map ChallengeRow.userId

def consumeChallenge (st : MfaStore) (tokenHash : Nat) (at_ : Date) : Option MfaStore :=
  (st.live tokenHash at_).map fun row =>
    { st with challenges := st.challenges.set tokenHash { row with usedAt := some at_ } }

/-- Attempts left, and the fifth failure uses the challenge up. -/
def failChallenge (st : MfaStore) (tokenHash : Nat) (at_ : Date) : Option (Nat × MfaStore) :=
  (st.live tokenHash at_).map fun row =>
    let failedAttempts := row.failedAttempts + 1
    let usedAt := if failedAttempts ≥ 5 then some at_ else row.usedAt
    (5 - failedAttempts, { st with
      challenges := st.challenges.set tokenHash { row with failedAttempts, usedAt } })

/-- The user's record is enabled. -/
def enabled (st : MfaStore) (userId : Nat) : Bool :=
  (st.records.get? userId).any fun record => record.enabledAt.isSome

end MfaStore

/-! ### Action tokens -/

structure ActionRow where
  userId : Nat
  kind : AuthActionKind
  tokenHash : Nat
  expiresAt : Date
  usedAt : Option Date
  deriving DecidableEq, Repr

/-- A new link of a kind invalidates the user's unused ones. -/
def issueAction (rows : List ActionRow) (userId : Nat) (kind : AuthActionKind) (tokenHash : Nat)
    (expiresAt now : Date) : List ActionRow :=
  (rows.map fun row =>
    if row.userId = userId ∧ row.kind = kind ∧ row.usedAt = none then
      { row with usedAt := some now } else row) ++
    [⟨userId, kind, tokenHash, expiresAt, none⟩]

def consumeAction (kind : AuthActionKind) (tokenHash : Nat) (at_ : Date) :
    List ActionRow → Option (Nat × List ActionRow)
  | [] => none
  | row :: rows =>
    if row.kind = kind ∧ row.tokenHash = tokenHash ∧ row.usedAt = none ∧ row.expiresAt > at_ then
      some (row.userId, { row with usedAt := some at_ } :: rows)
    else (consumeAction kind tokenHash at_ rows).map fun found => (found.1, row :: found.2)

/-! ### Account deletion -/

structure PendingDeletion where
  email : String
  purgeAfter : Date
  deriving DecidableEq, Repr

structure DeletionStore where
  pending : OrdMap Nat PendingDeletion

/-- `none` when the account is not active. -/
def DeletionStore.request (st : DeletionStore) (users : UserStore) (userId : Nat) (email : String)
    (purgeAfter : Date) : Option (DeletionStore × UserStore) :=
  match users.findById userId with
  | some user =>
    if user.status = .active then
      some (⟨st.pending.set userId ⟨email, purgeAfter⟩⟩,
        users.setStatus userId .pendingDeletion)
    else none
  | none => none

/-- `none` when no deletion is pending. -/
def DeletionStore.cancel (st : DeletionStore) (users : UserStore) (userId : Nat) :
    Option (DeletionStore × UserStore) :=
  match users.findById userId with
  | some user =>
    if user.status = .pendingDeletion ∧ (st.pending.get? userId).isSome then
      some (⟨st.pending.erase userId⟩, users.setStatus userId .active)
    else none
  | none => none

end Finverse.Auth
