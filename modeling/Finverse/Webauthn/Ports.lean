import Finverse.Auth.Service
import Finverse.Webauthn.CredentialStores

/-! The ports of the passkey service, which also calls those of the identity service. -/

namespace Finverse.Webauthn

open Interleave

/-! ### Challenges -/

inductive WebAuthnCeremonyPurpose
  | register
  | login
  deriving DecidableEq, Repr

structure WebAuthnChallengeRecord where
  challenge : Nat
  purpose : WebAuthnCeremonyPurpose
  userId : Option Nat
  emailAttempted : Option String
  expiresAt : Date
  deriving DecidableEq, Repr

structure ChallengeRow extends WebAuthnChallengeRecord where
  consumedAt : Option Date
  deriving DecidableEq, Repr

/-- The challenges, by the hash of the ceremony's id. -/
abbrev InMemoryWebAuthnChallengeStore : Type := OrdMap Nat ChallengeRow

namespace InMemoryWebAuthnChallengeStore

def issue (rows : InMemoryWebAuthnChallengeStore) (hash : Nat) (record : WebAuthnChallengeRecord) :
    InMemoryWebAuthnChallengeStore :=
  rows.set hash ⟨record, none⟩

def deleteExpired (rows : InMemoryWebAuthnChallengeStore) (before : Date) :
    InMemoryWebAuthnChallengeStore :=
  rows.filter fun _ row => !decide (row.expiresAt < before)

def consumable (row : ChallengeRow) (purpose : WebAuthnCeremonyPurpose) (at_ : Date) : Bool :=
  row.purpose = purpose && row.consumedAt.isNone && !decide (row.expiresAt ≤ at_)

def consume (rows : InMemoryWebAuthnChallengeStore) (hash : Nat) (purpose : WebAuthnCeremonyPurpose)
    (at_ : Date) : Option WebAuthnChallengeRecord × InMemoryWebAuthnChallengeStore :=
  match rows.get? hash with
  | none => (none, rows)
  | some row =>
    if consumable row purpose at_ then
      (some row.toWebAuthnChallengeRecord, rows.set hash { row with consumedAt := some at_ })
    else (none, rows)

end InMemoryWebAuthnChallengeStore

/-! ### Calls -/

/-- The verifier and the reader of the counter are code outside the service. -/
structure Config where
  auth : Auth.Config
  available : Bool
  rpId : String
  rpName : String
  verifyRegistration : (clientDataJson attestationObject : String) → (expectedChallenge : Nat) →
    Option (String × String)
  verifyAuthentication : (clientDataJson authenticatorData signature : String) →
    (expectedChallenge : Nat) → (credentialId publicKeyPem : String) → Bool
  readCounter : String → Option Nat

structure World where
  auth : Auth.World
  credentials : InMemoryWebAuthnCredentialStore
  challenges : InMemoryWebAuthnChallengeStore

def World.empty : World := ⟨.empty, ⟨∅⟩, ∅⟩

inductive Call
  | auth (call : Auth.Call)
  | issue (purpose : WebAuthnCeremonyPurpose) (userId : Option Nat) (emailAttempted : Option String)
  | consume (ceremonyId : Nat) (purpose : WebAuthnCeremonyPurpose)
  | deleteExpired
  | list (userId : Nat)
  | verifyRegistration (clientDataJson attestationObject : String) (expectedChallenge : Nat)
  | verifyAuthentication (clientDataJson authenticatorData signature : String)
      (expectedChallenge : Nat) (credentialId publicKeyPem : String)
  | register (userId : Nat) (credentialId publicKeyPem : String)
  | findByCredentialId (credentialId : String)
  | updateCounter (userId : Nat) (credentialId : String) (counter : Nat)
  | remove (userId : Nat) (credentialId : String)
  | purgeUser (userId : Nat)
  | notifyPasskeyChange (email : String) (added : Bool)

@[reducible] def Call.Reply : Call → Type
  | .auth call => call.Reply
  | .issue .. => Nat × Nat
  | .consume .. => Option WebAuthnChallengeRecord
  | .deleteExpired => Unit
  | .list _ => List WebAuthnCredential
  | .verifyRegistration .. => Option (String × String)
  | .verifyAuthentication .. => Bool
  | .register .. => Unit
  | .findByCredentialId _ => Option (Nat × WebAuthnCredential)
  | .updateCounter .. => Bool
  | .remove .. => Bool
  | .purgeUser _ => Unit
  | .notifyPasskeyChange .. => Unit

def ports : Interface := ⟨Call, Call.Reply⟩

/-- The calls of the identity service. -/
def authPorts : Into Auth.ports ports := ⟨Call.auth, fun _ r => r⟩

def CHALLENGE_TTL_MS : Int := 5 * 60 * 1000

/-- The next two draws are the ceremony's id and the challenge. -/
def World.issue (K : Config) (w : World) (purpose : WebAuthnCeremonyPurpose) (userId : Option Nat)
    (emailAttempted : Option String) (now : Date) : (Nat × Nat) × World :=
  let ceremonyId := w.auth.supply
  let challenge := w.auth.supply + 1
  ((ceremonyId, challenge), { w with
    auth := w.auth.draw 2
    challenges := w.challenges.issue (K.auth.prims.hashToken ceremonyId)
      ⟨challenge, purpose, userId, emailAttempted, now + CHALLENGE_TTL_MS⟩ })

/-- Runs one call. -/
def perform (K : Config) (call : Call) (env : Auth.Env) (w : World) : call.Reply × World :=
  match call with
  | .auth call =>
    let (reply, auth) := Auth.perform K.auth call env w.auth
    (reply, { w with auth })
  | .issue purpose userId emailAttempted => w.issue K purpose userId emailAttempted env.now
  | .consume ceremonyId purpose =>
    let (record, challenges) :=
      w.challenges.consume (K.auth.prims.hashToken ceremonyId) purpose env.now
    (record, { w with challenges })
  | .deleteExpired => ((), { w with challenges := w.challenges.deleteExpired env.now })
  | .list userId =>
    let (rows, credentials) := w.credentials.list userId
    (rows, { w with credentials })
  | .verifyRegistration clientDataJson attestationObject expectedChallenge =>
    (K.verifyRegistration clientDataJson attestationObject expectedChallenge, w)
  | .verifyAuthentication clientDataJson authenticatorData signature expectedChallenge credentialId
      publicKeyPem =>
    (K.verifyAuthentication clientDataJson authenticatorData signature expectedChallenge credentialId
      publicKeyPem, w)
  | .register userId credentialId publicKeyPem =>
    let credential : WebAuthnCredential := ⟨credentialId, publicKeyPem, 0, env.now, none⟩
    ((), { w with credentials := w.credentials.register userId credential env.now })
  | .findByCredentialId credentialId => (w.credentials.findByCredentialId credentialId, w)
  | .updateCounter userId credentialId counter =>
    let (result, credentials) := w.credentials.updateCounter userId credentialId counter env.now
    (result.isOk, { w with credentials })
  | .remove userId credentialId =>
    let (removed, credentials) := w.credentials.remove userId credentialId
    (removed, { w with credentials })
  | .purgeUser userId => ((), { w with credentials := w.credentials.purgeUser userId })
  | .notifyPasskeyChange .. => ((), w)

/-- Every call is ready at once. -/
def machine (K : Config) : Machine ports Auth.Env World where
  ready := fun _ _ _ => true
  exec := perform K

end Finverse.Webauthn
