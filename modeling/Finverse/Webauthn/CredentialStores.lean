import Finverse.Auth.Types
import Finverse.Framework.Table

/-! The passkey credential stores: the one in memory, and the Postgres table with its constraints. -/

namespace Finverse.Webauthn

structure WebAuthnCredential where
  credentialId : String
  publicKeyPem : String
  counter : Int
  createdAt : Date
  lastUsedAt : Option Date
  deriving DecidableEq, Repr

inductive StoreError
  | counterNotAdvanced
  | refused (violation : Sql.Violation)
  deriving DecidableEq, Repr

namespace WebAuthnCredential

/-- A counter may advance, or stay zero. -/
def advances (credential : WebAuthnCredential) (counter : Int) : Bool :=
  credential.counter < counter || credential.counter = 0 && counter = 0

def advanced (credential : WebAuthnCredential) (counter : Int) (now : Date) : WebAuthnCredential :=
  { credential with
    counter := if credential.counter = 0 ∧ counter = 0 then credential.counter else counter
    lastUsedAt := some now }

end WebAuthnCredential

/-! ### In memory -/

/-- The credentials of each user, in the order the users' buckets were opened. -/
structure InMemoryWebAuthnCredentialStore where
  byUser : OrdMap Nat (List WebAuthnCredential)

namespace InMemoryWebAuthnCredentialStore

variable (st : InMemoryWebAuthnCredentialStore)

def bucket (userId : Nat) : List WebAuthnCredential := (st.byUser.get? userId).getD []

def put (userId : Nat) (rows : List WebAuthnCredential) : InMemoryWebAuthnCredentialStore :=
  ⟨st.byUser.set userId rows⟩

/-- Looking at a bucket opens it. -/
def opened (userId : Nat) : InMemoryWebAuthnCredentialStore := st.put userId (st.bucket userId)

def register (userId : Nat) (credential : WebAuthnCredential) (createdAt : Date) :
    InMemoryWebAuthnCredentialStore :=
  st.put userId (st.bucket userId ++ [{ credential with createdAt }])

def list (userId : Nat) : List WebAuthnCredential × InMemoryWebAuthnCredentialStore :=
  (st.bucket userId, st.opened userId)

/-- The first credential with the id, bucket after bucket. -/
def findByCredentialId (credentialId : String) : Option (Nat × WebAuthnCredential) :=
  st.byUser.entries.findSome? fun (userId, rows) =>
    (rows.find? (·.credentialId = credentialId)).map (userId, ·)

def updateCounter (userId : Nat) (credentialId : String) (counter : Int) (now : Date) :
    Except StoreError Unit × InMemoryWebAuthnCredentialStore :=
  match Table.lookup WebAuthnCredential.credentialId credentialId (st.bucket userId) with
  | none => (.error .counterNotAdvanced, st.opened userId)
  | some current =>
    if current.advances counter then
      (.ok (), st.put userId (Table.modify WebAuthnCredential.credentialId credentialId
        (·.advanced counter now) (st.bucket userId)))
    else (.error .counterNotAdvanced, st.opened userId)

def remove (userId : Nat) (credentialId : String) : Bool × InMemoryWebAuthnCredentialStore :=
  ((st.bucket userId).any (·.credentialId = credentialId),
    st.put userId ((st.bucket userId).eraseP (·.credentialId = credentialId)))

def purgeUser (userId : Nat) : InMemoryWebAuthnCredentialStore := ⟨st.byUser.erase userId⟩

/-- Every stored credential, with its owner. -/
def owned : List (Nat × WebAuthnCredential) :=
  st.byUser.entries.flatMap fun (userId, rows) => rows.map (userId, ·)

end InMemoryWebAuthnCredentialStore

/-! ### Postgres -/

structure CredentialRow where
  userId : Nat
  credential : WebAuthnCredential
  deriving DecidableEq, Repr

namespace CredentialRow

open Sql

/-- The column `counter` is an integer that must not be negative. -/
def accept (row : CredentialRow) : Except Violation CredentialRow :=
  let counter := row.credential.counter
  if counter < -2 ^ 31 ∨ 2 ^ 31 ≤ counter then .error (.outOfRange "counter")
  else if counter < 0 then .error (.check "webauthn_credentials_counter_valid")
  else .ok row

/-- `known`: the users table has the row's user. -/
abbrev table (known : Bool) : Target CredentialRow CredentialRow String (Nat × String) where
  accept := accept
  arbiter := fun row => row.credential.credentialId
  primary := fun row => (row.userId, row.credential.credentialId)
  primaryName := "webauthn_credentials_global_id_idx"
  references := fun _ => known
  foreignName := "webauthn_credentials_user_id_fkey"

end CredentialRow

abbrev PostgresWebAuthnCredentialStore : Type :=
  Table.Keyed fun row : CredentialRow => row.credential.credentialId

namespace PostgresWebAuthnCredentialStore

variable (st : PostgresWebAuthnCredentialStore)

def has (userId : Nat) (credentialId : String) (row : CredentialRow) : Bool :=
  row.userId = userId && row.credential.credentialId = credentialId

def register (known : Bool) (userId : Nat) (credential : WebAuthnCredential) (createdAt : Date) :
    Except StoreError Unit × PostgresWebAuthnCredentialStore :=
  let row : CredentialRow := ⟨userId, { credential with createdAt, lastUsedAt := none }⟩
  match Sql.insert (CredentialRow.table known) .abort [row] st with
  | .ok (st, _) => (.ok (), st)
  | .error (.unique name) =>
    -- The primary key is checked before the other unique index.
    let mine := st.rows.any (has userId credential.credentialId)
    (.error (.refused (.unique (if mine then "webauthn_credentials_pkey" else name))), st)
  | .error violation => (.error (.refused violation), st)

def updateCounter (userId : Nat) (credentialId : String) (counter : Int) (now : Date) :
    Except StoreError Unit × PostgresWebAuthnCredentialStore :=
  let hit := fun row => has userId credentialId row && row.credential.advances counter
  if counter < -2 ^ 31 ∨ 2 ^ 31 ≤ counter then (.error (.refused (.outOfRange "counter")), st)
  else if st.rows.any hit then
    (.ok (), st.map
      (fun row => if hit row then { row with credential := row.credential.advanced counter now } else row)
      fun row => by split <;> rfl)
  else (.error .counterNotAdvanced, st)

def remove (userId : Nat) (credentialId : String) : Bool × PostgresWebAuthnCredentialStore :=
  (st.rows.any (has userId credentialId), st.filter fun row => !has userId credentialId row)

def purgeUser (userId : Nat) : PostgresWebAuthnCredentialStore := st.filter fun row => row.userId ≠ userId

def owned : List (Nat × WebAuthnCredential) := st.rows.map fun row => (row.userId, row.credential)

end PostgresWebAuthnCredentialStore

/-! ### Both -/

/-- What may be asked of a credential store. -/
inductive Change
  | register (userId : Nat) (credential : WebAuthnCredential) (createdAt : Date)
  | list (userId : Nat)
  | updateCounter (userId : Nat) (credentialId : String) (counter : Int)
  | remove (userId : Nat) (credentialId : String)
  | purgeUser (userId : Nat)
  deriving DecidableEq, Repr

/-- When it is asked, and whether the users table has its user. -/
structure Moment where
  now : Date
  known : Bool
  deriving DecidableEq, Repr

/-- A credential store: its contents, and what becomes of each change. -/
structure CredentialStore where
  State : Type
  empty : State
  owned : State → List (Nat × WebAuthnCredential)
  apply : Change → Moment → State → Except StoreError Unit × State

def inMemory : CredentialStore where
  State := InMemoryWebAuthnCredentialStore
  empty := ⟨∅⟩
  owned := InMemoryWebAuthnCredentialStore.owned
  apply
    | .register userId credential createdAt, _, st => (.ok (), st.register userId credential createdAt)
    | .list userId, _, st => (.ok (), (st.list userId).2)
    | .updateCounter userId credentialId counter, moment, st =>
      st.updateCounter userId credentialId counter moment.now
    | .remove userId credentialId, _, st => (.ok (), (st.remove userId credentialId).2)
    | .purgeUser userId, _, st => (.ok (), st.purgeUser userId)

def postgres : CredentialStore where
  State := PostgresWebAuthnCredentialStore
  empty := ⟨[], List.nodup_nil⟩
  owned := PostgresWebAuthnCredentialStore.owned
  apply
    | .register userId credential createdAt, moment, st =>
      st.register moment.known userId credential createdAt
    | .list _, _, st => (.ok (), st)
    | .updateCounter userId credentialId counter, moment, st =>
      st.updateCounter userId credentialId counter moment.now
    | .remove userId credentialId, _, st => (.ok (), (st.remove userId credentialId).2)
    | .purgeUser userId, _, st => (.ok (), st.purgeUser userId)

namespace CredentialStore

variable (S : CredentialStore)

/-- Where a sequence of changes leads. -/
def run (changes : List (Change × Moment)) (st : S.State) : S.State :=
  changes.foldl (fun st change => (S.apply change.1 change.2 st).2) st

def ids (st : S.State) : List String := (S.owned st).map fun entry => entry.2.credentialId

end CredentialStore

end Finverse.Webauthn
