import Finverse.Auth.Domain
import Finverse.Billing.Plans
import Finverse.Framework.Pool
import Finverse.Framework.Table
import Finverse.Http

/-! Bank links: the in-memory store, and the service that connects, synchronizes and disconnects
them. What a synchronization brings to the ledger is not followed here. -/

namespace Finverse.Banking.Links

open Interleave Billing

inductive BankLinkStatus
  | healthy
  | syncing
  | needsReauth
  | error
  | revoked
  deriving DecidableEq, Repr

/-- A random id is the number of the draw that produced it. -/
structure BankLink where
  id : Nat
  providerItemId : String
  institutionId : Option String
  institutionName : String
  encryptedAccessToken : String
  cursor : Option String
  status : BankLinkStatus
  errorCode : Option String
  lastSyncedAt : Option Int
  createdAt : Int
  deriving DecidableEq, Repr

/-! ### The store -/

structure InMemoryBankLinkStore where
  rows : OrdMap String (List BankLink)
  syncStartedAt : OrdMap (String × Nat) Int

namespace InMemoryBankLinkStore

variable (st : InMemoryBankLinkStore) (userId : String) (id : Nat)

def list : List BankLink := (st.rows.get? userId).getD []

def put (links : List BankLink) : InMemoryBankLinkStore := { st with rows := st.rows.set userId links }

def get : Option BankLink := Table.lookup BankLink.id id (st.list userId)

def create (link : BankLink) : InMemoryBankLinkStore := st.put userId (st.list userId ++ [link])

/-- Changes the link. Its synchronization is over unless the change is that it started. -/
def update (change : BankLink → BankLink) (starts : Bool) :
    Option BankLink × InMemoryBankLinkStore :=
  match st.get userId id with
  | none => (none, st)
  | some link =>
    let st := st.put userId (Table.modify BankLink.id id change (st.list userId))
    (some (change link),
      if starts then st else { st with syncStartedAt := st.syncStartedAt.erase (userId, id) })

def SYNC_STALE_MS : Int := 5 * 60000

/-- Starts the synchronization, unless another one started less than five minutes ago. -/
def startSync (now : Int) : Option BankLink × InMemoryBankLinkStore :=
  match st.get userId id with
  | none => (none, st)
  | some link =>
    if link.status = .syncing ∧
        (st.syncStartedAt.get? (userId, id)).any fun startedAt => now - startedAt < SYNC_STALE_MS then
      (none, st)
    else
      update { st with syncStartedAt := st.syncStartedAt.set (userId, id) now } userId id
        (fun link => { link with status := .syncing, errorCode := none }) true

def remove : Bool × InMemoryBankLinkStore :=
  if (st.get userId id).isSome then
    (true, { st.put userId ((st.list userId).eraseP (·.id = id)) with
      syncStartedAt := st.syncStartedAt.erase (userId, id) })
  else (false, st)

end InMemoryBankLinkStore

/-! ### Calls -/

structure Config where
  configured : Bool
  gatesEnforced : Bool
  encrypt : String → String
  decrypt : String → Option String

/-- What the clock, the aggregator and the ledger decide at a call. Errors are error codes. -/
structure Env where
  now : Int
  exchanged : Except String (String × String) := .ok ("item", "access")
  pulled : Except String (Option String) := .ok none
  reconciled : Except String Unit := .ok ()
  removed : Except String Unit := .ok ()

structure World where
  supply : Nat
  links : InMemoryBankLinkStore
  subscriptions : InMemorySubscriptionStore

inductive Call
  | list (userId : String)
  | currentPlan (userId : String)
  | exchangePublicToken (publicToken : String)
  | create (userId itemId : String) (institutionId : Option String)
      (institutionName encryptedAccessToken : String)
  | get (userId : String) (id : Nat)
  | startSync (userId : String) (id : Nat)
  | pull (accessToken : String) (cursor : Option String)
  | markHealthy (userId : String) (id : Nat) (cursor : Option String)
  | reconcile (userId : String)
  | markFailed (userId : String) (id : Nat) (code : String)
  | notifySyncFailure (userId : String) (code : String)
  | removeItem (accessToken : String)
  | purgeWebhooks (userId : String) (id : Nat)
  | remove (userId : String) (id : Nat)

@[reducible] def Call.Reply : Call → Type
  | .list _ => List BankLink
  | .currentPlan _ => PlanId
  | .exchangePublicToken _ => Except String (String × String)
  | .create .. => BankLink
  | .get .. => Option BankLink
  | .startSync .. => Option BankLink
  | .pull .. => Except String (Option String)
  | .markHealthy .. => Option BankLink
  | .reconcile _ => Except String Unit
  | .markFailed .. => Option BankLink
  | .notifySyncFailure .. => Unit
  | .removeItem _ => Except String Unit
  | .purgeWebhooks .. => Unit
  | .remove .. => Bool

def ports : Interface := ⟨Call, Call.Reply⟩

/-- Runs one call. -/
def perform (call : Call) (env : Env) (w : World) : call.Reply × World :=
  match call with
  | .list userId => (w.links.list userId, w)
  | .currentPlan userId =>
    (effectivePlan ((w.subscriptions.get? userId).map Subscription.state) env.now, w)
  | .exchangePublicToken _ => (env.exchanged, w)
  | .create userId itemId institutionId institutionName encryptedAccessToken =>
    let link : BankLink := ⟨w.supply, itemId, institutionId, institutionName, encryptedAccessToken,
      none, .healthy, none, none, env.now⟩
    (link, { w with supply := w.supply + 1, links := w.links.create userId link })
  | .get userId id => (w.links.get userId id, w)
  | .startSync userId id =>
    let (link, links) := w.links.startSync userId id env.now
    (link, { w with links })
  | .pull .. => (env.pulled, w)
  | .markHealthy userId id cursor =>
    let (link, links) := w.links.update userId id (fun link => { link with
      cursor, status := .healthy, errorCode := none, lastSyncedAt := some env.now }) false
    (link, { w with links })
  | .reconcile _ => (env.reconciled, w)
  | .markFailed userId id code =>
    let (link, links) := w.links.update userId id (fun link => { link with
      status := if code = "ITEM_LOGIN_REQUIRED" then .needsReauth else .error
      errorCode := some code }) false
    (link, { w with links })
  | .notifySyncFailure .. => ((), w)
  | .removeItem _ => (env.removed, w)
  | .purgeWebhooks .. => ((), w)
  | .remove userId id =>
    let (removed, links) := w.links.remove userId id
    (removed, { w with links })

def machine : Machine ports Env World where
  ready := fun _ _ _ => true
  exec := perform

/-! ### The service -/

abbrev Service (α : Type) : Type := Task ports HttpError α

def call (c : Call) : Service c.Reply := Task.call (I := ports) c

variable (K : Config)

def requireConfigured : Service Unit :=
  if K.configured then pure () else throw (.unavailable "Plaid is not configured on this server.")

def providerFailure (code fallback : String) : HttpError :=
  if code = "INVALID_FIELD" then
    .unavailable "Bank connection setup is incomplete on this server."
  else if code = "INVALID_PUBLIC_TOKEN" then
    .badRequest "That bank connection session is invalid or expired. Start again."
  else if code = "ITEM_LOGIN_REQUIRED" then
    .unavailable "This bank connection needs you to sign in again."
  else .unavailable fallback

/-- How many more institutions the user may connect. Without gates there is no limit. -/
def remainingBankLinks (userId : String) (connected : Nat) : Service (Option Nat) := do
  if K.gatesEnforced then do
    let plan ← call (.currentPlan userId)
    pure (some (bankLinkLimitFor plan - connected))
  else pure none

/-- The aggregator's part of a synchronization, and what follows it. -/
def synchronize (userId : String) (linkId : Nat) (link : BankLink) :
    Service (Except String Unit) := do
  match K.decrypt link.encryptedAccessToken with
  | none => pure (.error "PROVIDER_ERROR")
  | some accessToken =>
    match ← call (.pull accessToken link.cursor) with
    | .error code => pure (.error code)
    | .ok cursor => do
      let _ ← call (.markHealthy userId linkId cursor)
      call (.reconcile userId)

def sync (userId : String) (linkId : Nat) : Service Unit := do
  requireConfigured K
  match ← call (.get userId linkId) with
  | none => throw (.notFound "Bank connection not found.")
  | some _ =>
    match ← call (.startSync userId linkId) with
    | none => throw (.conflict "A synchronization is already in progress.")
    | some link =>
      match ← synchronize K userId linkId link with
      | .ok () => pure ()
      | .error code => do
        let _ ← call (.markFailed userId linkId code)
        call (.notifySyncFailure userId code)
        throw (.unavailable "Bank synchronization failed.")

def connected (link : BankLink) : Bool := link.status != .revoked

/-- The name as stored. A character stands for a code unit. -/
def storedName (institutionName : String) : String :=
  let name := String.ofList ((Auth.trim institutionName).toList.take 160)
  if name = "" then "Connected institution" else name

def exchange (userId publicToken institutionName : String) (institutionId : Option String) :
    Service (Option BankLink) := do
  requireConfigured K
  if publicToken = "" ∨ publicToken.length > 500 then throw (.badRequest "Invalid public token.")
  else do
    -- Checked before the exchange, which creates an item at the aggregator.
    let links ← call (.list userId)
    let connected := links.countP connected
    let remaining ← remainingBankLinks K userId connected
    if remaining = some 0 then
      throw (.forbidden s!"Your plan allows {connected} connected institution(s).")
    else
      match ← call (.exchangePublicToken publicToken) with
      | .error code => throw (providerFailure code "That bank connection could not be completed.")
      | .ok (itemId, accessToken) => do
        let link ← call (.create userId itemId institutionId (storedName institutionName)
          (K.encrypt accessToken))
        -- The connection stays when its first synchronization fails.
        tryCatch (sync K userId link.id) fun _ => pure ()
        call (.get userId link.id)

def disconnect (userId : String) (linkId : Nat) : Service Unit := do
  requireConfigured K
  match ← call (.get userId linkId) with
  | none => throw (.notFound "Bank connection not found.")
  | some link =>
    match K.decrypt link.encryptedAccessToken with
    | none => throw (.unavailable "Could not revoke bank access.")
    | some accessToken => do
      match ← call (.removeItem accessToken) with
      | .ok () => pure ()
      | .error code =>
        if code = "ITEM_NOT_FOUND" then pure ()
        else throw (.unavailable "Could not revoke bank access.")
      call (.purgeWebhooks userId linkId)
      let _ ← call (.remove userId linkId)

/-! ### The system -/

inductive Request
  | exchange (userId publicToken institutionName : String) (institutionId : Option String)
  | disconnect (userId : String) (linkId : Nat)
  deriving DecidableEq, Repr

def handle : Request → Service (Option BankLink)
  | .exchange userId publicToken institutionName institutionId =>
    exchange K userId publicToken institutionName institutionId
  | .disconnect userId linkId => (fun _ => none) <$> disconnect K userId linkId

def system : System ports Env World Request (Except HttpError (Option BankLink)) where
  machine := machine
  serve := fun _ r => (handle K r).run

end Finverse.Banking.Links
