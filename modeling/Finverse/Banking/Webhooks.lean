import Finverse.Framework.OrderedMap
import Finverse.Http
import Mathlib.Algebra.Group.Int.Defs
import Mathlib.Data.List.Sort

/-! Webhooks of the aggregator: the two job stores, the endpoint that fills them, and the workers
that empty them. -/

namespace Finverse.Banking

inductive WebhookStatus
  | pending
  | processing
  | completed
  | failed
  deriving DecidableEq, Repr

structure BankWebhookJob where
  id : String
  userId : String
  linkId : String
  bodyHash : String
  attempts : Nat
  availableAt : Int
  deriving DecidableEq, Repr

/-- A stored job. Whether the worker of the current attempt has read a page is history. -/
structure MemoryWebhookJob extends BankWebhookJob where
  status : WebhookStatus
  updatedAt : Int
  createdAt : Int
  read : Bool
  deriving DecidableEq, Repr

abbrev WebhookJobs : Type := OrdMap String MemoryWebhookJob

/-! ### The stores -/

/-- Where the two stores differ: when equal bodies count as one delivery, in which order jobs are
claimed, and whether completing a job sets its time. -/
structure BankWebhookStore where
  sameDelivery : (createdAt now : Int) → Bool
  claimOrder : MemoryWebhookJob → Int
  touchesCompleted : Bool

/-- Equal bodies are one delivery for an hour. -/
def InMemoryBankWebhookStore : BankWebhookStore where
  sameDelivery := fun createdAt now => now - createdAt < 60 * 60000
  claimOrder := (·.availableAt)
  touchesCompleted := false

/-- Equal bodies are one delivery in the same hour of the clock. -/
def PostgresBankWebhookStore : BankWebhookStore where
  sameDelivery := fun createdAt now => createdAt / (60 * 60000) = now / (60 * 60000)
  claimOrder := (·.createdAt)
  touchesCompleted := true

namespace BankWebhookStore

variable (S : BankWebhookStore) (jobs : WebhookJobs) (now : Int)

/-- A job of the same body is stored already. -/
def repeated (bodyHash : String) : Bool :=
  jobs.values.any fun existing =>
    existing.bodyHash == bodyHash && S.sameDelivery existing.createdAt now

def enqueue (job : BankWebhookJob) : Bool × WebhookJobs :=
  if S.repeated jobs now job.bodyHash then (false, jobs)
  else
    (true, jobs.set job.id
      { job with status := .pending, updatedAt := now, createdAt := now, read := false })

/-- The job may be claimed: it is waiting for its time, or its worker has been silent for long. -/
def due (job : MemoryWebhookJob) : Bool :=
  job.status == .pending && job.availableAt ≤ now ||
    job.status == .processing && job.updatedAt < now - 5 * 60000

def claimable (limit : Int) : List MemoryWebhookJob :=
  ((jobs.values.filter (due now)).insertionSort fun left right =>
    S.claimOrder left ≤ S.claimOrder right).take (max 1 (min limit 100)).toNat

def claim (limit : Int) : WebhookJobs :=
  jobs.map fun job =>
    if job ∈ S.claimable jobs now limit then
      { job with
        status := .processing
        attempts := job.attempts + 1
        updatedAt := now
        read := false }
    else job

/-- Changes a job of the user. -/
def modify (userId id : String) (change : MemoryWebhookJob → MemoryWebhookJob) : WebhookJobs :=
  match jobs.get? id with
  | none => jobs
  | some job => if job.userId = userId then jobs.set id (change job) else jobs

def complete (userId id : String) : WebhookJobs :=
  modify jobs userId id fun job =>
    { job with
      status := .completed
      updatedAt := if S.touchesCompleted then now else job.updatedAt }

def retry (userId id : String) (availableAt : Int) (terminal : Bool) : WebhookJobs :=
  modify jobs userId id fun job =>
    { job with
      status := if terminal then .failed else .pending
      availableAt
      updatedAt := now }

def purgeLink (userId linkId : String) : WebhookJobs :=
  jobs.filter fun _ job => !(job.userId == userId && job.linkId == linkId)

def purgeUser (userId : String) : WebhookJobs := jobs.filter fun _ job => !(job.userId == userId)

end BankWebhookStore

/-! ### The service -/

structure WebhookMessage where
  itemId : Option String
  webhookType : Option String
  webhookCode : Option String
  deriving DecidableEq, Repr

/-- What parsing makes of a body. -/
inductive WebhookPayload
  | malformed
  | null
  | message (message : WebhookMessage)
  deriving DecidableEq, Repr

structure WebhookPrimitives (Body : Type) where
  configured : Bool
  parse : Body → WebhookPayload
  sha256 : Body → String

structure BankLink where
  userId : String
  id : String
  providerItemId : String
  deriving DecidableEq, Repr

/-- A webhook: whether its signature verifies, the links as its lookup finds them, and the id and
the time a job of it would get. -/
structure Webhook (Body : Type) where
  rawBody : Body
  verified : Bool
  links : List BankLink
  jobId : String
  now : Int

structure WebhookAnswer where
  accepted : Bool
  queued : Bool
  deriving DecidableEq, Repr

/-- The item that has new transactions, when the message says so. -/
def WebhookMessage.syncUpdatesAvailable (message : WebhookMessage) : Option String :=
  message.itemId.filter fun itemId =>
    itemId ≠ "" && message.webhookType = some "TRANSACTIONS" &&
      message.webhookCode = some "SYNC_UPDATES_AVAILABLE"

variable {Body : Type} (P : WebhookPrimitives Body) (S : BankWebhookStore)

/-- The link a webhook is for, if it makes work. -/
def routed (webhook : Webhook Body) : Except HttpError (Option BankLink) := do
  throwIf (P.configured = false) (.unavailable "Plaid is not configured on this server.")
  throwIf (webhook.verified = false) (.forbidden "Invalid Plaid webhook signature.")
  match P.parse webhook.rawBody with
  | .malformed => .error (.badRequest "Invalid webhook JSON.")
  | .null => .error (.internal "Cannot read properties of null (reading 'item_id')")
  | .message message =>
    .ok (message.syncUpdatesAvailable.bind fun itemId =>
      webhook.links.find? fun link => link.providerItemId == itemId)

def acceptWebhook (webhook : Webhook Body) (jobs : WebhookJobs) :
    Except HttpError WebhookAnswer × WebhookJobs :=
  match routed P webhook with
  | .error e => (.error e, jobs)
  | .ok none => (.ok ⟨true, false⟩, jobs)
  | .ok (some link) =>
    let (queued, jobs) := S.enqueue jobs webhook.now
      { id := webhook.jobId
        userId := link.userId
        linkId := link.id
        bodyHash := P.sha256 webhook.rawBody
        attempts := 0
        availableAt := webhook.now }
    (.ok ⟨true, queued⟩, jobs)

/-- What a worker does with a claimed job after its sync. -/
def settle (job : BankWebhookJob) (synced : Bool) (now : Int) (jobs : WebhookJobs) : WebhookJobs :=
  if synced then S.complete jobs now job.userId job.id
  else
    let delayMs := min (60 * 60000) (30000 * 2 ^ (job.attempts - 1))
    BankWebhookStore.retry jobs now job.userId job.id (now + delayMs) (decide (job.attempts ≥ 5))

/-- The worker of an attempt has read a page of the provider. -/
def pageRead (id : String) (attempt : Nat) (jobs : WebhookJobs) : WebhookJobs :=
  match jobs.get? id with
  | none => jobs
  | some job => if job.attempts = attempt then jobs.set id { job with read := true } else jobs

inductive WebhookStep (Body : Type)
  | accept (webhook : Webhook Body)
  | claim (limit now : Int)
  | pageRead (id : String) (attempt : Nat)
  | settle (job : BankWebhookJob) (synced : Bool) (now : Int)
  | purgeLink (userId linkId : String)
  | purgeUser (userId : String)

def WebhookStep.apply : WebhookStep Body → WebhookJobs → WebhookJobs
  | .accept webhook, jobs => (acceptWebhook P S webhook jobs).2
  | .claim limit now, jobs => S.claim jobs now limit
  | .pageRead id attempt, jobs => Banking.pageRead id attempt jobs
  | .settle job synced now, jobs => Banking.settle S job synced now jobs
  | .purgeLink userId linkId, jobs => BankWebhookStore.purgeLink jobs userId linkId
  | .purgeUser userId, jobs => BankWebhookStore.purgeUser jobs userId

end Finverse.Banking
