import Finverse.Framework.OrderedMap

/-! Billing events: the in-memory stores, and the service that applies an event. -/

namespace Finverse.Billing

inductive PlanId
  | free
  | pro
  deriving DecidableEq, Repr

inductive SubscriptionStatus
  | trialing
  | active
  | pastDue
  | canceled
  | incomplete
  | incompleteExpired
  | unpaid
  | paused
  deriving DecidableEq, Repr

structure Subscription where
  userId : String
  plan : PlanId
  status : SubscriptionStatus
  providerCustomerId : String
  providerSubscriptionId : Option String
  currentPeriodEnd : Option Int
  cancelAtPeriodEnd : Bool
  trialEnd : Option Int
  updatedAt : Int
  deriving DecidableEq, Repr

structure ProviderSubscription where
  providerSubscriptionId : String
  providerCustomerId : String
  plan : PlanId
  status : SubscriptionStatus
  currentPeriodEnd : Option Int
  cancelAtPeriodEnd : Bool
  trialEnd : Option Int
  deriving DecidableEq, Repr

inductive BillingEventKind
  | checkoutCompleted
  | subscriptionUpdated
  | subscriptionDeleted
  | ignored
  deriving DecidableEq, Repr

structure BillingEvent where
  id : String
  type : String
  kind : BillingEventKind
  providerCustomerId : Option String
  subscription : Option ProviderSubscription
  deriving DecidableEq, Repr

/-! ### Stores -/

/-- The subscription of each user. -/
abbrev InMemorySubscriptionStore : Type := OrdMap String Subscription

namespace InMemorySubscriptionStore

/-- Some other user has the customer. -/
def taken (rows : InMemorySubscriptionStore) (subscription : Subscription) : Bool :=
  rows.entries.any fun row =>
    row.1 != subscription.userId &&
      row.2.providerCustomerId == subscription.providerCustomerId

def upsert (rows : InMemorySubscriptionStore) (subscription : Subscription) :
    Except String InMemorySubscriptionStore :=
  if rows.taken subscription then
    .error "That billing customer already belongs to another account."
  else .ok (rows.set subscription.userId subscription)

def findUserByCustomerId (rows : InMemorySubscriptionStore) (providerCustomerId : String) :
    Option String :=
  (rows.entries.find? fun row => row.2.providerCustomerId == providerCustomerId).map Prod.fst

end InMemorySubscriptionStore

/-- The event ids seen, the subscriptions, and the history of the events whose effect on a
subscription row is complete. -/
structure World where
  seen : List String
  subscriptions : InMemorySubscriptionStore
  completed : List String

def World.start (subscriptions : InMemorySubscriptionStore) : World := ⟨[], subscriptions, []⟩

def World.claim (w : World) (eventId : String) : Bool × World :=
  if eventId ∈ w.seen then (false, w) else (true, { w with seen := w.seen ++ [eventId] })

/-! ### The service -/

/-- The call at which the processing of a delivery fails. -/
inductive FailurePoint
  | claim
  | findUserByCustomerId
  | get
  | fetchSubscription
  | upsert
  | answer
  deriving DecidableEq, Repr

/-- A delivery of an event: where it fails, if it does, and what the provider answers meanwhile. -/
structure Delivery where
  event : BillingEvent
  failsAt : Option FailurePoint
  fetched : String → Option ProviderSubscription
  now : Int

inductive Outcome
  | applied
  | duplicate
  | ignored
  deriving DecidableEq, Repr

/-- The row a provider subscription is stored as. -/
def persisted (userId customerId : String) (now : Int) (subscription : ProviderSubscription) :
    Subscription where
  userId
  plan := if subscription.status = .canceled then .free else subscription.plan
  status := subscription.status
  providerCustomerId := customerId
  providerSubscriptionId := some subscription.providerSubscriptionId
  currentPeriodEnd := subscription.currentPeriodEnd
  cancelAtPeriodEnd := subscription.cancelAtPeriodEnd
  trialEnd := subscription.trialEnd
  updatedAt := now

/-- The id of the subscription to read, and the state to store: what the provider says now, or else
what the event says. -/
def authoritative (d : Delivery) (existing : Option Subscription) : Option ProviderSubscription :=
  let subscriptionId := (d.event.subscription.map (·.providerSubscriptionId)).or
    (existing.bind (·.providerSubscriptionId))
  match subscriptionId with
  | some subscriptionId => (d.fetched subscriptionId).or d.event.subscription
  | none => d.event.subscription

/-- Whether the subscription is read from the provider at all. -/
def fetches (d : Delivery) (existing : Option Subscription) : Bool :=
  ((d.event.subscription.map (·.providerSubscriptionId)).or
    (existing.bind (·.providerSubscriptionId))).isSome

def persist (d : Delivery) (userId customerId : String) (subscription : ProviderSubscription)
    (w : World) : Option Outcome × World :=
  if d.failsAt = some .upsert then (none, w)
  else
    match w.subscriptions.upsert (persisted userId customerId d.now subscription) with
    | .error _ => (none, w)
    | .ok subscriptions =>
      let w := { w with subscriptions, completed := w.completed ++ [d.event.id] }
      (if d.failsAt = some .answer then none else some .applied, w)

/-- What follows a fresh claim. -/
def applyClaimed (d : Delivery) (w : World) : Option Outcome × World :=
  match d.event.providerCustomerId with
  | none => (some .ignored, w)
  | some customerId =>
    if d.failsAt = some .findUserByCustomerId then (none, w)
    else
      match w.subscriptions.findUserByCustomerId customerId with
      | none => (some .ignored, w)
      | some userId =>
        if d.failsAt = some .get then (none, w)
        else
          let existing := w.subscriptions.get? userId
          if d.failsAt = some .fetchSubscription && fetches d existing then (none, w)
          else
            match authoritative d existing with
            | none => (some .ignored, w)
            | some subscription => persist d userId customerId subscription w

/-- Applies a verified event. Without an outcome, the delivery failed. -/
def applyEvent (d : Delivery) (w : World) : Option Outcome × World :=
  if d.event.kind = .ignored then (some .ignored, w)
  else if d.failsAt = some .claim then (none, w)
  else
    let (fresh, w) := w.claim d.event.id
    if fresh then applyClaimed d w else (some .duplicate, w)

end Finverse.Billing
