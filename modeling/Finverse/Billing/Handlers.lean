import Finverse.Billing.PlanRuns
import Finverse.Framework.Pool
import Finverse.Http

/-! The steps of a webhook handler and of a checkout, each of which waits for a store or for the
provider. -/

namespace Finverse.Billing.Handlers

open Interleave

inductive BillingInterval
  | month
  | year
  deriving DecidableEq, Repr

def toPlanId (plan : String) : Option PlanId :=
  if plan = "free" then some .free else if plan = "pro" then some .pro else none

def toBillingInterval (interval : String) : Option BillingInterval :=
  if interval = "month" then some .month else if interval = "year" then some .year else none

def PURCHASABLE_PLANS : List PlanId := [.pro]

structure Config where
  configured : Bool
  priceIdFor : PlanId → BillingInterval → Option String
  successUrl : String
  cancelUrl : String

/-- What the clock and the provider decide at a call. -/
structure Env where
  now : Int
  answered : Bool := true
  customerExists : Bool := true
  newCustomerId : String := "customer"
  session : Except String (String × Option Int) := .ok ("url", none)

/-- The subscriptions at the provider and the events it has sent; and here, the events seen, the
subscription rows and the email of each user. -/
structure World where
  provider : OrdMap String ProviderSubscription
  sent : List BillingEvent
  seen : List String
  subscriptions : InMemorySubscriptionStore
  users : OrdMap String String

inductive Call
  | claim (event : BillingEvent)
  | findUserByCustomerId (customerId : String)
  | get (userId : String)
  | fetchSubscription (providerSubscriptionId : String)
  | upsert (subscription : Subscription)
  | findUser (userId : String)
  | now
  | ensureCustomer (userId email : String) (existingId : Option String)
  | createSession (customerId : String) (plan : PlanId) (interval : BillingInterval)
      (userId successUrl cancelUrl : String)
  | send (event : BillingEvent)

@[reducible] def Call.Reply : Call → Type
  | .claim _ => Bool
  | .findUserByCustomerId _ => Option String
  | .get _ => Option Subscription
  | .fetchSubscription _ => Option ProviderSubscription
  | .upsert _ => Except String Unit
  | .findUser _ => Option String
  | .now => Int
  | .ensureCustomer .. => String
  | .createSession .. => Except String (String × Option Int)
  | .send _ => Unit

def ports : Interface := ⟨Call, Call.Reply⟩

/-- Runs one call. A row is stamped with the time at which it is written. -/
def perform (call : Call) (env : Env) (w : World) : call.Reply × World :=
  match call with
  | .claim event =>
    if event.id ∈ w.seen then (false, w) else (true, { w with seen := w.seen ++ [event.id] })
  | .findUserByCustomerId customerId => (w.subscriptions.findUserByCustomerId customerId, w)
  | .get userId => (w.subscriptions.get? userId, w)
  | .fetchSubscription id => (if env.answered then w.provider.get? id else none, w)
  | .upsert subscription =>
    match w.subscriptions.upsert { subscription with updatedAt := env.now } with
    | .error message => (.error message, w)
    | .ok subscriptions => (.ok (), { w with subscriptions })
  | .findUser userId => (w.users.get? userId, w)
  | .now => (env.now, w)
  | .ensureCustomer _ _ existingId =>
    ((existingId.filter fun _ => env.customerExists).getD env.newCustomerId, w)
  | .createSession .. => (env.session, w)
  | .send event => ((), { w with
      provider := match event.subscription with
        | some subscription => w.provider.set subscription.providerSubscriptionId subscription
        | none => w.provider
      sent := w.sent ++ [event] })

/-- Only events that the provider has sent arrive, and each has an id of its own. -/
def machine : Machine ports Env World where
  ready := fun call _ w =>
    match call with
    | .claim event => event ∈ w.sent
    | .send event => event.id ∉ w.sent.map BillingEvent.id
    | _ => true
  exec := perform

/-! ### The service -/

abbrev Service (α : Type) : Type := Task ports HttpError α

def call (c : Call) : Service c.Reply := Task.call (I := ports) c

variable (K : Config)

/-- The state to store: what the provider says now of the subscription that the event names, or else
of the one stored, and without an answer what the event says. -/
def authoritative (event : BillingEvent) (existing : Option Subscription) :
    Service (Option ProviderSubscription) := do
  match (event.subscription.map (·.providerSubscriptionId)).or
      (existing.bind (·.providerSubscriptionId)) with
  | some subscriptionId => do
    let fetched ← call (.fetchSubscription subscriptionId)
    pure (fetched.or event.subscription)
  | none => pure event.subscription

def store (subscription : Subscription) : Service Unit := do
  match ← call (.upsert subscription) with
  | .ok () => pure ()
  | .error message => throw (.internal message)

def persist (userId customerId : String) (subscription : ProviderSubscription) : Service Unit :=
  store (persisted userId customerId 0 subscription)

def applyEvent (event : BillingEvent) : Service Outcome := do
  if event.kind = .ignored then pure .ignored
  else do
    let fresh ← call (.claim event)
    if fresh then
      match event.providerCustomerId with
      | none => pure .ignored
      | some customerId =>
        match ← call (.findUserByCustomerId customerId) with
        | none => pure .ignored
        | some userId => do
          let existing ← call (.get userId)
          match ← authoritative event existing with
          | none => pure .ignored
          | some subscription => do
            persist userId customerId subscription
            pure .applied
    else pure .duplicate

/-- The row that a checkout leaves behind: the one it read, for the customer who is to pay. -/
def awaiting (userId customerId : String) (existing : Option Subscription) : Subscription where
  userId
  plan := (existing.map (·.plan)).getD .free
  status := (existing.map (·.status)).getD .incomplete
  providerCustomerId := customerId
  providerSubscriptionId := existing.bind (·.providerSubscriptionId)
  currentPeriodEnd := existing.bind (·.currentPeriodEnd)
  cancelAtPeriodEnd := (existing.map (·.cancelAtPeriodEnd)).getD false
  trialEnd := existing.bind (·.trialEnd)
  updatedAt := 0

/-- What a checkout asks to be sold, or why it cannot be. -/
def soldAs (plan interval : String) : Except HttpError (PlanId × BillingInterval) :=
  if !K.configured then .error (.unavailable "Billing is not configured on this deployment.")
  else
    match (toPlanId plan).filter (· ∈ PURCHASABLE_PLANS) with
    | none => .error (.badRequest s!"Unknown or unpurchasable plan \"{plan}\".")
    | some planId =>
      match toBillingInterval interval with
      | none => .error (.badRequest s!"Unknown billing interval \"{interval}\".")
      | some billingInterval =>
        if (K.priceIdFor planId billingInterval).getD "" = "" then
          .error (.badRequest s!"The {plan} plan is not sold {interval}ly on this deployment.")
        else .ok (planId, billingInterval)

def createCheckoutSession (userId plan interval : String) : Service (String × Option Int) := do
  match soldAs K plan interval with
  | .error e => throw e
  | .ok (planId, billingInterval) =>
    match ← call (.findUser userId) with
    | none => throw (.badRequest "Account not found.")
    | some email => do
      let existing ← call (.get userId)
      let now ← call .now
      if effectivePlan (existing.map Subscription.state) now = planId then
        throw (.badRequest "You are already subscribed to that plan.")
      else do
        let customerId ← call (.ensureCustomer userId email (existing.map (·.providerCustomerId)))
        store (awaiting userId customerId existing)
        match ← call (.createSession customerId planId billingInterval userId K.successUrl K.cancelUrl) with
        | .ok session => pure session
        | .error message => throw (.internal message)

/-! ### The system -/

/-- A webhook handler, a checkout, or the provider, which changes a subscription or completes a
checkout. -/
inductive Request
  | applyEvent (event : BillingEvent)
  | checkout (userId plan interval : String)
  | change (eventId type : String) (subscription : ProviderSubscription)
  | completeCheckout (eventId type customerId : String)
  deriving DecidableEq, Repr

inductive Answer
  | outcome (outcome : Outcome)
  | session (url : String) (expiresAt : Option Int)
  | sent
  deriving DecidableEq, Repr

def handle : Request → Service Answer
  | .applyEvent event => Answer.outcome <$> applyEvent event
  | .checkout userId plan interval =>
    (fun session => Answer.session session.1 session.2) <$> createCheckoutSession K userId plan interval
  | .change eventId type subscription =>
    (fun _ => Answer.sent) <$> call (.send (changed eventId type subscription))
  | .completeCheckout eventId type customerId =>
    (fun _ => Answer.sent) <$> call (.send (completedCheckout eventId type customerId))

def system : System ports Env World Request (Except HttpError Answer) where
  machine := machine
  serve := fun _ r => (handle K r).run

end Finverse.Billing.Handlers
