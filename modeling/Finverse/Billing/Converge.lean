import Finverse.Billing.Handlers
import Finverse.Framework.History

/-! Handlers and checkouts at the same time: whether the stored row ends up as what the provider says. -/

namespace Finverse.Billing.Handlers

open Interleave

/-! ### What the requests ask for -/

/-- What a handler of an event stores it fetched, after it had claimed the event. -/
structure ApplyAsks (event : BillingEvent) (h : List (Event ports)) (op : Call) : Prop where
  stores : ∀ row, op = .upsert row → ∃ id fetched subscription,
    ⟨.fetchSubscription id, fetched⟩ ∈ h ∧ fetched.or event.subscription = some subscription ∧
      row = persisted row.userId row.providerCustomerId 0 subscription
  fetches : ∀ id, op = .fetchSubscription id → ⟨.claim event, true⟩ ∈ h
  sends : ∀ event', op ≠ .send event'

/-- What a checkout stores it read. -/
structure CheckoutAsks (userId : String) (h : List (Event ports)) (op : Call) : Prop where
  stores : ∀ row, op = .upsert row → row.userId = userId ∧ ∃ existing, ⟨.get userId, existing⟩ ∈ h ∧
    row = awaiting userId row.providerCustomerId existing
  sends : ∀ event', op ≠ .send event'

/-- What each request may ask for. -/
def Request.Asks : Request → List (Event ports) → Call → Prop
  | .applyEvent event => ApplyAsks event
  | .checkout userId _ _ => CheckoutAsks userId
  | .change .. | .completeCheckout .. => fun _ op => ∀ row, op ≠ .upsert row

/-- The calls that store nothing, fetch nothing and send nothing. -/
def Call.plain : Call → Bool
  | .upsert _ | .fetchSubscription _ | .send _ => false
  | _ => true

section Asks

variable {K : Config} {h : List (Event ports)} {userId customerId : String} {event : BillingEvent}

theorem call_bind_asks {α : Type} {D : List (Event ports) → Call → Prop} {c : Call}
    {f : c.Reply → Service α} {ok : List (Event ports) → α → Prop}
    {err : List (Event ports) → HttpError → Prop} :
    Task.Asks (I := ports) D ok err h (call c >>= f) ↔
      D h c ∧ ∀ r : c.Reply, Task.Asks (I := ports) D ok err (h ++ [⟨c, r⟩]) (f r) :=
  Task.asks_call_bind (I := ports)

theorem call_asks {D : List (Event ports) → Call → Prop} {c : Call}
    {ok : List (Event ports) → c.Reply → Prop} {err : List (Event ports) → HttpError → Prop} :
    Task.Asks (I := ports) D ok err h (call c) ↔ D h c ∧ ∀ r : c.Reply, ok (h ++ [⟨c, r⟩]) r :=
  Task.asks_call (I := ports)

theorem apply_plain {c : Call} (plain : c.plain = true) : ApplyAsks event h c where
  stores := by rintro row rfl; cases plain
  fetches := by rintro id rfl; cases plain
  sends := by rintro e rfl; cases plain

theorem checkout_plain {c : Call} (plain : c.plain = true) : CheckoutAsks userId h c where
  stores := by rintro row rfl; cases plain
  sends := by rintro e rfl; cases plain

theorem store_asks {D : List (Event ports) → Call → Prop} {row : Subscription}
    (allowed : D h (.upsert row)) :
    Task.Asks (I := ports) D (fun _ _ => True) (fun _ _ => True) h (store row) := by
  refine call_bind_asks.mpr ⟨allowed, fun reply => ?_⟩
  cases reply <;> trivial

/-- What is found is what the provider says, or else what the event does. -/
theorem authoritative_asks {existing : Option Subscription} (claimed : ⟨.claim event, true⟩ ∈ h) :
    Task.Asks (I := ports) (ApplyAsks event) (fun h' found => ∀ subscription, found = some subscription →
      ∃ id fetched, ⟨.fetchSubscription id, fetched⟩ ∈ h' ∧
        fetched.or event.subscription = some subscription)
      (fun _ _ => True) h (authoritative event existing) := by
  unfold authoritative
  split
  · rename_i id _
    refine call_bind_asks.mpr ⟨⟨fun _ => nofun, fun _ _ => claimed, fun _ => nofun⟩, fun fetched => ?_⟩
    exact fun subscription found => ⟨id, fetched, by simp, found⟩
  · rename_i none_
    intro subscription found
    rw [found] at none_
    cases none_

theorem applyEvent_asks : Task.Asks (I := ports) (ApplyAsks event) (fun _ _ => True) (fun _ _ => True)
    [] (applyEvent event) := by
  unfold applyEvent
  split
  · trivial
  · refine call_bind_asks.mpr ⟨apply_plain rfl, fun fresh => ?_⟩
    cases fresh with
    | false => trivial
    | true =>
      rw [if_pos rfl]
      split
      · trivial
      · rename_i customerId _
        refine call_bind_asks.mpr ⟨apply_plain rfl, fun found => ?_⟩
        cases found with
        | none => trivial
        | some userId =>
          refine call_bind_asks.mpr ⟨apply_plain rfl, fun existing => ?_⟩
          refine Task.asks_bind.mpr ((authoritative_asks (by simp)).weaken ?_ fun _ _ _ => trivial)
          intro h' found told
          cases found with
          | none => trivial
          | some subscription =>
            obtain ⟨id, fetched, there, taken⟩ := told subscription rfl
            refine Task.asks_bind.mpr ((store_asks ⟨?_, fun _ => nofun, fun _ => nofun⟩).weaken
              (fun _ _ _ => trivial) fun _ _ _ => trivial)
            intro row same
            obtain rfl := Call.upsert.inj same
            exact ⟨id, fetched, subscription, there, taken, rfl⟩

theorem createCheckoutSession_asks (plan interval : String) :
    Task.Asks (I := ports) (CheckoutAsks userId) (fun _ _ => True) (fun _ _ => True) []
      (createCheckoutSession K userId plan interval) := by
  unfold createCheckoutSession
  split
  · trivial
  · refine call_bind_asks.mpr ⟨checkout_plain rfl, fun found => ?_⟩
    cases found with
    | none => trivial
    | some email =>
      refine call_bind_asks.mpr ⟨checkout_plain rfl, fun existing => ?_⟩
      refine call_bind_asks.mpr ⟨checkout_plain rfl, fun now => ?_⟩
      split
      · trivial
      · refine call_bind_asks.mpr ⟨checkout_plain rfl, fun customerId => ?_⟩
        refine Task.asks_bind.mpr ((store_asks ⟨?_, fun _ => nofun⟩).weaken ?_ fun _ _ _ => trivial)
        · intro h' _ _
          refine call_bind_asks.mpr ⟨checkout_plain rfl, fun session => ?_⟩
          cases session <;> trivial
        · intro row same
          obtain rfl := Call.upsert.inj same
          exact ⟨rfl, existing, by simp, rfl⟩

theorem handle_asks (r : Request) :
    Task.Asks (I := ports) r.Asks (fun _ _ => True) (fun _ _ => True) [] (handle K r) := by
  cases r with
  | applyEvent event => exact Task.asks_map.mpr applyEvent_asks
  | checkout userId plan interval => exact Task.asks_map.mpr (createCheckoutSession_asks plan interval)
  | change eventId type subscription =>
    exact Task.asks_map.mpr (call_asks.mpr ⟨fun _ => nofun, fun _ => trivial⟩)
  | completeCheckout eventId type customerId =>
    exact Task.asks_map.mpr (call_asks.mpr ⟨fun _ => nofun, fun _ => trivial⟩)

end Asks

/-! ### Runs -/

abbrev Deed : Type := Entry ports Env World Request

/-- The event of the latest change at the provider. -/
def World.latest (w : World) : Option BillingEvent := (w.sent.filter (·.subscription.isSome)).getLast?

def Call.changes : Call → Bool
  | .send event => event.subscription.isSome
  | _ => false

def Call.fetches : Call → Bool
  | .fetchSubscription _ => true
  | _ => false

def Call.reads (userId : String) : Call → Bool
  | .get u => u == userId
  | _ => false

section Runs

variable (userId subscriptionId : String)

/-- A row of the user is stored. -/
def writes : Deed → Bool
  | ⟨_, _, .upsert row, env, w⟩ => row.userId == userId && (perform (.upsert row) env w).1.isOk
  | _ => false

/-- A fetch of the request `n` to which the provider answered nothing. -/
def unanswered (n : Nat) : Deed → Bool
  | ⟨m, _, .fetchSubscription id, env, w⟩ => m == n && (perform (.fetchSubscription id) env w).1.isNone
  | _ => false

/-- A handler of the event of the latest change has stored the user's row. -/
def latestStored (log : List Deed) (w : World) : Bool :=
  log.any fun e => writes userId e &&
    match e.req with
    | .applyEvent event => w.latest == some event
    | _ => false

/-- A handler stores what the provider answered after the latest change, and a checkout stores the row
that is stored. -/
def fresh (log : List Deed) (e : Deed) : Bool :=
  match e.req with
  | .applyEvent event => e.before.latest == some event ||
    quietSince (fun l : Deed => l.thread == e.thread && l.op.fetches) (fun l : Deed => l.op.changes) log &&
      log.all fun l => !unanswered e.thread l
  | .checkout .. => quietSince (fun l : Deed => l.thread == e.thread && l.op.reads userId) (writes userId) log
  | _ => true

/-- There is one subscription. -/
def single (e : Deed) : Bool :=
  match e.op with
  | .send event => event.subscription.all (·.providerSubscriptionId == subscriptionId)
  | _ => true

/-- Once the event of the latest change is stored, what is written is fresh. -/
def orderly (log : List Deed) (e : Deed) : Bool :=
  single subscriptionId e &&
    (!(writes userId e && latestStored userId log e.before) || fresh userId log e)

/-- The user's row is what the provider says of the subscription, the customer and the time aside. -/
def Shows (w : World) : Prop :=
  ∃ row ∈ w.subscriptions.get? userId, ∃ current ∈ w.provider.get? subscriptionId,
    row = persisted userId row.providerCustomerId row.updatedAt current

def Converged (log : List Deed) (w : World) : Prop :=
  latestStored userId log w = true → Shows userId subscriptionId w

/-- What the provider has is what its latest event says, and a row stored by the handler of that event
shows it. -/
structure ConvergeInv (log : List Deed) (w : World) : Prop where
  keyed : ∀ id current, w.provider.get? id = some current →
    current.providerSubscriptionId = id ∧ id = subscriptionId
  latest : ∀ event ∈ w.latest, ∀ current ∈ event.subscription,
    w.provider.get? current.providerSubscriptionId = some current
  converged : Converged userId subscriptionId log w

end Runs

def World.start (subscriptions : InMemorySubscriptionStore) (users : OrdMap String String) : World :=
  ⟨.empty, [], [], subscriptions, users⟩

section Steps

variable {K : Config} {userId subscriptionId : String} {w₀ : World}
  {cond : List Deed → Deed → Prop} {before after log : List Deed} {e l : Deed} {event : BillingEvent}
  {pool : Pool ports World Request (Except HttpError Answer)}

theorem after_unchanged (still : e.op.changes = false) :
    (e.after machine).provider = e.before.provider ∧ (e.after machine).latest = e.before.latest := by
  obtain ⟨thread, req, op, env, w⟩ := e
  cases op with
  | send event =>
    have none_ : event.subscription = none := by simpa [Call.changes] using still
    simp [Entry.after, machine, perform, World.latest, none_]
  | claim event =>
    simp only [Entry.after, machine, perform]
    split <;> exact ⟨rfl, rfl⟩
  | upsert row =>
    simp only [Entry.after, machine, perform]
    split <;> exact ⟨rfl, rfl⟩
  | _ => exact ⟨rfl, rfl⟩

theorem after_changed (moves : e.op.changes = true) : ∃ event subscription, e.op = .send event ∧
    event.subscription = some subscription ∧ (e.after machine).latest = some event ∧
      (e.after machine).provider =
        e.before.provider.set subscription.providerSubscriptionId subscription := by
  obtain ⟨thread, req, op, env, w⟩ := e
  cases op with
  | send event =>
    obtain ⟨subscription, carries⟩ := Option.isSome_iff_exists.mp moves
    refine ⟨event, subscription, rfl, carries, ?_, ?_⟩
    · simp [Entry.after, machine, perform, World.latest, carries]
    · simp [Entry.after, machine, perform, carries]
  | _ => cases moves

theorem after_sent (sent : event ∈ e.before.sent) : event ∈ (e.after machine).sent := by
  obtain ⟨thread, req, op, env, w⟩ := e
  cases op with
  | send event' => exact List.mem_append_left _ sent
  | claim event =>
    simp only [Entry.after, machine, perform]
    split <;> exact sent
  | upsert row =>
    simp only [Entry.after, machine, perform]
    split <;> exact sent
  | _ => exact sent

theorem after_written (written : writes userId e = true) : ∃ row, e.op = .upsert row ∧
    row.userId = userId ∧ (e.after machine).subscriptions.get? userId =
      some { row with updatedAt := e.input.now } := by
  obtain ⟨thread, req, op, env, w⟩ := e
  cases op with
  | upsert row =>
    simp only [writes, Bool.and_eq_true, beq_iff_eq] at written
    obtain ⟨rfl, stored⟩ := written
    refine ⟨row, rfl, rfl, ?_⟩
    unfold perform at stored
    simp only [Entry.after, machine, perform, InMemorySubscriptionStore.upsert] at stored ⊢
    split at stored
    · cases stored
    · rename_i rows kept
      split at kept
      · cases kept
      · obtain rfl := Except.ok.inj kept
        exact OrdMap.get?_set_self _ _ _
  | _ => cases written

theorem after_unwritten (unwritten : writes userId e = false) :
    (e.after machine).subscriptions.get? userId = e.before.subscriptions.get? userId := by
  obtain ⟨thread, req, op, env, w⟩ := e
  cases op with
  | claim event =>
    simp only [Entry.after, machine, perform]
    split <;> rfl
  | upsert row =>
    simp only [writes, perform, InMemorySubscriptionStore.upsert] at unwritten
    simp only [Entry.after, machine, perform, InMemorySubscriptionStore.upsert]
    split
    · rfl
    · rename_i rows kept
      rw [kept] at unwritten
      split at kept
      · cases kept
      · obtain rfl := Except.ok.inj kept
        refine OrdMap.get?_set_ne _ _ fun same => ?_
        simp [same, Except.isOk, Except.toBool] at unwritten
  | _ => rfl

/-- An event that was sent stays sent. -/
theorem sent_since (recorded : Pool.Recorded (system K) w₀ cond (before ++ after) pool)
    (sent : event ∈ (ending machine w₀ before).sent) :
    event ∈ (ending machine w₀ (before ++ after)).sent := by
  refine recorded.since (P := fun mid => event ∈ (ending machine w₀ (before ++ mid)).sent) ?_ ?_
  · rwa [List.append_nil]
  · intro mid e rest _ from_ _ sofar
    have from_ : e.before = ending machine w₀ (before ++ mid) := from_
    rw [← List.append_assoc, ending_snoc]
    exact after_sent (from_ ▸ sofar)

/-- Nothing has changed at the provider since an event was sent that is still the latest. -/
theorem provider_since (recorded : Pool.Recorded (system K) w₀ cond (before ++ after) pool)
    (sent : event ∈ (ending machine w₀ before).sent)
    (latest : (ending machine w₀ (before ++ after)).latest = some event) :
    (ending machine w₀ (before ++ after)).provider = (ending machine w₀ before).provider := by
  revert latest
  refine recorded.since (P := fun mid => (ending machine w₀ (before ++ mid)).latest = some event →
    (ending machine w₀ (before ++ mid)).provider = (ending machine w₀ before).provider) ?_ ?_
  · rw [List.append_nil]
    exact fun _ => rfl
  · rintro mid e rest rfl from_ _ sofar
    have from_ : e.before = ending machine w₀ (before ++ mid) := from_
    rw [← List.append_assoc, ending_snoc]
    intro latest
    by_cases moves : e.op.changes = true
    · obtain ⟨event', subscription, op, -, latest', -⟩ := after_changed moves
      obtain rfl := Option.some.inj (latest'.symm.trans latest)
      rw [← List.append_assoc] at recorded
      have ready := recorded.ready
      have older : event' ∈ e.before.sent := by
        obtain ⟨pool', earlier⟩ := recorded.of_append
        exact from_ ▸ sent_since earlier sent
      obtain ⟨thread, req, op', env, w⟩ := e
      subst op
      have new : event'.id ∉ w.sent.map BillingEvent.id := by simpa [system, machine] using ready
      exact absurd (List.mem_map_of_mem older) new
    · obtain ⟨same, latest'⟩ := after_unchanged (Bool.eq_false_iff.mpr moves)
      rw [same, from_]
      exact sofar (from_ ▸ latest'.symm.trans latest)

/-- What a handler fetches, it fetches after its event was sent. -/
theorem fetch_sent (recorded : Pool.Recorded (system K) w₀ cond (before ++ l :: after) pool)
    (req : l.req = .applyEvent event) (fetches : l.op.fetches = true) : event ∈ l.before.sent := by
  have asks : l.req.Asks (own machine before l.thread) l.op := recorded.asks (handle_asks l.req)
  rw [req] at asks
  have claimed : ⟨.claim event, true⟩ ∈ own machine before l.thread := by
    generalize l.op = op at fetches asks
    cases op with
    | fetchSubscription id => exact ApplyAsks.fetches asks id rfl
    | _ => cases fetches
  obtain ⟨c, there, -, claimed'⟩ := mem_own.mp claimed
  obtain ⟨before, middle, rfl⟩ := List.append_of_mem there
  have from_ := recorded.step.1
  rw [List.append_assoc, List.cons_append] at recorded
  have ready := recorded.ready
  have from' := recorded.step.1
  rw [← List.cons_append, ← List.append_assoc] at recorded
  obtain ⟨pool', earlier⟩ := recorded.of_append
  obtain ⟨thread, req, op, env, w⟩ := c
  obtain ⟨rfl, -⟩ := Entry.of_event claimed'
  have sent : event ∈ w.sent := by simpa [system, machine] using ready
  rw [show l.before = _ from from_]
  exact sent_since earlier (show event ∈ (ending machine w₀ before).sent from from' ▸ sent)

/-- What a handler stores, and where it fetched it. -/
theorem handler_stores (recorded : Pool.Recorded (system K) w₀ cond (log ++ [e]) pool)
    (req : e.req = .applyEvent event) {row : Subscription} (op : e.op = .upsert row) :
    ∃ before l after id fetched subscription, log = before ++ l :: after ∧ l.thread = e.thread ∧
      l.req = .applyEvent event ∧ l.event machine = ⟨.fetchSubscription id, fetched⟩ ∧
        fetched.or event.subscription = some subscription ∧
          row = persisted row.userId row.providerCustomerId 0 subscription := by
  have asks : e.req.Asks (own machine log e.thread) e.op := recorded.asks (handle_asks e.req)
  rw [req, op] at asks
  obtain ⟨id, fetched, subscription, there, taken, same⟩ := ApplyAsks.stores asks row rfl
  obtain ⟨l, listed, mine, fetches⟩ := mem_own.mp there
  have req' : l.req = .applyEvent event :=
    (recorded.same_req (List.mem_append_left _ listed) (by simp) mine).trans req
  obtain ⟨before, after, rfl⟩ := List.append_of_mem listed
  exact ⟨before, l, after, id, fetched, subscription, rfl, mine, req', fetches, taken, same⟩

/-- Whose event was handled, it was sent. -/
theorem written_sent (recorded : Pool.Recorded (system K) w₀ cond log pool) (done : l ∈ log)
    (written : writes userId l = true) (req : l.req = .applyEvent event) :
    event ∈ (ending machine w₀ log).sent := by
  obtain ⟨before, after, rfl⟩ := List.append_of_mem done
  obtain ⟨row, op, -⟩ := after_written written
  rw [List.append_cons] at recorded
  obtain ⟨pool', earlier⟩ := recorded.of_append
  obtain ⟨before', f, after', id, fetched, -, rfl, -, req', fetches, -⟩ := handler_stores earlier req op
  obtain ⟨op', -⟩ := Entry.of_event fetches
  rw [List.append_assoc, List.append_assoc, List.cons_append] at recorded
  have sent := fetch_sent recorded req' (by rw [op']; rfl)
  have from_ := recorded.step.1
  rw [List.append_assoc, List.cons_append]
  rw [show f.before = _ from from_] at sent
  simpa using sent_since recorded sent

/-- A handler stores what the provider says. -/
theorem handler_fresh (inv : ConvergeInv userId subscriptionId log e.before)
    (recorded : Pool.Recorded (system K) w₀ cond (log ++ [e]) pool)
    (req : e.req = .applyEvent event) {row : Subscription} (op : e.op = .upsert row)
    (fresh : fresh userId log e = true) : ∃ current ∈ e.before.provider.get? subscriptionId,
      row = persisted row.userId row.providerCustomerId 0 current := by
  obtain ⟨before, l, after, id, fetched, subscription, rfl, mine, req', fetches, taken, same⟩ :=
    handler_stores recorded req op
  have from_ : e.before = ending machine w₀ (before ++ l :: after) := recorded.step.1
  obtain ⟨pool', earlier⟩ := recorded.of_append
  have from' : l.before = ending machine w₀ before := earlier.step.1
  obtain ⟨op', replied⟩ := Entry.of_event fetches
  have said : e.before.provider = l.before.provider → ∀ s, fetched = some s →
      ∃ current ∈ e.before.provider.get? subscriptionId,
        row = persisted row.userId row.providerCustomerId 0 current := by
    rintro unchanged s rfl
    obtain rfl : s = subscription := by simpa using taken
    have replied : (if l.input.answered then l.before.provider.get? id else none) = some s := replied
    split at replied
    · rw [← unchanged] at replied
      obtain ⟨-, rfl⟩ := inv.keyed id s replied
      exact ⟨s, replied, same⟩
    · cases replied
  unfold Handlers.fresh at fresh
  rw [req, Bool.or_eq_true, Bool.and_eq_true] at fresh
  rcases fresh with latest | ⟨quiet, answered⟩
  · have latest : e.before.latest = some event := by simpa using latest
    have unchanged := provider_since earlier (from' ▸ fetch_sent earlier req' (by rw [op']; rfl))
      (from_ ▸ latest)
    rw [← from_, ← from'] at unchanged
    cases fetched with
    | some s => exact said unchanged s rfl
    | none =>
      have payload : event.subscription = some subscription := by simpa using taken
      have current := inv.latest event latest subscription payload
      obtain ⟨-, rfl⟩ := inv.keyed _ _ current
      exact ⟨subscription, current, same⟩
  · have still := quietSince_split quiet (by simp [mine, op', Call.fetches])
    have unchanged : (ending machine w₀ (before ++ l :: after)).provider =
        (ending machine w₀ before).provider := by
      refine earlier.kept World.provider fun e' there => ?_
      rcases List.mem_cons.mp there with rfl | later
      · exact (after_unchanged (by rw [op']; rfl)).1
      · exact (after_unchanged (still e' later)).1
    rw [← from_, ← from'] at unchanged
    cases fetched with
    | some s => exact said unchanged s rfl
    | none =>
      have nothing := List.all_eq_true.mp answered l (by simp)
      obtain ⟨thread, req, op, env, w⟩ := l
      obtain rfl : op = .fetchSubscription id := op'
      have replied : (perform (.fetchSubscription id) env w).1 = none := replied
      simp only [unanswered, replied, Option.isNone_none, Bool.and_true, Bool.not_eq_true',
        beq_eq_false_iff_ne] at nothing
      exact absurd mine nothing

theorem awaiting_persisted {user customerId customerId' : String} {at_ : Int} {old : Subscription}
    {current : ProviderSubscription} (shown : old = persisted user customerId at_ current) :
    awaiting user customerId' (some old) = persisted user customerId' 0 current := by
  rw [shown]
  rfl

/-- A checkout stores what is stored. -/
theorem checkout_fresh {user plan interval : String} (shows_ : Shows userId subscriptionId e.before)
    (recorded : Pool.Recorded (system K) w₀ cond (log ++ [e]) pool)
    (req : e.req = .checkout user plan interval) {row : Subscription} (op : e.op = .upsert row)
    (mine : row.userId = userId) (fresh : fresh userId log e = true) :
    ∃ current ∈ e.before.provider.get? subscriptionId,
      row = persisted row.userId row.providerCustomerId 0 current := by
  have asks : e.req.Asks (own machine log e.thread) e.op := recorded.asks (handle_asks e.req)
  rw [req, op] at asks
  obtain ⟨rfl, existing, there, same⟩ := CheckoutAsks.stores asks row rfl
  subst mine
  obtain ⟨l, listed, ours, read⟩ := mem_own.mp there
  obtain ⟨before, after, rfl⟩ := List.append_of_mem listed
  have from_ : e.before = ending machine w₀ (before ++ l :: after) := recorded.step.1
  obtain ⟨pool', earlier⟩ := recorded.of_append
  have from' : l.before = ending machine w₀ before := earlier.step.1
  obtain ⟨op', replied⟩ := Entry.of_event read
  unfold Handlers.fresh at fresh
  rw [req] at fresh
  have still := quietSince_split fresh (by simp [ours, op', Call.reads])
  have unchanged : (ending machine w₀ (before ++ l :: after)).subscriptions.get? row.userId =
      (ending machine w₀ before).subscriptions.get? row.userId := by
    refine earlier.kept (fun w => w.subscriptions.get? row.userId) fun e' there => ?_
    rcases List.mem_cons.mp there with rfl | later
    · refine after_unwritten ?_
      obtain ⟨thread, req, op, env, w⟩ := e'
      obtain rfl : op = .get row.userId := op'
      rfl
    · exact after_unwritten (still e' later)
  rw [← from_, ← from'] at unchanged
  obtain ⟨old, stored, current, found, shown⟩ := shows_
  obtain rfl : existing = some old := (replied.symm.trans unchanged.symm).trans stored
  exact ⟨current, found, same.trans (awaiting_persisted shown)⟩

theorem ConvergeInv.next (inv : ConvergeInv userId subscriptionId log e.before)
    (recorded : Pool.Recorded (system K) w₀ (fun log e => orderly userId subscriptionId log e = true)
      (log ++ [e]) pool) : ConvergeInv userId subscriptionId (log ++ [e]) (e.after machine) := by
  have ok := recorded.step.2
  have from_ : e.before = ending machine w₀ log := recorded.step.1
  rw [orderly, Bool.and_eq_true] at ok
  by_cases moves : e.op.changes = true
  · obtain ⟨event, subscription, op, carries, latest, provider⟩ := after_changed moves
    refine ⟨?_, ?_, ?_⟩
    · intro id current found
      rw [provider, OrdMap.get?_set] at found
      split at found
      · rename_i same
        obtain rfl := Option.some.inj found
        have one := ok.1
        rw [single, op] at one
        exact ⟨same, same.symm.trans (by simpa [carries] using one)⟩
      · exact inv.keyed id current found
    · intro event' latest' current carries'
      obtain rfl := Option.some.inj (latest.symm.trans latest')
      obtain rfl := Option.some.inj (carries.symm.trans carries')
      rw [provider]
      exact OrdMap.get?_set_self _ _ _
    · -- No handler of an event that is only now sent has stored anything.
      intro stored
      obtain ⟨l, there, stored⟩ := List.any_eq_true.mp stored
      rw [Bool.and_eq_true] at stored
      rcases List.mem_append.mp there with earlier | now
      · obtain ⟨pool', before⟩ := recorded.of_append
        cases req : l.req with
        | applyEvent event' =>
          rw [req, latest] at stored
          obtain rfl : event = event' := by simpa using stored.2
          have sent := written_sent before earlier stored.1 req
          rw [← from_] at sent
          have ready := recorded.ready
          obtain ⟨thread, req, op', env, w⟩ := e
          subst op
          have new : event.id ∉ w.sent.map BillingEvent.id := by simpa [system, machine] using ready
          exact absurd (List.mem_map_of_mem sent) new
        | _ =>
          rw [req] at stored
          cases stored.2
      · obtain rfl := List.mem_singleton.mp now
        obtain ⟨row, op', -⟩ := after_written stored.1
        cases op.symm.trans op'
  · obtain ⟨provider, latest⟩ := after_unchanged (Bool.eq_false_iff.mpr moves)
    refine ⟨provider ▸ inv.keyed, ?_, fun stored => ?_⟩
    · rw [latest, provider]
      exact inv.latest
    · by_cases written : writes userId e = true
      · obtain ⟨row, op, mine, after⟩ := after_written written
        have fresh_ : latestStored userId log e.before = true → fresh userId log e = true := by
          intro already
          simpa [written, already] using ok.2
        have already : latestStored userId log e.before = true ∨
            ∃ event, e.req = .applyEvent event ∧ e.before.latest = some event := by
          rw [latestStored, latest, List.any_append, Bool.or_eq_true] at stored
          refine stored.imp id fun now => ?_
          cases req : e.req with
          | applyEvent event =>
            simp only [List.any_cons, List.any_nil, req, Bool.or_false, Bool.and_eq_true, beq_iff_eq] at now
            exact ⟨event, rfl, now.2⟩
          | _ => simp [req] at now
        have shown : ∃ current ∈ e.before.provider.get? subscriptionId,
            row = persisted row.userId row.providerCustomerId 0 current := by
          cases req : e.req with
          | applyEvent event =>
            refine handler_fresh inv recorded req op ?_
            rcases already with already | ⟨event', req', latest'⟩
            · exact fresh_ already
            · obtain rfl := Request.applyEvent.inj (req.symm.trans req')
              simp [fresh, req, latest']
          | checkout user plan interval =>
            rcases already with already | ⟨event', req', -⟩
            · exact checkout_fresh (inv.converged already) recorded req op mine (fresh_ already)
            · cases req.symm.trans req'
          | change eventId type subscription =>
            have asks : e.req.Asks (own machine log e.thread) e.op := recorded.asks (handle_asks e.req)
            rw [req] at asks
            exact absurd op (asks row)
          | completeCheckout eventId type customerId =>
            have asks : e.req.Asks (own machine log e.thread) e.op := recorded.asks (handle_asks e.req)
            rw [req] at asks
            exact absurd op (asks row)
        obtain ⟨current, found, same⟩ := shown
        subst mine
        exact ⟨_, after, current, provider ▸ found,
          congrArg (fun row : Subscription => { row with updatedAt := e.input.now }) same⟩
      · have unwritten := Bool.eq_false_iff.mpr written
        have already : latestStored userId log e.before = true := by
          rw [latestStored, List.any_append] at stored
          simpa [unwritten, latest, latestStored] using stored
        obtain ⟨row, there, current, found, same⟩ := inv.converged already
        exact ⟨row, (after_unwritten unwritten).trans there, current, provider ▸ found, same⟩

/-- However handlers and checkouts interleave with each other and with the changes of the one
subscription, as long as what is written once the event of the latest change is stored is fresh, the row
shows the latest state from then on. -/
theorem updates_converge {rows : InMemorySubscriptionStore} {users : OrdMap String String}
    (recorded : Pool.Recorded (system K) (.start rows users)
      (fun log e => orderly userId subscriptionId log e = true) log pool) :
    Converged userId subscriptionId log pool.state := by
  have inv : ConvergeInv userId subscriptionId log (ending machine (.start rows users) log) := by
    refine recorded.induct (P := fun log =>
      ConvergeInv userId subscriptionId log (ending machine (.start rows users) log)) ?_ ?_
    · exact ⟨fun _ _ found => (nomatch found), fun _ latest => (nomatch latest),
        fun stored => (nomatch stored)⟩
    · intro log e pool recorded from_ _ inv
      have from_ : e.before = ending machine (.start rows users) log := from_
      rw [← from_] at inv
      rw [ending_snoc]
      exact inv.next recorded
  rw [recorded.state]
  exact inv.converged

end Steps

/-! ### A subscription that starts and ends -/

def sampleConfig : Config := ⟨true, fun _ _ => some "price", "success", "cancel"⟩

def started : BillingEvent := changed "e1" "created" (pro "sub" .active)

def ended : BillingEvent := changed "e2" "deleted" (pro "sub" .canceled)

/-- Sam's subscription starts, and its event comes, while Sam goes to the checkout again. Then it ends. -/
def serial : List (Pool.Move Env Request) :=
  let turns (n k : Nat) : List (Pool.Move Env Request) := List.replicate k (.run n { now := 0 })
  .start (.change "e1" "created" (pro "sub" .active)) :: turns 0 1 ++
    .start (.checkout "sam" "pro" "month") :: turns 1 3 ++
    .start (.applyEvent started) :: turns 2 3 ++ turns 1 3 ++ turns 2 2 ++
    .start (.change "e2" "deleted" (pro "sub" .canceled)) :: turns 3 1 ++
    .start (.applyEvent ended) :: turns 4 5

theorem updates_converge_serial :
    latestStored "sam" (Pool.courseUnder (system sampleConfig) (orderly "sam" "sub")
      (.start enrolled (.set .empty "sam" "sam@example.com")) serial).1
      (Pool.courseUnder (system sampleConfig) (orderly "sam" "sub")
        (.start enrolled (.set .empty "sam" "sam@example.com")) serial).2.state = true ∧
    Converged "sam" "sub" (Pool.courseUnder (system sampleConfig) (orderly "sam" "sub")
      (.start enrolled (.set .empty "sam" "sam@example.com")) serial).1
      (Pool.courseUnder (system sampleConfig) (orderly "sam" "sub")
        (.start enrolled (.set .empty "sam" "sam@example.com")) serial).2.state :=
  ⟨by decide +kernel, updates_converge (Pool.courseUnder_recorded _ _ _ serial)⟩

/-- The handler of the first event fetches before the subscription ends, and stores after the handler of
the second. -/
def crossed : List (Pool.Move Env Request) :=
  let turns (n k : Nat) : List (Pool.Move Env Request) := List.replicate k (.run n { now := 0 })
  .start (.change "e1" "created" (pro "sub" .active)) :: turns 0 1 ++
    .start (.applyEvent started) :: turns 1 4 ++
    .start (.change "e2" "deleted" (pro "sub" .canceled)) :: turns 2 1 ++
    .start (.applyEvent ended) :: turns 3 5 ++ turns 1 1

/-- The row says that the subscription is active, though its end was applied. -/
theorem crossed_diverges : ¬∀ log pool, Pool.Recorded (system sampleConfig) (.start enrolled .empty)
    (fun _ e => single "sub" e = true) log pool → Converged "sam" "sub" log pool.state := by
  intro converge
  have recorded := Pool.courseUnder_recorded (system sampleConfig) (fun _ e => single "sub" e)
    (.start enrolled .empty) crossed
  obtain ⟨row, stored, current, found, shown⟩ := converge _ _ recorded (by decide +kernel)
  have active : ((Pool.courseUnder (system sampleConfig) (fun _ e => single "sub" e)
      (.start enrolled .empty) crossed).2.state.subscriptions.get? "sam").map (·.status) =
        some .active := by decide +kernel
  have canceled : ((Pool.courseUnder (system sampleConfig) (fun _ e => single "sub" e)
      (.start enrolled .empty) crossed).2.state.provider.get? "sub").map (·.status) =
        some .canceled := by decide +kernel
  rw [show OrdMap.get? _ "sam" = some row from stored, Option.map_some] at active
  rw [show OrdMap.get? _ "sub" = some current from found, Option.map_some] at canceled
  rw [shown] at active
  exact absurd (Option.some.inj (active.symm.trans canceled)) (by decide)

end Finverse.Billing.Handlers
