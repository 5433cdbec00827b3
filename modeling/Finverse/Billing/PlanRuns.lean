import Finverse.Billing.Plans
import Finverse.Billing.Redelivery
import Finverse.Framework.Table

/-! Subscriptions that change at the provider, their events delivered in any order, and the plan the
customer has here. -/

namespace Finverse.Billing

variable {userId customerId : String} {d : Delivery} {w : World}

/-- What applying an event may do to the rows: nothing, or store what it took to be the state of the
subscription. -/
theorem applyEvent_cases (d : Delivery) (w : World) :
    (applyEvent d w).2.subscriptions = w.subscriptions ∧ (applyEvent d w).2.completed = w.completed ∨
    ∃ customerId userId subscription, d.event.providerCustomerId = some customerId ∧
      w.subscriptions.findUserByCustomerId customerId = some userId ∧
      authoritative d (w.subscriptions.get? userId) = some subscription ∧
      (applyEvent d w).2.subscriptions =
        w.subscriptions.set userId (persisted userId customerId d.now subscription) ∧
      (applyEvent d w).2.completed = w.completed ++ [d.event.id] := by
  have stores (w : World) (customerId userId : String) (subscription : ProviderSubscription) :
      (persist d userId customerId subscription w).2 = w ∨
        (persist d userId customerId subscription w).2.subscriptions =
            w.subscriptions.set userId (persisted userId customerId d.now subscription) ∧
          (persist d userId customerId subscription w).2.completed = w.completed ++ [d.event.id] := by
    unfold persist InMemorySubscriptionStore.upsert
    split
    · exact .inl rfl
    · split
      · exact .inl rfl
      · rename_i stored
        split at stored
        · cases stored
        · obtain rfl := Except.ok.inj stored
          exact .inr ⟨rfl, rfl⟩
  have claimed (w : World) : (applyClaimed d w).2 = w ∨
      ∃ customerId userId subscription, d.event.providerCustomerId = some customerId ∧
        w.subscriptions.findUserByCustomerId customerId = some userId ∧
        authoritative d (w.subscriptions.get? userId) = some subscription ∧
        (applyClaimed d w).2.subscriptions =
          w.subscriptions.set userId (persisted userId customerId d.now subscription) ∧
        (applyClaimed d w).2.completed = w.completed ++ [d.event.id] := by
    unfold applyClaimed
    split
    · exact .inl rfl
    · rename_i customerId named
      split
      · exact .inl rfl
      · split
        · exact .inl rfl
        · rename_i userId found
          split
          · exact .inl rfl
          · dsimp only
            split
            · exact .inl rfl
            · split
              · exact .inl rfl
              · rename_i subscription told
                refine (stores w customerId userId subscription).imp id fun stored => ?_
                exact ⟨customerId, userId, subscription, named, found, told, stored⟩
  by_cases claims : d.claims
  · by_cases seen : d.event.id ∈ w.seen
    · rw [applyEvent_seen claims seen]
      exact .inl ⟨rfl, rfl⟩
    · rw [applyEvent_fresh claims seen]
      rcases claimed { w with seen := w.seen ++ [d.event.id] } with same | stored
      · rw [same]
        exact .inl ⟨rfl, rfl⟩
      · exact .inr stored
  · rw [(applyEvent_silent claims).2]
    exact .inl ⟨rfl, rfl⟩

/-- The stored row entitles to what the subscription does. -/
theorem effectivePlan_persisted (subscription : ProviderSubscription) (at_ now : Int) :
    effectivePlan (some (persisted userId customerId at_ subscription).state) now =
      effectivePlan (some subscription.state) now := by
  by_cases canceled : subscription.status = .canceled
  · have ended : subscription.status ∉ ENTITLING_STATUSES := by rw [canceled]; decide
    simp [effectivePlan, persisted, Subscription.state, ProviderSubscription.state, ended]
  · have plan : (persisted userId customerId at_ subscription).state = subscription.state := by
      simp [persisted, Subscription.state, ProviderSubscription.state, canceled]
    rw [plan]

/-! ### The provider and the service -/

/-- The subscriptions at the provider, the events it has sent, and what is stored here. -/
structure Site where
  provider : OrdMap String ProviderSubscription
  sent : List BillingEvent
  billing : World
  now : Int

/-- The provider changes a subscription and sends an event with its state, or sends one of a completed
checkout; or an event is delivered, which fails where it may, and meanwhile the provider answers or
does not; or time passes. -/
inductive Move
  | change (eventId type : String) (subscription : ProviderSubscription)
  | checkout (eventId type customerId : String)
  | deliver (eventId : String) (failsAt : Option FailurePoint) (answered : Bool)
  | pass (ms : Nat)
  deriving DecidableEq, Repr

def changed (eventId type : String) (subscription : ProviderSubscription) : BillingEvent :=
  ⟨eventId, type, if subscription.status = .canceled then .subscriptionDeleted else .subscriptionUpdated,
    some subscription.providerCustomerId, some subscription⟩

def completedCheckout (eventId type customerId : String) : BillingEvent :=
  ⟨eventId, type, .checkoutCompleted, some customerId, none⟩

namespace Site

variable (site : Site)

def event (eventId : String) : Option BillingEvent := Table.lookup BillingEvent.id eventId site.sent

def send (event : BillingEvent) : Site := { site with sent := site.sent ++ [event] }

def delivery (event : BillingEvent) (failsAt : Option FailurePoint) (answered : Bool) : Delivery :=
  ⟨event, failsAt, fun id => if answered then site.provider.get? id else none, site.now⟩

/-- An event has an id of its own, and a subscription does not move to another customer. -/
def step : Move → Option Site
  | .change eventId type subscription =>
    if (site.event eventId).isNone && (site.provider.get? subscription.providerSubscriptionId).all
        fun old => old.providerCustomerId == subscription.providerCustomerId then
      some ({ site with
        provider := site.provider.set subscription.providerSubscriptionId subscription }.send
          (changed eventId type subscription))
    else none
  | .checkout eventId type customerId =>
    if (site.event eventId).isNone then some (site.send (completedCheckout eventId type customerId))
    else none
  | .deliver eventId failsAt answered => (site.event eventId).map fun event =>
    { site with billing := (applyEvent (site.delivery event failsAt answered) site.billing).2 }
  | .pass ms => some { site with now := site.now + ms }

/-- The moves from a site, all of which meet a guard. -/
def run (guard : Move → Site → Bool) : List Move → Site → Option Site
  | [], site => some site
  | move :: moves, site =>
    if guard move site then (site.step move).bind (run guard moves) else none

end Site

/-- When the provider does not answer, the event carries what it would have said. -/
def told (move : Move) (site : Site) : Bool :=
  match move with
  | .deliver eventId _ answered => answered || ((site.event eventId).bind (·.subscription)).all
      fun sent => site.provider.get? sent.providerSubscriptionId == some sent
  | _ => true

section Paying

variable (userId customerId : String)

/-- The subscription of the customer that an event is about. -/
def BillingEvent.names (event : BillingEvent) : Option String :=
  if event.providerCustomerId = some customerId then
    event.subscription.map (·.providerSubscriptionId)
  else none

/-- The subscriptions of the customer that the applied events name, in the order of application. -/
def Site.named (site : Site) : List String :=
  site.billing.completed.filterMap fun id => (site.event id).bind (·.names customerId)

def AllApplied (site : Site) : Prop :=
  ∀ event ∈ site.sent, (event.names customerId).isSome → event.id ∈ site.billing.completed

/-- The customer pays for a subscription. -/
structure Entitled (site : Site) (subscription : ProviderSubscription) : Prop where
  current : subscription ∈ site.provider.values
  customer : subscription.providerCustomerId = customerId
  entitles : subscription.state.entitles site.now = true

def Site.planOf (site : Site) : PlanId :=
  effectivePlan ((site.billing.subscriptions.get? userId).map Subscription.state) site.now

/-- The user has the plan of whatever subscription entitles to one. -/
def NotDowngraded (site : Site) : Prop :=
  ∀ subscription, Entitled customerId site subscription → site.planOf userId = subscription.plan

/-- The subscription named by the event applied last entitles to the same plan as every subscription
that entitles to one. -/
def LatestEntitles (site : Site) : Prop :=
  ∀ subscription, Entitled customerId site subscription → ∃ id ∈ (site.named customerId).getLast?,
    ∃ latest ∈ site.provider.get? id, effectivePlan (some latest.state) site.now = subscription.plan

/-- The user alone has the customer, and no subscription yet. -/
structure Enrolled (rows : InMemorySubscriptionStore) : Prop where
  owner : ∀ user row, rows.get? user = some row →
    (row.providerCustomerId = customerId ↔ user = userId)
  stored : ∃ row ∈ rows.get? userId, row.providerSubscriptionId = none

/-- Where nothing has happened yet at the provider. -/
def Site.start (rows : InMemorySubscriptionStore) (now : Int) : Site := ⟨.empty, [], .start rows, now⟩

/-- The row is what the provider says of the subscription named last, unless an event about that one is
still to be applied. -/
structure PlanInv (site : Site) : Prop where
  distinct : (site.sent.map BillingEvent.id).Nodup
  keyed : ∀ id subscription, site.provider.get? id = some subscription →
    subscription.providerSubscriptionId = id
  known : ∀ event ∈ site.sent, ∀ sent, event.subscription = some sent →
    event.providerCustomerId = some sent.providerCustomerId ∧
      ∃ current ∈ site.provider.get? sent.providerSubscriptionId,
        current.providerCustomerId = sent.providerCustomerId
  announced : ∀ id subscription, site.provider.get? id = some subscription →
    subscription.providerCustomerId = customerId → ∃ event ∈ site.sent, event.names customerId = some id
  completed : ∀ id ∈ site.billing.completed, id ∈ site.sent.map BillingEvent.id
  owner : ∀ user row, site.billing.subscriptions.get? user = some row →
    (row.providerCustomerId = customerId ↔ user = userId)
  stored : ∃ row ∈ site.billing.subscriptions.get? userId,
    row.providerSubscriptionId = (site.named customerId).getLast? ∧
      ∀ id ∈ (site.named customerId).getLast?,
        (∃ event ∈ site.sent, event.names customerId = some id ∧ event.id ∉ site.billing.completed) ∨
        ∃ current ∈ site.provider.get? id, ∃ at_, row = persisted userId customerId at_ current

end Paying

/-! ### What the moves keep -/

section Moves

variable {site site' : Site} {event : BillingEvent} {rows : InMemorySubscriptionStore}

theorem Site.event_some {eventId : String} (found : site.event eventId = some event) :
    event ∈ site.sent ∧ event.id = eventId :=
  ⟨Table.lookup_mem found, Table.lookup_key found⟩

/-- An event sent now does not change what the applied ones named. -/
theorem Site.named_send {provider : OrdMap String ProviderSubscription}
    (completed : ∀ id ∈ site.billing.completed, id ∈ site.sent.map BillingEvent.id) :
    ({ site with provider }.send event).named customerId = site.named customerId := by
  refine List.filterMap_congr fun id applied => ?_
  have found : (site.event id).isSome := by
    rw [Option.isSome_iff_ne_none]
    exact fun none_ => Table.lookup_eq_none.mp none_ (completed id applied)
  obtain ⟨old, found⟩ := Option.isSome_iff_exists.mp found
  have kept : ({ site with provider }.send event).event id = some old := by
    rw [Site.event, Table.lookup] at found ⊢
    rw [Site.send, List.find?_append, found]
    rfl
  rw [kept, found]

/-- An applied event names its subscription last. -/
theorem Site.named_apply (distinct : (site.sent.map BillingEvent.id).Nodup) (sent : event ∈ site.sent)
    {billing : World} (completed : billing.completed = site.billing.completed ++ [event.id]) :
    ({ site with billing } : Site).named customerId =
      site.named customerId ++ (event.names customerId).toList := by
  have found : ({ site with billing } : Site).event event.id = some event :=
    Table.lookup_of_mem distinct sent
  rw [Site.named, completed, List.filterMap_append, List.filterMap_cons, List.filterMap_nil, found,
    Option.bind_some]
  cases event.names customerId <;> rfl

theorem findUserByCustomerId_some {customer user : String}
    (found : rows.findUserByCustomerId customer = some user) :
    ∃ row, rows.get? user = some row ∧ row.providerCustomerId = customer := by
  obtain ⟨⟨key, row⟩, stored, rfl⟩ := Option.map_eq_some_iff.mp found
  exact ⟨row, OrdMap.get?_eq_some.mpr (List.mem_of_find?_eq_some stored), by
    simpa using List.find?_some stored⟩

theorem Site.mem_named {id : String} (named : id ∈ site.named customerId) :
    ∃ event ∈ site.sent, event.id ∈ site.billing.completed ∧ event.names customerId = some id := by
  obtain ⟨eventId, applied, names⟩ := List.mem_filterMap.mp named
  obtain ⟨event, found, named⟩ := Option.bind_eq_some_iff.mp names
  obtain ⟨sent, rfl⟩ := Site.event_some found
  exact ⟨event, sent, applied, named⟩

theorem PlanInv.start (enrolled : Enrolled userId customerId rows) (now : Int) :
    PlanInv userId customerId (.start rows now) where
  distinct := List.nodup_nil
  keyed := fun _ _ found => nomatch found
  known := fun _ sent => nomatch sent
  announced := fun _ _ found => nomatch found
  completed := fun _ applied => nomatch applied
  owner := enrolled.owner
  stored := by
    obtain ⟨row, stored, new⟩ := enrolled.stored
    exact ⟨row, stored, new, fun _ last => nomatch last⟩

theorem BillingEvent.names_some {id : String} (names : event.names customerId = some id) :
    event.providerCustomerId = some customerId ∧
      ∃ sent, event.subscription = some sent ∧ sent.providerSubscriptionId = id := by
  unfold BillingEvent.names at names
  split at names
  · exact ⟨‹_›, Option.map_eq_some_iff.mp names⟩
  · cases names

theorem changed_names {eventId type : String} {subscription : ProviderSubscription} :
    (changed eventId type subscription).names customerId =
      if subscription.providerCustomerId = customerId then
        some subscription.providerSubscriptionId
      else none := by
  simp [BillingEvent.names, changed]

/-- A subscription that events of the customer name is the customer's. -/
theorem PlanInv.mine (inv : PlanInv userId customerId site) (sent : event ∈ site.sent) {id : String}
    (names : event.names customerId = some id) :
    ∃ current ∈ site.provider.get? id, current.providerCustomerId = customerId := by
  obtain ⟨customer, payload, carries, rfl⟩ := BillingEvent.names_some names
  obtain ⟨same, current, found, customer'⟩ := inv.known event sent payload carries
  exact ⟨current, found, customer'.trans (Option.some.inj (same.symm.trans customer))⟩

/-- An event that is sent with a change of the subscription it names leaves nothing unsaid. -/
theorem PlanInv.send (inv : PlanInv userId customerId site) (new : site.event event.id = none)
    {provider : OrdMap String ProviderSubscription}
    (keyed : ∀ id subscription, provider.get? id = some subscription →
      subscription.providerSubscriptionId = id)
    (kept : ∀ id, ∀ old ∈ site.provider.get? id, ∃ current ∈ provider.get? id,
      current.providerCustomerId = old.providerCustomerId)
    (told : ∀ id, provider.get? id = site.provider.get? id ∨ event.names customerId = some id ∨
      ∃ current ∈ provider.get? id, current.providerCustomerId ≠ customerId)
    (about : ∀ sent, event.subscription = some sent →
      event.providerCustomerId = some sent.providerCustomerId ∧
        ∃ current ∈ provider.get? sent.providerSubscriptionId,
          current.providerCustomerId = sent.providerCustomerId) :
    PlanInv userId customerId ({ site with provider }.send event) where
  distinct := by
    rw [Site.send, List.map_append, List.map_singleton, List.nodup_append]
    refine ⟨inv.distinct, List.nodup_singleton _, fun id old id' here same => ?_⟩
    rw [List.mem_singleton.mp here] at same
    exact Table.lookup_eq_none.mp new (same ▸ old)
  keyed := keyed
  known := by
    intro e sent_ payload carries
    rcases List.mem_append.mp sent_ with old | here
    · obtain ⟨same, before, found, customer⟩ := inv.known e old payload carries
      obtain ⟨current, now, customer'⟩ := kept _ before found
      exact ⟨same, current, now, customer'.trans customer⟩
    · rw [List.mem_singleton.mp here] at carries ⊢
      exact about payload carries
  announced := by
    intro id subscription found mine
    have found : provider.get? id = some subscription := found
    rcases told id with same | named | ⟨current, now, other⟩
    · obtain ⟨e, old, names⟩ := inv.announced id subscription (same.symm.trans found) mine
      exact ⟨e, List.mem_append_left _ old, names⟩
    · exact ⟨event, List.mem_append_right _ (List.mem_singleton.mpr rfl), named⟩
    · obtain rfl := Option.some.inj (now.symm.trans found)
      exact absurd mine other
  completed := by
    intro id applied
    rw [Site.send, List.map_append]
    exact List.mem_append_left _ (inv.completed id applied)
  owner := inv.owner
  stored := by
    rw [Site.named_send inv.completed]
    obtain ⟨row, stored, same, latest⟩ := inv.stored
    refine ⟨row, stored, same, fun id last => ?_⟩
    rcases latest id last with ⟨e, old, names, pending⟩ | ⟨current, found, at_, rfl⟩
    · exact .inl ⟨e, List.mem_append_left _ old, names, pending⟩
    · rcases told id with same | named | ⟨current', now, other⟩
      · exact .inr ⟨current, same.trans found, at_, rfl⟩
      · refine .inl ⟨event, List.mem_append_right _ (List.mem_singleton.mpr rfl), named, fun applied => ?_⟩
        exact Table.lookup_eq_none.mp new (inv.completed _ applied)
      · obtain ⟨e, old, -, names⟩ := Site.mem_named (List.mem_of_mem_getLast? last)
        obtain ⟨mine, there, customer⟩ := inv.mine old names
        obtain ⟨current'', now', customer'⟩ := kept id mine there
        obtain rfl := Option.some.inj (now.symm.trans now')
        exact absurd (customer'.trans customer) other

/-- Storing what an applied event is taken to say, when that is what the provider says. -/
theorem PlanInv.apply (inv : PlanInv userId customerId site) (sent : event ∈ site.sent)
    {billing : World} {subscription : ProviderSubscription} {user customer : String} {at_ : Int}
    (names : event.providerCustomerId = some customer)
    (found : site.billing.subscriptions.findUserByCustomerId customer = some user)
    (current : customer = customerId → site.provider.get? subscription.providerSubscriptionId = some subscription)
    (named : customer = customerId → event.names customerId = none →
      (site.named customerId).getLast? = some subscription.providerSubscriptionId)
    (named' : ∀ id, event.names customerId = some id → id = subscription.providerSubscriptionId)
    (rows : billing.subscriptions = site.billing.subscriptions.set user
      (persisted user customer at_ subscription))
    (completed : billing.completed = site.billing.completed ++ [event.id]) :
    PlanInv userId customerId { site with billing } := by
  obtain ⟨old, theirs, owns⟩ := findUserByCustomerId_some found
  have mine : customer = customerId ↔ user = userId := owns ▸ inv.owner user old theirs
  have grown (billing' : World) (same : billing' = billing) :
      ({ site with billing := billing' } : Site).named customerId =
        site.named customerId ++ (event.names customerId).toList :=
    Site.named_apply inv.distinct sent (same ▸ completed)
  refine { inv with completed := ?_, owner := ?_, stored := ?_ }
  · intro id applied
    rw [completed] at applied
    rcases List.mem_append.mp applied with earlier | now
    · exact inv.completed id earlier
    · exact List.mem_singleton.mp now ▸ List.mem_map_of_mem sent
  · intro other row stored
    rw [rows, OrdMap.get?_set] at stored
    split at stored
    · rename_i same
      obtain rfl := Option.some.inj stored
      exact same ▸ mine
    · exact inv.owner other row stored
  · dsimp only
    rw [rows, grown billing rfl]
    by_cases ours : customer = customerId
    · obtain rfl := mine.mp ours
      subst ours
      have last : (site.named customer ++ (event.names customer).toList).getLast? =
          some subscription.providerSubscriptionId := by
        cases about : event.names customer with
        | none => simpa using named rfl about
        | some id => simp [named' id about]
      refine ⟨_, OrdMap.get?_set_self _ _ _, last.symm, fun id named => ?_⟩
      obtain rfl := Option.some.inj (last.symm.trans named)
      exact .inr ⟨subscription, current rfl, at_, rfl⟩
    · have none_ : event.names customerId = none := by
        rw [BillingEvent.names, names, if_neg fun same => ours (Option.some.inj same)]
      rw [none_, OrdMap.get?_set_ne _ _ fun same => ours (mine.mpr same), Option.toList_none,
        List.append_nil]
      obtain ⟨row, stored, same, current⟩ := inv.stored
      refine ⟨row, stored, same, fun id last => (current id last).imp_left ?_⟩
      rintro ⟨e, old, about, pending⟩
      refine ⟨e, old, about, fun applied => ?_⟩
      rw [completed] at applied
      rcases List.mem_append.mp applied with earlier | now
      · exact pending earlier
      · obtain rfl := List.inj_on_of_nodup_map inv.distinct old sent (List.mem_singleton.mp now)
        rw [none_] at about
        cases about

/-- What an event is taken to say is what the provider says of the subscription that it names, or else
of the one that was named last. -/
theorem PlanInv.authoritative {failsAt : Option FailurePoint} {answered : Bool}
    (inv : PlanInv userId customerId site) (sent : event ∈ site.sent)
    (told : (answered || event.subscription.all
      fun sent => site.provider.get? sent.providerSubscriptionId == some sent) = true)
    {existing : Option Subscription} {subscription : ProviderSubscription}
    (taken : authoritative (site.delivery event failsAt answered) existing = some subscription) :
    site.provider.get? subscription.providerSubscriptionId = some subscription ∧
      match event.subscription with
      | some sent => sent.providerSubscriptionId = subscription.providerSubscriptionId
      | none => existing.bind (·.providerSubscriptionId) = some subscription.providerSubscriptionId := by
  unfold Billing.authoritative at taken
  cases carries : event.subscription with
  | some payload =>
    obtain ⟨-, current, found, -⟩ := inv.known event sent payload carries
    have found : site.provider.get? payload.providerSubscriptionId = some current := found
    simp only [Site.delivery, carries, Option.map_some, Option.some_or] at taken
    cases answered with
    | true =>
      rw [if_pos rfl, found] at taken
      obtain rfl := Option.some.inj taken
      have key := inv.keyed _ _ found
      exact ⟨key ▸ found, key.symm⟩
    | false =>
      obtain rfl := Option.some.inj taken
      exact ⟨by simpa [carries] using told, rfl⟩
  | none =>
    simp only [Site.delivery, carries, Option.map_none, Option.none_or] at taken
    cases stored : existing.bind (·.providerSubscriptionId) with
    | none =>
      rw [stored] at taken
      cases taken
    | some id =>
      rw [stored] at taken
      cases answered with
      | true =>
        simp only [if_pos, Option.or_none] at taken
        have key := inv.keyed _ _ taken
        exact ⟨key ▸ taken, congrArg some key.symm⟩
      | false => cases taken

theorem PlanInv.deliver {failsAt : Option FailurePoint} {answered : Bool}
    (inv : PlanInv userId customerId site) (sent : event ∈ site.sent)
    (told : (answered || event.subscription.all
      fun sent => site.provider.get? sent.providerSubscriptionId == some sent) = true) :
    PlanInv userId customerId { site with
      billing := (applyEvent (site.delivery event failsAt answered) site.billing).2 } := by
  rcases applyEvent_cases (site.delivery event failsAt answered) site.billing with
    ⟨rows, completed⟩ | ⟨customer, user, subscription, names, found, taken, rows, completed⟩
  · have named : ({ site with
        billing := (applyEvent (site.delivery event failsAt answered) site.billing).2 } : Site).named
          customerId = site.named customerId := by
      rw [Site.named, completed]
      rfl
    refine { inv with completed := completed ▸ inv.completed, owner := rows ▸ inv.owner, stored := ?_ }
    rw [named]
    dsimp only
    rw [rows, completed]
    exact inv.stored
  · have names : event.providerCustomerId = some customer := names
    obtain ⟨current, about⟩ := inv.authoritative sent told taken
    refine inv.apply sent names found (fun _ => current) ?_ ?_ rows completed
    · rintro rfl unnamed
      rw [BillingEvent.names, if_pos names, Option.map_eq_none_iff] at unnamed
      rw [unnamed] at about
      obtain ⟨row, stored, same, -⟩ := inv.stored
      obtain ⟨old, theirs, owns⟩ := findUserByCustomerId_some found
      obtain rfl := (inv.owner user old theirs).mp owns
      rw [show site.billing.subscriptions.get? user = some row from stored] at about
      exact same.symm.trans about
    · intro id named
      obtain ⟨-, payload, carries, rfl⟩ := BillingEvent.names_some named
      rw [carries] at about
      exact about

theorem PlanInv.step {move : Move} (inv : PlanInv userId customerId site) (told_ : told move site = true)
    (moved : site.step move = some site') : PlanInv userId customerId site' := by
  cases move with
  | change eventId type subscription =>
    simp only [Site.step] at moved
    split at moved
    · rename_i fresh
      rw [Bool.and_eq_true, Option.isNone_iff_eq_none] at fresh
      obtain rfl := Option.some.inj moved
      refine inv.send fresh.1 ?_ ?_ ?_ ?_
      · intro id s found
        rw [OrdMap.get?_set] at found
        split at found
        · exact Option.some.inj found ▸ ‹_›
        · exact inv.keyed id s found
      · intro id old found
        rw [OrdMap.get?_set]
        split
        · rename_i same
          refine ⟨subscription, rfl, ?_⟩
          have kept := fresh.2
          rw [same, show site.provider.get? id = some old from found] at kept
          exact (by simpa using kept : old.providerCustomerId = _).symm
        · exact ⟨old, found, rfl⟩
      · intro id
        rw [OrdMap.get?_set, changed_names]
        split
        · rename_i same
          by_cases mine : subscription.providerCustomerId = customerId
          · exact .inr (.inl (by rw [if_pos mine, same]))
          · exact .inr (.inr ⟨subscription, rfl, mine⟩)
        · exact .inl rfl
      · rintro sent ⟨⟩
        exact ⟨rfl, subscription, OrdMap.get?_set_self _ _ _, rfl⟩
    · cases moved
  | checkout eventId type customer =>
    simp only [Site.step] at moved
    split at moved
    · rename_i fresh
      obtain rfl := Option.some.inj moved
      exact inv.send (Option.isNone_iff_eq_none.mp fresh) inv.keyed (fun _ old found => ⟨old, found, rfl⟩)
        (fun _ => .inl rfl) (by rintro _ ⟨⟩)
    · cases moved
  | deliver eventId failsAt answered =>
    obtain ⟨event, found, rfl⟩ := Option.map_eq_some_iff.mp moved
    rw [told, found] at told_
    obtain ⟨sent, rfl⟩ := Site.event_some found
    exact inv.deliver sent told_
  | pass ms =>
    obtain rfl := Option.some.inj moved
    exact { inv with }

theorem PlanInv.run {moves : List Move} (inv : PlanInv userId customerId site)
    (ran : site.run told moves = some site') : PlanInv userId customerId site' := by
  induction moves generalizing site with
  | nil => exact Option.some.inj ran ▸ inv
  | cons move moves ih =>
    unfold Site.run at ran
    split at ran
    · obtain ⟨next, moved, rest⟩ := Option.bind_eq_some_iff.mp ran
      exact ih (inv.step ‹_› moved) rest
    · cases ran

/-- However the changes at the provider and the deliveries of their events are mixed, once every event
is applied, the user has the plan that is paid for exactly if the subscription named last gives it. -/
theorem not_downgraded_iff {moves : List Move} {now : Int} (enrolled : Enrolled userId customerId rows)
    (ran : (Site.start rows now).run told moves = some site) (applied : AllApplied customerId site) :
    NotDowngraded userId customerId site ↔ LatestEntitles customerId site := by
  have inv := (PlanInv.start enrolled now).run ran
  have current : ∀ s, Entitled customerId site s → ∃ id ∈ (site.named customerId).getLast?,
      ∃ latest ∈ site.provider.get? id,
        site.planOf userId = effectivePlan (some latest.state) site.now := by
    intro s entitled
    obtain ⟨id, found⟩ := OrdMap.mem_values.mp entitled.current
    obtain ⟨event, sent, names⟩ := inv.announced id s found entitled.customer
    have listed : id ∈ site.named customerId := by
      refine List.mem_filterMap.mpr ⟨event.id, applied event sent (by rw [names]; rfl), ?_⟩
      have found : site.event event.id = some event := Table.lookup_of_mem inv.distinct sent
      rw [found]
      exact names
    have there := List.getLast?_eq_some_getLast (List.ne_nil_of_mem listed)
    obtain ⟨row, stored, -, current⟩ := inv.stored
    rcases current _ there with ⟨event, sent, names, pending⟩ | ⟨latest, found, at_, rfl⟩
    · exact absurd (applied event sent (by rw [names]; rfl)) pending
    · refine ⟨_, there, latest, found, ?_⟩
      rw [Site.planOf, show site.billing.subscriptions.get? userId = some _ from stored, Option.map_some]
      exact effectivePlan_persisted latest at_ site.now
  constructor
  · intro kept s entitled
    obtain ⟨id, last, latest, found, same⟩ := current s entitled
    exact ⟨id, last, latest, found, same.symm.trans (kept s entitled)⟩
  · intro agrees s entitled
    obtain ⟨id, last, latest, found, same⟩ := current s entitled
    obtain ⟨id', last', latest', found', gives⟩ := agrees s entitled
    obtain rfl := Option.some.inj (last.symm.trans last')
    obtain rfl := Option.some.inj (found.symm.trans found')
    exact same.trans gives

end Moves

/-! ### A subscription and its replacement -/

def enrolled : InMemorySubscriptionStore :=
  .set .empty "sam" ⟨"sam", .free, .incomplete, "cus", none, none, false, none, 0⟩

theorem enrolled_enrolled : Enrolled "sam" "cus" enrolled where
  owner := by
    intro user row stored
    rw [enrolled, OrdMap.get?_set] at stored
    split at stored
    · rename_i same
      obtain rfl := Option.some.inj stored
      exact ⟨fun _ => same.symm, fun _ => rfl⟩
    · cases stored
  stored := ⟨_, rfl, rfl⟩

def pro (id : String) (status : SubscriptionStatus) : ProviderSubscription :=
  ⟨id, "cus", .pro, status, none, false, none⟩

/-- Sam subscribes, subscribes anew and ends the first subscription; the events come in some order. -/
def replaced (order : List String) : List Move :=
  [.change "e1" "created" (pro "old" .active), .change "e2" "created" (pro "new" .active),
    .change "e3" "deleted" (pro "old" .canceled)] ++ order.map fun id => .deliver id none true

def replacedSite (order : List String) : Site :=
  ((Site.start enrolled 0).run told (replaced order)).getD (.start enrolled 0)

/-- The event of the new subscription comes last. -/
theorem not_downgraded_replaced : NotDowngraded "sam" "cus" (replacedSite ["e1", "e3", "e2"]) ∧
    (replacedSite ["e1", "e3", "e2"]).planOf "sam" = .pro := by
  have ran : (Site.start enrolled 0).run told (replaced ["e1", "e3", "e2"]) =
      some (replacedSite ["e1", "e3", "e2"]) := by rfl
  have applied : AllApplied "cus" (replacedSite ["e1", "e3", "e2"]) := by
    unfold AllApplied
    decide +kernel
  refine ⟨(not_downgraded_iff enrolled_enrolled ran applied).mpr ?_, by decide +kernel⟩
  have plans : ∀ s ∈ (replacedSite ["e1", "e3", "e2"]).provider.values, s.plan = .pro := by
    decide +kernel
  intro s entitled
  rw [plans s entitled.current]
  exact ⟨"new", by decide +kernel, pro "new" .active, by decide +kernel, by decide +kernel⟩

/-- The end of the old subscription is applied last, and Sam, who pays for the new one, is left
without a plan. -/
theorem replaced_downgraded : ¬∀ moves site, (Site.start enrolled 0).run told moves = some site →
    AllApplied "cus" site → NotDowngraded "sam" "cus" site := by
  intro kept
  have ran : (Site.start enrolled 0).run told (replaced ["e1", "e2", "e3"]) =
      some (replacedSite ["e1", "e2", "e3"]) := by rfl
  have applied : AllApplied "cus" (replacedSite ["e1", "e2", "e3"]) := by
    unfold AllApplied
    decide +kernel
  have paid : Entitled "cus" (replacedSite ["e1", "e2", "e3"]) (pro "new" .active) :=
    ⟨by decide +kernel, rfl, rfl⟩
  have same := kept _ _ ran applied _ paid
  revert same
  decide +kernel

end Finverse.Billing
