import Finverse.Billing.Service
import Mathlib.Tactic.Tauto

/-! Deliveries and redeliveries of billing events, each failing wherever it may. -/

namespace Finverse.Billing

/-- One step: a delivery, or other requests that change subscription rows. -/
inductive Step
  | deliver (d : Delivery)
  | elsewhere (subscriptions : InMemorySubscriptionStore)

/-- The delivery asks for the event id. -/
def Delivery.claims (d : Delivery) : Prop :=
  d.event.kind ≠ .ignored ∧ d.failsAt ≠ some .claim

/-- The id is delivered again. -/
def Redelivered (eventId : String) (steps : List Step) : Prop :=
  ∃ d, .deliver d ∈ steps ∧ d.claims ∧ d.event.id = eventId

/-- Every delivery answered as a duplicate is of an event whose effect is complete. -/
def Honest : World → List Step → Prop
  | _, [] => True
  | w, .deliver d :: steps =>
    ((applyEvent d w).1 = some .duplicate → d.event.id ∈ w.completed) ∧
      Honest (applyEvent d w).2 steps
  | w, .elsewhere subscriptions :: steps => Honest { w with subscriptions } steps

/-- Nothing fails from the claim to the stored row, and the event names a customer of ours with a
subscription. -/
def Delivery.Completes (d : Delivery) (w : World) : Prop :=
  ∃ customerId userId subscription,
    d.event.providerCustomerId = some customerId ∧
    w.subscriptions.findUserByCustomerId customerId = some userId ∧
    authoritative d (w.subscriptions.get? userId) = some subscription ∧
    w.subscriptions.taken (persisted userId customerId d.now subscription) = false ∧
    d.failsAt ≠ some .findUserByCustomerId ∧ d.failsAt ≠ some .get ∧
    (d.failsAt = some .fetchSubscription → fetches d (w.subscriptions.get? userId) = false) ∧
    d.failsAt ≠ some .upsert

/-- The first delivery of an event that is delivered again completes. -/
def FirstDeliveriesComplete : World → List Step → Prop
  | _, [] => True
  | w, .deliver d :: steps =>
    (d.claims → d.event.id ∉ w.seen → Redelivered d.event.id steps → d.Completes w) ∧
      FirstDeliveriesComplete (applyEvent d w).2 steps
  | w, .elsewhere subscriptions :: steps => FirstDeliveriesComplete { w with subscriptions } steps

variable {d : Delivery} {w : World}

theorem applyEvent_seen (claims : d.claims) (seen : d.event.id ∈ w.seen) :
    applyEvent d w = (some .duplicate, w) := by
  rw [applyEvent, if_neg claims.1, if_neg claims.2, World.claim, if_pos seen]
  rfl

theorem applyEvent_fresh (claims : d.claims) (fresh : d.event.id ∉ w.seen) :
    applyEvent d w = applyClaimed d { w with seen := w.seen ++ [d.event.id] } := by
  rw [applyEvent, if_neg claims.1, if_neg claims.2, World.claim, if_neg fresh]
  rfl

theorem applyEvent_silent (silent : ¬d.claims) :
    (applyEvent d w).1 ≠ some .duplicate ∧ (applyEvent d w).2 = w := by
  rw [Delivery.claims, not_and_or, not_not, not_not] at silent
  rw [applyEvent]
  split
  · simp
  · rw [if_pos (silent.resolve_left ‹_›)]
    simp

theorem persist_seen (userId customerId : String) (subscription : ProviderSubscription) :
    (persist d userId customerId subscription w).1 ≠ some .duplicate ∧
      (persist d userId customerId subscription w).2.seen = w.seen := by
  rw [persist]
  split
  · simp
  · split
    · simp
    · dsimp only
      split <;> simp

/-- A claimed delivery is never answered as a duplicate, and claims nothing more. -/
theorem applyClaimed_seen :
    (applyClaimed d w).1 ≠ some .duplicate ∧ (applyClaimed d w).2.seen = w.seen := by
  rw [applyClaimed]
  split
  · simp
  split
  · simp
  split
  · simp
  split
  · simp
  dsimp only
  split
  · simp
  split
  · simp
  · exact persist_seen _ _ _

theorem persist_completed {userId customerId : String} {subscription : ProviderSubscription} :
    (persist d userId customerId subscription w).2.completed =
      if d.failsAt ≠ some .upsert ∧
          w.subscriptions.taken (persisted userId customerId d.now subscription) = false then
        w.completed ++ [d.event.id]
      else w.completed := by
  rw [persist]
  by_cases fails : d.failsAt = some .upsert
  · simp [fails]
  rw [if_neg fails, InMemorySubscriptionStore.upsert]
  by_cases taken : w.subscriptions.taken (persisted userId customerId d.now subscription) = true
  · simp [taken]
  · rw [if_neg taken]
    simp [fails, Bool.eq_false_iff.mpr taken]

theorem applyClaimed_completes (completes : d.Completes w) :
    (applyClaimed d w).2.completed = w.completed ++ [d.event.id] := by
  obtain ⟨customerId, userId, subscription, customer, user, found, taken, lookup, get, fetch,
    upsert⟩ := completes
  have reads : ¬(decide (d.failsAt = some .fetchSubscription) &&
      fetches d (w.subscriptions.get? userId)) = true := by
    intro fails
    rw [Bool.and_eq_true, decide_eq_true_eq] at fails
    rw [fetch fails.1] at fails
    exact absurd fails.2 (by simp)
  rw [applyClaimed, customer]
  dsimp only
  rw [if_neg lookup, user]
  dsimp only
  rw [if_neg get, if_neg reads, found]
  dsimp only
  rw [persist_completed, if_pos ⟨upsert, taken⟩]

/-- The effect of a claimed delivery is complete only when nothing stood in its way. -/
theorem applyClaimed_incomplete (incomplete : ¬d.Completes w) :
    (applyClaimed d w).2.completed = w.completed := by
  rw [applyClaimed]
  split
  · rfl
  rename_i customerId customer
  split
  · rfl
  rename_i lookup
  split
  · rfl
  rename_i userId user
  split
  · rfl
  rename_i get
  dsimp only
  split
  · rfl
  rename_i reads
  split
  · rfl
  rename_i subscription found
  rw [persist_completed, if_neg]
  rintro ⟨upsert, taken⟩
  refine incomplete ⟨customerId, userId, subscription, customer, user, found, taken, lookup, get,
    fun fetch => ?_, upsert⟩
  simpa [fetch] using reads

/-- What a delivery that claims an unseen id leaves behind. -/
theorem applyEvent_claimed (claims : d.claims) (fresh : d.event.id ∉ w.seen) :
    (applyEvent d w).1 ≠ some .duplicate ∧
      (applyEvent d w).2.seen = w.seen ++ [d.event.id] ∧
      (d.Completes w → (applyEvent d w).2.completed = w.completed ++ [d.event.id]) ∧
      (¬d.Completes w → (applyEvent d w).2.completed = w.completed) := by
  rw [applyEvent_fresh claims fresh]
  let w' : World := { w with seen := w.seen ++ [d.event.id] }
  exact ⟨applyClaimed_seen.1, applyClaimed_seen.2, applyClaimed_completes (w := w'),
    applyClaimed_incomplete (w := w')⟩

/-! ### Runs -/

theorem redelivered_deliver {eventId : String} {steps : List Step} :
    Redelivered eventId (.deliver d :: steps) ↔
      d.claims ∧ d.event.id = eventId ∨ Redelivered eventId steps := by
  constructor
  · rintro ⟨d', hd', hclaims, hid⟩
    rcases List.mem_cons.mp hd' with heq | hd'
    · obtain rfl := Step.deliver.inj heq
      exact .inl ⟨hclaims, hid⟩
    · exact .inr ⟨d', hd', hclaims, hid⟩
  · rintro (⟨hclaims, hid⟩ | ⟨d', hd', hclaims, hid⟩)
    · exact ⟨d, List.mem_cons_self, hclaims, hid⟩
    · exact ⟨d', List.mem_cons_of_mem _ hd', hclaims, hid⟩

theorem redelivered_elsewhere {eventId : String} {subscriptions : InMemorySubscriptionStore}
    {steps : List Step} :
    Redelivered eventId (.elsewhere subscriptions :: steps) ↔ Redelivered eventId steps := by
  simp [Redelivered]

/-- No id that was claimed without effect is delivered again. -/
def NoneLost (w : World) (steps : List Step) : Prop :=
  ∀ eventId ∈ w.seen, eventId ∉ w.completed → ¬Redelivered eventId steps

/-- A first delivery loses nothing exactly when it completes or is the last of its event. -/
theorem noneLost_claimed {steps : List Step} (claims : d.claims) (fresh : d.event.id ∉ w.seen)
    (known : w.completed ⊆ w.seen) :
    NoneLost (applyEvent d w).2 steps ↔
      NoneLost w (.deliver d :: steps) ∧ (Redelivered d.event.id steps → d.Completes w) := by
  obtain ⟨-, seen, complete, incomplete⟩ := applyEvent_claimed claims fresh
  have others : ∀ eventId ∈ w.seen, d.event.id ≠ eventId := fun _ h he => fresh (he ▸ h)
  rw [NoneLost, NoneLost, seen]
  by_cases completes : d.Completes w
  · rw [complete completes]
    constructor
    · refine fun h => ⟨fun eventId hseen hdone => ?_, fun _ => completes⟩
      rw [redelivered_deliver]
      rintro (⟨-, same⟩ | again)
      · exact others eventId hseen same
      · refine h eventId (by simp [hseen]) ?_ again
        simp [hdone, Ne.symm (others eventId hseen)]
    · rintro ⟨h, -⟩ eventId hseen hdone again
      rw [List.mem_append, List.mem_singleton, not_or] at hdone
      have earlier := (List.mem_append.mp hseen).resolve_right (by simpa using hdone.2)
      exact h eventId earlier hdone.1 (redelivered_deliver.mpr (.inr again))
  · rw [incomplete completes]
    constructor
    · refine fun h => ⟨fun eventId hseen hdone => ?_, fun again => ?_⟩
      · rw [redelivered_deliver]
        rintro (⟨-, same⟩ | again)
        · exact others eventId hseen same
        · exact h eventId (by simp [hseen]) hdone again
      · exact absurd again (h d.event.id (by simp) fun hdone => fresh (known hdone))
    · rintro ⟨h, last⟩ eventId hseen hdone again
      rcases List.mem_append.mp hseen with earlier | mine
      · exact h eventId earlier hdone (redelivered_deliver.mpr (.inr again))
      · rw [List.mem_singleton.mp mine] at again
        exact completes (last again)

theorem known_claimed (claims : d.claims) (fresh : d.event.id ∉ w.seen)
    (known : w.completed ⊆ w.seen) : (applyEvent d w).2.completed ⊆ (applyEvent d w).2.seen := by
  obtain ⟨-, seen, complete, incomplete⟩ := applyEvent_claimed claims fresh
  rw [seen]
  by_cases completes : d.Completes w
  · rw [complete completes]
    intro eventId hdone
    rcases List.mem_append.mp hdone with hdone | hdone
    · exact List.mem_append_left _ (known hdone)
    · exact List.mem_append_right _ hdone
  · rw [incomplete completes]
    exact List.Subset.trans known (List.subset_append_left _ _)

theorem noneLost_deliver {steps : List Step} :
    NoneLost w (.deliver d :: steps) ↔
      NoneLost w steps ∧ (d.claims → d.event.id ∈ w.seen → d.event.id ∈ w.completed) := by
  constructor
  · intro h
    refine ⟨fun eventId seen lost again => ?_, fun claims seen => ?_⟩
    · exact h eventId seen lost (redelivered_deliver.mpr (.inr again))
    · by_contra lost
      exact h d.event.id seen lost (redelivered_deliver.mpr (.inl ⟨claims, rfl⟩))
  · rintro ⟨rest, now⟩ eventId seen lost again
    rcases redelivered_deliver.mp again with ⟨claims, rfl⟩ | again
    · exact lost (now claims seen)
    · exact rest eventId seen lost again

theorem honest_iff {steps : List Step} {w : World} (known : w.completed ⊆ w.seen) :
    Honest w steps ↔ NoneLost w steps ∧ FirstDeliveriesComplete w steps := by
  induction steps generalizing w with
  | nil => simp [Honest, FirstDeliveriesComplete, NoneLost, Redelivered]
  | cons step steps ih =>
    cases step with
    | elsewhere subscriptions =>
      have rest := ih (w := { w with subscriptions }) known
      simpa only [Honest, FirstDeliveriesComplete, NoneLost, redelivered_elsewhere] using rest
    | deliver d =>
      rw [Honest, FirstDeliveriesComplete]
      by_cases claims : d.claims
      · by_cases seen : d.event.id ∈ w.seen
        · rw [applyEvent_seen claims seen, ih known, noneLost_deliver]
          tauto
        · obtain ⟨answer, -, -⟩ := applyEvent_claimed claims seen
          rw [ih (known_claimed claims seen known), noneLost_claimed claims seen known]
          tauto
      · obtain ⟨answer, same⟩ := applyEvent_silent claims (w := w)
        rw [same, ih known, noneLost_deliver]
        tauto

/-- From a fresh store, duplicates are answered for completed events only, exactly when the first
delivery of every event that is delivered again completes. -/
theorem duplicates_honest_iff (subscriptions : InMemorySubscriptionStore) (steps : List Step) :
    Honest (.start subscriptions) steps ↔
      FirstDeliveriesComplete (.start subscriptions) steps := by
  rw [honest_iff (List.nil_subset _)]
  constructor
  · exact fun h => h.2
  · exact fun h => ⟨fun _ seen => (nomatch seen), h⟩

/-! ### A lost payment -/

/-- The row that starting a checkout leaves. -/
def checkingOut : InMemorySubscriptionStore :=
  OrdMap.empty.set "sam" ⟨"sam", .free, .incomplete, "cus_1", none, none, false, none, 0⟩

def paid : BillingEvent :=
  ⟨"evt_1", "customer.subscription.created", .subscriptionUpdated, some "cus_1",
    some ⟨"sub_1", "cus_1", .pro, .active, some 2000, false, none⟩⟩

/-- The row cannot be written when the payment is first reported. -/
def unwritten : Delivery := ⟨paid, some .upsert, fun _ => none, 1⟩

def redelivery : Delivery := ⟨paid, none, fun _ => none, 2⟩

theorem payment_lost :
    ¬Honest (.start checkingOut) [.deliver unwritten, .deliver redelivery] ∧
      let failed := applyEvent unwritten (.start checkingOut)
      failed.1 = none ∧ (applyEvent redelivery failed.2).1 = some .duplicate ∧
        ((applyEvent redelivery failed.2).2.subscriptions.get? "sam").map (·.plan) =
          some .free := by
  refine ⟨?_, by decide, by decide, by decide⟩
  rintro ⟨-, answered, -⟩
  exact absurd (answered (by decide)) (by decide)

end Finverse.Billing
