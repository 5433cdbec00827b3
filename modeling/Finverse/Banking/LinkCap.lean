import Finverse.Banking.Links
import Finverse.Framework.History

/-! How many institutions a user has connected at once. -/

namespace Finverse.Banking.Links

open Interleave Billing

/-! ### What the requests ask for -/

/-- The link whose state a call sets. -/
def Call.touches : Call → Option (String × Nat)
  | .startSync userId id | .markHealthy userId id _ | .markFailed userId id _ => some (userId, id)
  | _ => none

/-- A link is created after a count that leaves room for it, and only a link that the request created
has its state set. -/
structure LinkAsks (h : List (Event ports)) (op : Call) : Prop where
  create : ∀ userId item inst name token, op = .create userId item inst name token →
    ∃ links plan, ⟨.list userId, links⟩ ∈ h ∧ ⟨.currentPlan userId, plan⟩ ∈ h ∧
      links.countP connected < bankLinkLimitFor plan
  touch : ∀ userId id, op.touches = some (userId, id) → ∃ item inst name token link,
    ⟨.create userId item inst name token, link⟩ ∈ h ∧ link.id = id

section Asks

variable {K : Config} {h : List (Event ports)} {userId : String} {linkId : Nat}

theorem call_bind_asks {α : Type} {D : List (Event ports) → Call → Prop} {c : Call}
    {f : c.Reply → Service α} {ok : List (Event ports) → α → Prop}
    {err : List (Event ports) → HttpError → Prop} :
    Task.Asks (I := ports) D ok err h (call c >>= f) ↔
      D h c ∧ ∀ r : c.Reply, Task.Asks (I := ports) D ok err (h ++ [⟨c, r⟩]) (f r) :=
  Task.asks_call_bind (I := ports)

theorem call_asks {D : List (Event ports) → Call → Prop} {c : Call}
    {ok : List (Event ports) → c.Reply → Prop} {err : List (Event ports) → HttpError → Prop} :
    Task.Asks (I := ports) D ok err h (call c) ↔ D h c ∧ ∀ r : c.Reply, ok (h ++ [⟨c, r⟩]) r :=
  Task.asks_call (I := ports)

/-- The calls that neither create a link nor set the state of one. -/
def Call.plain : Call → Bool
  | .create .. | .startSync .. | .markHealthy .. | .markFailed .. => false
  | _ => true

theorem asks_plain {c : Call} (plain : c.plain = true) : LinkAsks h c where
  create := by
    rintro _ _ _ _ _ rfl
    cases plain
  touch := by
    intro u id touches
    cases c <;> simp [Call.touches, Call.plain] at touches plain

/-- The request created the link. -/
def Mine (userId : String) (linkId : Nat) (h : List (Event ports)) : Prop :=
  ∃ item inst name token link, ⟨.create userId item inst name token, link⟩ ∈ h ∧ link.id = linkId

theorem Mine.append (mine : Mine userId linkId h) (more : List (Event ports)) :
    Mine userId linkId (h ++ more) := by
  obtain ⟨item, inst, name, token, link, there, same⟩ := mine
  exact ⟨item, inst, name, token, link, List.mem_append_left _ there, same⟩

theorem asks_touch {c : Call} (mine : Mine userId linkId h) (touches : c.touches = some (userId, linkId))
    (old : ∀ u item inst name token, c ≠ .create u item inst name token) : LinkAsks h c where
  create := fun u item inst name token same => absurd same (old u item inst name token)
  touch := by
    intro u id touches'
    obtain ⟨rfl, rfl⟩ := Prod.mk.inj (Option.some.inj (touches.symm.trans touches'))
    exact mine

theorem requireConfigured_bind_asks {α : Type} {m : Service α}
    (next : Task.Asks (I := ports) LinkAsks (fun _ _ => True) (fun _ _ => True) h m) :
    Task.Asks (I := ports) LinkAsks (fun _ _ => True) (fun _ _ => True) h
      (requireConfigured K >>= fun _ => m) := by
  unfold requireConfigured
  refine Task.asks_bind.mpr ?_
  split
  · exact next
  · trivial

theorem synchronize_asks {link : BankLink} (mine : Mine userId linkId h) :
    Task.Asks (I := ports) LinkAsks (fun h' _ => Mine userId linkId h') (fun _ _ => True) h
      (synchronize K userId linkId link) := by
  unfold synchronize
  cases K.decrypt link.encryptedAccessToken with
  | none => exact mine
  | some accessToken =>
    refine call_bind_asks.mpr ⟨asks_plain rfl, fun pulled => ?_⟩
    cases pulled with
    | error code => exact mine.append _
    | ok cursor =>
      refine call_bind_asks.mpr ⟨asks_touch (mine.append _) rfl (fun _ _ _ _ _ => nofun), fun _ => ?_⟩
      exact call_asks.mpr ⟨asks_plain rfl, fun outcome => ((mine.append _).append _).append _⟩

theorem sync_asks (mine : Mine userId linkId h) :
    Task.Asks (I := ports) LinkAsks (fun _ _ => True) (fun _ _ => True) h (sync K userId linkId) := by
  unfold sync
  refine requireConfigured_bind_asks (call_bind_asks.mpr ⟨asks_plain rfl, fun existing => ?_⟩)
  cases existing with
  | none => trivial
  | some existing =>
    refine call_bind_asks.mpr ⟨asks_touch (mine.append _) rfl (fun _ _ _ _ _ => nofun), fun started => ?_⟩
    cases started with
    | none => trivial
    | some link =>
      refine Task.asks_bind.mpr ((synchronize_asks ((mine.append _).append _)).weaken ?_ fun _ _ _ => trivial)
      intro h' outcome mine
      cases outcome with
      | ok done => trivial
      | error code =>
        refine call_bind_asks.mpr ⟨asks_touch mine rfl (fun _ _ _ _ _ => nofun), fun _ => ?_⟩
        exact call_bind_asks.mpr ⟨asks_plain rfl, fun _ => trivial⟩

/-- With gates, what remains is what the plan leaves. -/
theorem remainingBankLinks_asks (enforced : K.gatesEnforced = true) (count : Nat) :
    Task.Asks (I := ports) LinkAsks (fun h' remaining => ∃ plan,
      h' = h ++ [⟨.currentPlan userId, plan⟩] ∧ remaining = some (bankLinkLimitFor plan - count))
      (fun _ _ => True) h (remainingBankLinks K userId count) := by
  unfold remainingBankLinks
  rw [if_pos enforced]
  exact call_bind_asks.mpr ⟨asks_plain rfl, fun plan => ⟨plan, rfl, rfl⟩⟩

theorem exchange_asks (publicToken institutionName : String) (institutionId : Option String)
    (enforced : K.gatesEnforced = true) :
    Task.Asks (I := ports) LinkAsks (fun _ _ => True) (fun _ _ => True) []
      (exchange K userId publicToken institutionName institutionId) := by
  unfold exchange
  refine requireConfigured_bind_asks ?_
  split
  · trivial
  · refine call_bind_asks.mpr ⟨asks_plain rfl, fun links => ?_⟩
    refine Task.asks_bind.mpr ((remainingBankLinks_asks enforced _).weaken ?_ fun _ _ _ => trivial)
    rintro h' remaining ⟨plan, rfl, rfl⟩
    by_cases full : some (bankLinkLimitFor plan - links.countP connected) = some 0
    · rw [if_pos full]
      trivial
    · rw [if_neg full]
      refine call_bind_asks.mpr ⟨asks_plain rfl, fun exchanged => ?_⟩
      rcases exchanged with code | ⟨itemId, accessToken⟩
      · trivial
      · refine call_bind_asks.mpr ⟨⟨?_, fun _ _ touches => (nomatch touches)⟩, fun link => ?_⟩
        · intro u item inst name token same
          obtain ⟨rfl, -⟩ := Call.create.inj same
          refine ⟨links, plan, by simp, by simp, ?_⟩
          have room : bankLinkLimitFor plan - links.countP connected ≠ 0 := fun none_ => full (by rw [none_])
          omega
        · refine Task.asks_bind.mpr (Task.asks_tryCatch.mpr ?_)
          have mine : Mine userId link.id ([] ++ [⟨.list userId, links⟩] ++
              [⟨.currentPlan userId, plan⟩] ++ [⟨.exchangePublicToken publicToken, .ok (itemId, accessToken)⟩] ++
                [⟨.create userId itemId institutionId (storedName institutionName) (K.encrypt accessToken), link⟩]) :=
            ⟨_, _, _, _, link, List.mem_append_right _ (List.mem_singleton.mpr rfl), rfl⟩
          refine (sync_asks mine).weaken (fun h' _ _ => ?_) fun h' _ _ => ?_
          · exact call_asks.mpr ⟨asks_plain rfl, fun _ => trivial⟩
          · exact call_asks.mpr ⟨asks_plain rfl, fun _ => trivial⟩

theorem disconnect_asks : Task.Asks (I := ports) LinkAsks (fun _ _ => True) (fun _ _ => True) []
    (disconnect K userId linkId) := by
  unfold disconnect
  refine requireConfigured_bind_asks (call_bind_asks.mpr ⟨asks_plain rfl, fun found => ?_⟩)
  cases found with
  | none => trivial
  | some link =>
    dsimp only
    split
    · trivial
    · refine call_bind_asks.mpr ⟨asks_plain rfl, fun removed => ?_⟩
      have gone (h' : List (Event ports)) : Task.Asks (I := ports) LinkAsks (fun _ _ => True)
          (fun _ _ => True) h' (do
            call (.purgeWebhooks userId linkId)
            let _ ← call (.remove userId linkId) : Service Unit) := by
        refine call_bind_asks.mpr ⟨asks_plain rfl, fun _ => ?_⟩
        exact call_bind_asks.mpr ⟨asks_plain rfl, fun _ => trivial⟩
      cases removed with
      | ok done => exact gone _
      | error code =>
        by_cases unknown : code = "ITEM_NOT_FOUND"
        · simp only [if_pos unknown]
          exact gone _
        · simp only [if_neg unknown]
          trivial

theorem handle_asks (enforced : K.gatesEnforced = true) (r : Request) :
    Task.Asks (I := ports) LinkAsks (fun _ _ => True) (fun _ _ => True) [] (handle K r) := by
  cases r with
  | exchange userId publicToken institutionName institutionId =>
    exact exchange_asks publicToken institutionName institutionId enforced
  | disconnect userId linkId => exact Task.asks_map.mpr disconnect_asks

end Asks

/-! ### What the calls do to the links of a user -/

section Links

variable {w : World} {userId : String} {env : Env}

/-- How many institutions the user has connected. -/
def World.connected (w : World) (userId : String) : Nat := (w.links.list userId).countP Links.connected

namespace InMemoryBankLinkStore

variable {st : InMemoryBankLinkStore} {u : String} {id : Nat} {change : BankLink → BankLink}
  {starts : Bool}

theorem list_put (links : List BankLink) :
    (st.put u links).list userId = if u = userId then links else st.list userId := by
  rw [list, put, OrdMap.get?_set]
  split <;> rfl

/-- An update changes one link of its user, if there is one. -/
theorem list_update : (st.update u id change starts).2.list userId = st.list userId ∨
    u = userId ∧ (st.update u id change starts).2.list userId =
      Table.modify BankLink.id id change (st.list userId) := by
  unfold update
  cases st.get u id with
  | none => exact .inl rfl
  | some link =>
    have listed : ∀ st' : InMemoryBankLinkStore,
        st'.rows = (st.put u (Table.modify BankLink.id id change (st.list u))).rows →
          st'.list userId = st.list userId ∨ u = userId ∧
            st'.list userId = Table.modify BankLink.id id change (st.list userId) := by
      intro st' same
      have listed : st'.list userId =
          (st.put u (Table.modify BankLink.id id change (st.list u))).list userId := by
        rw [list, list, same]
      rw [listed, list_put]
      by_cases mine : u = userId
      · subst mine
        exact .inr ⟨rfl, if_pos rfl⟩
      · exact .inl (if_neg mine)
    cases starts <;> exact listed _ rfl

theorem list_remove : ((st.remove u id).2.list userId).Sublist (st.list userId) := by
  unfold remove
  split
  · have listed : ({ st.put u ((st.list u).eraseP (·.id = id)) with
        syncStartedAt := st.syncStartedAt.erase (u, id) } : InMemoryBankLinkStore).list userId =
          (st.put u ((st.list u).eraseP (·.id = id))).list userId := rfl
    rw [listed, list_put]
    split
    · rename_i mine
      subst mine
      exact List.eraseP_sublist
    · exact List.Sublist.refl _
  · exact List.Sublist.refl _

theorem list_startSync {now : Int} : (st.startSync u id now).2.list userId = st.list userId ∨
    u = userId ∧ (st.startSync u id now).2.list userId = Table.modify BankLink.id id
      (fun link => { link with status := .syncing, errorCode := none }) (st.list userId) := by
  unfold startSync
  cases st.get u id with
  | none => exact .inl rfl
  | some link =>
    dsimp only
    split
    · exact .inl rfl
    · let st' := { st with syncStartedAt := st.syncStartedAt.set (u, id) now }
      have updated : (st'.update u id (fun link => { link with status := .syncing, errorCode := none })
        true).2.list userId = st'.list userId ∨ _ := list_update
      exact updated

end InMemoryBankLinkStore

def Call.creates (userId : String) : Call → Bool
  | .create u .. => u == userId
  | _ => false

theorem creates_iff {c : Call} : c.creates userId = true ↔
    ∃ item inst name token, c = .create userId item inst name token := by
  cases c <;> simp [Call.creates]

/-- Each call adds a link, sets the state of one, to one of those that count, or takes links away. -/
theorem perform_links (env : Env) (w : World) (userId : String) (call : Call) :
    (∃ item inst name token link, call = .create userId item inst name token ∧ link.id = w.supply ∧
      connected link = true ∧ (perform call env w).2.links.list userId = w.links.list userId ++ [link] ∧
        (perform call env w).2.supply = w.supply + 1) ∨
    (∃ id change, call.touches = some (userId, id) ∧ (∀ link : BankLink, (change link).id = link.id) ∧
      (∀ link, connected (change link) = true) ∧ (perform call env w).2.links.list userId =
        Table.modify BankLink.id id change (w.links.list userId) ∧
          (perform call env w).2.supply = w.supply) ∨
    call.creates userId = false ∧
      ((perform call env w).2.links.list userId).Sublist (w.links.list userId) ∧
        w.supply ≤ (perform call env w).2.supply := by
  have set (u : String) (id : Nat) (change : BankLink → BankLink) :
      (w.links.update u id change false).2.list userId = w.links.list userId ∨
        u = userId ∧ (w.links.update u id change false).2.list userId =
          Table.modify BankLink.id id change (w.links.list userId) :=
    InMemoryBankLinkStore.list_update
  cases call with
  | create u item inst name token =>
    by_cases mine : u = userId
    · subst mine
      refine .inl ⟨item, inst, name, token, _, rfl, rfl, ?_,
        (InMemoryBankLinkStore.list_put _).trans (if_pos rfl), rfl⟩
      rfl
    · refine .inr (.inr ⟨beq_false_of_ne mine, ?_, Nat.le_succ _⟩)
      have other : (perform (.create u item inst name token) env w).2.links.list userId =
          w.links.list userId := (InMemoryBankLinkStore.list_put _).trans (if_neg mine)
      rw [other]
  | startSync u id =>
    have started : (w.links.startSync u id env.now).2.list userId = w.links.list userId ∨ _ :=
      InMemoryBankLinkStore.list_startSync
    rcases started with same | ⟨rfl, moved⟩
    · exact .inr (.inr ⟨rfl, same ▸ List.Sublist.refl _, Nat.le_refl _⟩)
    · exact .inr (.inl ⟨id, fun link => { link with status := .syncing, errorCode := none }, rfl,
        fun _ => rfl, fun _ => rfl, moved, rfl⟩)
  | markHealthy u id cursor =>
    rcases set u id (fun link => { link with
      cursor, status := .healthy, errorCode := none, lastSyncedAt := some env.now }) with same | ⟨rfl, moved⟩
    · exact .inr (.inr ⟨rfl, same ▸ List.Sublist.refl _, Nat.le_refl _⟩)
    · exact .inr (.inl ⟨id, fun link => { link with
        cursor, status := .healthy, errorCode := none, lastSyncedAt := some env.now }, rfl,
          fun _ => rfl, fun _ => rfl, moved, rfl⟩)
  | markFailed u id code =>
    rcases set u id (fun link => { link with
      status := if code = "ITEM_LOGIN_REQUIRED" then .needsReauth else .error
      errorCode := some code }) with same | ⟨rfl, moved⟩
    · exact .inr (.inr ⟨rfl, same ▸ List.Sublist.refl _, Nat.le_refl _⟩)
    · refine .inr (.inl ⟨id, fun link => { link with
        status := if code = "ITEM_LOGIN_REQUIRED" then .needsReauth else .error
        errorCode := some code }, rfl, fun _ => rfl, fun link => ?_, moved, rfl⟩)
      by_cases login : code = "ITEM_LOGIN_REQUIRED" <;> simp [connected, login]
  | remove u id => exact .inr (.inr ⟨rfl, InMemoryBankLinkStore.list_remove, Nat.le_refl _⟩)
  | _ => exact .inr (.inr ⟨rfl, List.Sublist.refl _, Nat.le_refl _⟩)

end Links

/-! ### The cap over whole runs -/

abbrev Deed : Type := Entry ports Env World Request

def Call.lists (userId : String) : Call → Bool
  | .list u => u == userId
  | _ => false

/-- The user is on the plan whenever that is looked at. -/
def planKept (userId : String) (plan : PlanId) : Deed → Bool
  | ⟨_, _, .currentPlan u, env, w⟩ =>
    u != userId || effectivePlan ((w.subscriptions.get? userId).map Subscription.state) env.now == plan
  | _ => true

/-- What keeps a run within the cap: nobody has connected an institution of the user since the request
that connects one counted them. -/
def capOver (userId : String) (plan : PlanId) (log : List Deed) (e : Deed) : Bool :=
  planKept userId plan e && (!e.op.creates userId ||
    quietSince (fun l : Deed => l.thread == e.thread && l.op.lists userId)
      (fun l : Deed => l.op.creates userId) log)

def WithinCap (userId : String) (plan : PlanId) (w : World) : Prop :=
  w.connected userId ≤ bankLinkLimitFor plan

instance withinCapDecidable (userId : String) (plan : PlanId) (w : World) :
    Decidable (WithinCap userId plan w) :=
  inferInstanceAs (Decidable (w.connected userId ≤ bankLinkLimitFor plan))

/-- Ids to come are new, and the user starts within the cap. -/
structure Fits (userId : String) (plan : PlanId) (w : World) : Prop where
  drawn : ∀ link ∈ w.links.list userId, link.id < w.supply
  within : WithinCap userId plan w

/-- A link that a request created counts as long as it is stored, and no count that nobody added to is
exceeded. -/
structure CapInv (userId : String) (plan : PlanId) (log : List Deed) (w : World) : Prop
    extends Fits userId plan w where
  created : ∀ e ∈ log, ∀ item inst name token link,
    e.event machine = ⟨.create userId item inst name token, link⟩ →
      link.id < w.supply ∧ ∀ row ∈ w.links.list userId, row.id = link.id → connected row = true
  counted : ∀ before l after links, log = before ++ l :: after →
    l.event machine = ⟨.list userId, links⟩ → (∀ e ∈ after, e.op.creates userId = false) →
      w.connected userId ≤ links.countP connected

section Runs

variable {K : Config} {userId : String} {plan : PlanId} {w₀ : World} {log before after : List Deed}
  {e l : Deed} {pool : Pool ports World Request (Except HttpError (Option BankLink))} {n : Nat}

/-- A deed that adds no link of the user keeps what is known of the ones there are. -/
theorem CapInv.keep (inv : CapInv userId plan log e.before)
    (adds : e.op.creates userId = false)
    (supply : e.before.supply ≤ (e.after machine).supply)
    (rows : ∀ row ∈ (e.after machine).links.list userId, connected row = true ∨
      ∃ old ∈ e.before.links.list userId, old.id = row.id ∧ connected old = connected row)
    (drawn : ∀ row ∈ (e.after machine).links.list userId, row.id < e.before.supply)
    (fewer : (e.after machine).connected userId ≤ e.before.connected userId) :
    CapInv userId plan (log ++ [e]) (e.after machine) where
  drawn := fun row stored => Nat.lt_of_lt_of_le (drawn row stored) supply
  within := Nat.le_trans fewer inv.within
  created := by
    intro e' there item inst name token link created
    rcases List.mem_append.mp there with earlier | now
    · obtain ⟨old, kept⟩ := inv.created e' earlier item inst name token link created
      refine ⟨Nat.lt_of_lt_of_le old supply, fun row stored same => ?_⟩
      rcases rows row stored with counts | ⟨row', stored', same', counts⟩
      · exact counts
      · exact counts ▸ kept row' stored' (same'.trans same)
    · obtain rfl := List.mem_singleton.mp now
      obtain ⟨op, -⟩ := Entry.of_event created
      rw [creates_iff.mpr ⟨item, inst, name, token, op⟩] at adds
      cases adds
  counted := by
    intro before l after links split listed alone
    rcases List.eq_nil_or_concat after with rfl | ⟨rest, last, rfl⟩
    · obtain ⟨rfl, same⟩ := List.append_inj' split rfl
      obtain rfl := (List.cons.inj same).1
      obtain ⟨op, reply⟩ := Entry.of_event listed
      obtain ⟨thread, req, op', input, w⟩ := e
      subst op
      exact reply ▸ fewer
    · rw [List.concat_eq_append] at split alone
      rw [← List.cons_append, ← List.append_assoc] at split
      obtain ⟨rfl, -⟩ := List.append_inj' split rfl
      exact Nat.le_trans fewer (inv.counted before l rest links rfl listed fun e' there =>
        alone e' (List.mem_append_left _ there))

/-- A new link is one that counts, and there was room for it. -/
theorem CapInv.create (inv : CapInv userId plan log e.before) {link : BankLink}
    (creates : e.op.creates userId = true) (fresh : link.id = e.before.supply)
    (counts : connected link = true)
    (added : (e.after machine).links.list userId = e.before.links.list userId ++ [link])
    (supply : (e.after machine).supply = e.before.supply + 1)
    (room : e.before.connected userId < bankLinkLimitFor plan) :
    CapInv userId plan (log ++ [e]) (e.after machine) where
  drawn := by
    intro row stored
    rw [added] at stored
    rcases List.mem_append.mp stored with old | new
    · have := inv.drawn row old
      omega
    · obtain rfl := List.mem_singleton.mp new
      omega
  within := by
    rw [World.connected] at room
    rw [WithinCap, World.connected, added, List.countP_append, List.countP_singleton, if_pos counts]
    exact room
  created := by
    intro e' there item inst name token link' created
    rw [added]
    rcases List.mem_append.mp there with earlier | now
    · obtain ⟨old, kept⟩ := inv.created e' earlier item inst name token link' created
      refine ⟨by omega, fun row stored same => ?_⟩
      rcases List.mem_append.mp stored with was | new
      · exact kept row was same
      · obtain rfl := List.mem_singleton.mp new
        exact counts
    · obtain rfl := List.mem_singleton.mp now
      obtain ⟨thread, req, op', input, w⟩ := e'
      obtain ⟨rfl, reply⟩ := Entry.of_event created
      have number : link'.id = w.supply := by rw [← reply]; rfl
      refine ⟨by rw [number, supply]; exact Nat.lt_succ_self _, fun row stored same => ?_⟩
      rcases List.mem_append.mp stored with was | new
      · have older := inv.drawn row was
        dsimp only at older
        omega
      · obtain rfl := List.mem_singleton.mp new
        exact counts
  counted := by
    intro before l after links split listed alone
    rcases List.eq_nil_or_concat after with rfl | ⟨rest, last, rfl⟩
    · obtain ⟨rfl, same⟩ := List.append_inj' split rfl
      obtain rfl := (List.cons.inj same).1
      obtain ⟨op, -⟩ := Entry.of_event listed
      rw [op] at creates
      cases creates
    · rw [List.concat_eq_append] at split alone
      rw [← List.cons_append, ← List.append_assoc] at split
      obtain ⟨rfl, last_⟩ := List.append_inj' split rfl
      obtain rfl := (List.cons.inj last_).1
      rw [alone e (by simp)] at creates
      cases creates

/-- The links that a request counted, and the plan it found, leave room when it connects one. -/
theorem CapInv.room (enforced : K.gatesEnforced = true) (inv : CapInv userId plan log e.before)
    (recorded : Pool.Recorded (system K) w₀ (fun log e => capOver userId plan log e = true)
      (log ++ [e]) pool) (creates : e.op.creates userId = true) :
    e.before.connected userId < bankLinkLimitFor plan := by
  have asks : LinkAsks (own machine log e.thread) e.op := recorded.asks (handle_asks enforced e.req)
  obtain ⟨item, inst, name, token, op⟩ := creates_iff.mp creates
  obtain ⟨links, plan', listed, looked, room⟩ := asks.create userId item inst name token op
  obtain ⟨l, there, mine, listed'⟩ := mem_own.mp listed
  obtain ⟨p, there', -, looked'⟩ := mem_own.mp looked
  obtain ⟨before, after, rfl⟩ := List.append_of_mem there
  have same : plan' = plan := by
    obtain ⟨before', after', split⟩ := List.append_of_mem there'
    rw [split, List.append_assoc, List.cons_append] at recorded
    have kept := recorded.step.2
    rw [capOver, Bool.and_eq_true] at kept
    obtain ⟨thread, req, op', input, w⟩ := p
    obtain ⟨rfl, rfl⟩ := Entry.of_event looked'
    have kept := kept.1
    simp only [planKept, bne_self_eq_false, Bool.false_or, beq_iff_eq] at kept
    exact kept
  have alone := recorded.step.2
  rw [capOver, Bool.and_eq_true, creates, Bool.not_true, Bool.false_or] at alone
  obtain ⟨isList, -⟩ := Entry.of_event listed'
  have alone := quietSince_split alone.2 (by rw [isList, mine]; simp [Call.lists])
  exact Nat.lt_of_le_of_lt (inv.counted before l after links rfl listed' alone) (same ▸ room)

theorem CapInv.next (enforced : K.gatesEnforced = true) (inv : CapInv userId plan log e.before)
    (recorded : Pool.Recorded (system K) w₀ (fun log e => capOver userId plan log e = true)
      (log ++ [e]) pool) : CapInv userId plan (log ++ [e]) (e.after machine) := by
  rcases perform_links e.input e.before userId e.op with
    ⟨item, inst, name, token, link, op, fresh, counts, added, supply⟩ |
    ⟨id, change, touches, same, counts, moved, supply⟩ | ⟨adds, fewer, supply⟩
  · have creates : e.op.creates userId = true := creates_iff.mpr ⟨item, inst, name, token, op⟩
    exact inv.create creates fresh counts added supply (inv.room enforced recorded creates)
  · have adds : e.op.creates userId = false := by
      generalize e.op = c at touches
      cases c <;> first | rfl | cases touches
    -- The link is one that the request created, so it counts before and after.
    have asks : LinkAsks (own machine log e.thread) e.op := recorded.asks (handle_asks enforced e.req)
    obtain ⟨item, inst, name, token, link, mine, rfl⟩ := asks.touch userId id touches
    obtain ⟨e', there, -, created⟩ := mem_own.mp mine
    obtain ⟨-, kept⟩ := inv.created e' there item inst name token link created
    have moved : (e.after machine).links.list userId =
        Table.modify BankLink.id link.id change (e.before.links.list userId) := moved
    refine inv.keep adds supply.ge (fun row stored => ?_) (fun row stored => ?_) (Nat.le_of_eq ?_)
    · rcases Table.mem_modify (moved ▸ stored) with old | ⟨old, -, -, rfl⟩
      · exact .inr ⟨row, old, rfl, rfl⟩
      · exact .inl (counts old)
    · rcases Table.mem_modify (moved ▸ stored) with old | ⟨old, stored', -, rfl⟩
      · exact inv.drawn row old
      · exact same old ▸ inv.drawn old stored'
    · rw [World.connected, moved]
      refine Table.countP_modify fun row found => ?_
      rw [counts row, kept row (Table.lookup_mem found) (Table.lookup_key found)]
  · exact inv.keep adds supply (fun row stored => .inr ⟨row, fewer.subset stored, rfl, rfl⟩)
      (fun row stored => inv.drawn row (fewer.subset stored)) fewer.countP_le

/-- As long as the plan is unchanged, and nobody connects an institution of the user between the count
and the creation of another request, the user never has more than the plan allows. -/
theorem link_cap (enforced : K.gatesEnforced = true) (fits : Fits userId plan w₀)
    (recorded : Pool.Recorded (system K) w₀ (fun log e => capOver userId plan log e = true) log pool) :
    WithinCap userId plan pool.state := by
  have inv : CapInv userId plan log (ending machine w₀ log) := by
    refine recorded.induct (P := fun log => CapInv userId plan log (ending machine w₀ log)) ?_ ?_
    · exact { fits with
        created := fun e done => (nomatch done)
        counted := fun before l after links split => by simp at split }
    · intro log e pool recorded from_ _ inv
      have from_ : e.before = ending machine w₀ log := from_
      rw [← from_] at inv
      rw [ending_snoc]
      exact inv.next enforced recorded
  rw [recorded.state]
  exact inv.within

end Runs

/-! ### Connecting and disconnecting -/

def sampleConfig : Config := ⟨true, true, fun token => token, some⟩

/-- Nothing is connected, and nobody pays. -/
def World.empty : World := ⟨0, ⟨.empty, .empty⟩, .empty⟩

def connect : Request := .exchange "sam" "public" "Bank" none

def free (log : List Deed) (e : Deed) : Bool := capOver "sam" .free log e

/-- Sam connects a bank, is refused a second one, disconnects the first and connects another. -/
def changing : List (Pool.Move Env Request) :=
  let turns (n k : Nat) : List (Pool.Move Env Request) := List.replicate k (.run n { now := 1000 })
  .start connect :: turns 0 9 ++ .start connect :: turns 1 2 ++
    .start (.disconnect "sam" 0) :: turns 2 4 ++ .start connect :: turns 3 9

theorem link_cap_changing :
    (Pool.courseUnder (system sampleConfig) free .empty changing).1.length = 24 ∧
      WithinCap "sam" .free (Pool.courseUnder (system sampleConfig) free .empty changing).2.state := by
  refine ⟨by decide +kernel, link_cap (K := sampleConfig) rfl ⟨?_, ?_⟩
    (Pool.courseUnder_recorded (system sampleConfig) free .empty changing)⟩
  · exact fun _ stored => nomatch stored
  · exact Nat.zero_le _

/-- Both requests count before either connects. -/
def together : List (Pool.Move Env Request) :=
  [.start connect, .start connect] ++
    [0, 0, 1, 1, 0, 1, 0, 1].map fun n => .run n { now := 1000 }

/-- A free plan of one institution, and two are connected at once. -/
theorem two_links_connected : ¬∀ log pool, Pool.Recorded (system sampleConfig) .empty
    (fun _ e => planKept "sam" .free e = true) log pool → WithinCap "sam" .free pool.state := by
  intro cap
  have within := cap _ _ (Pool.courseUnder_recorded (system sampleConfig)
    (fun _ e => planKept "sam" .free e) .empty together)
  revert within
  decide +kernel

end Finverse.Banking.Links
