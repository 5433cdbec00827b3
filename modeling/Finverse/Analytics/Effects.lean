import Finverse.Analytics.Service
import Finverse.Framework.History

/-! What the calls do to a ledger and to the cache, and what the requests ask for. -/

namespace Finverse.Analytics

open Interleave Ledger

variable {Report : Type} {K : Context Report} {w : World Report} {userId : String}

/-! ### Ledgers -/

@[simp] theorem World.ledgerOf_putLedger (other : String) (rows : List Transaction) :
    (w.putLedger other rows).ledgerOf userId = if other = userId then rows else w.ledgerOf userId := by
  simp only [ledgerOf, putLedger, Statements.Imports.ledgerOf, OrdMap.get?_set]
  split <;> rfl

/-- Whose ledger a call may change, or tell the others of. -/
def Call.user : Call Report → Option String
  | .publish event => some event.userId
  | .update userId _ _ | .upsertMany userId _ | .removeByProviderIds userId _ | .commitBatch userId _ _
  | .revertBatch userId _ _ | .applyRule userId _ _ | .revertRule userId _ _ | .linkFailed userId _ =>
    some userId
  | .statements (.finalize userId _ _ _ _ _) => some userId
  | _ => none

/-- A ledger may have been changed. -/
def writes : Event (ports Report) → Bool
  | ⟨.update .., updated⟩ => Option.isSome updated
  | ⟨.statements (.finalize ..), reply⟩ =>
    match (reply : Statements.StoreReply (Option Statements.StatementImport)) with
    | .ok (some _) => true
    | _ => false
  | ⟨.upsertMany .., _⟩ | ⟨.removeByProviderIds .., _⟩ | ⟨.commitBatch .., _⟩ | ⟨.revertBatch .., _⟩
  | ⟨.applyRule .., _⟩ | ⟨.revertRule .., _⟩ => true
  | _ => false

/-- A statement is finalized with its transactions, or not at all. -/
theorem exec_ledger (userId : String) (op : Statements.Operation) (w : Statements.Imports) :
    (Statements.Adapter.memory.exec op w).2.ledgerOf userId = w.ledgerOf userId ∨
      ∃ importId batch rows now readAt, op = .finalize userId importId batch rows now readAt ∧
        ∃ statement, HEq (Statements.Adapter.memory.exec op w).1
          (.ok (some statement) : Statements.StoreReply (Option Statements.StatementImport)) := by
  cases op with
  | finalize user importId batch rows now readAt =>
    simp only [Statements.Adapter.exec, Statements.finalizeInMemory]
    cases revised : w.statements.revise user importId (·.finalize now) with
    | mk result statements =>
      cases result with
      | none => exact .inl rfl
      | some statement =>
        by_cases mine : user = userId
        · subst mine
          exact .inr ⟨importId, batch, rows, now, readAt, rfl, statement, .rfl⟩
        · refine .inl ?_
          simp only [Statements.Imports.ledgerOf, OrdMap.get?_set_ne _ _ mine]
  | _ => exact .inl rfl

/-- Which calls change a ledger. -/
theorem perform_ledger (call : Call Report) (env : Env) (w : World Report)
    (changed : (perform K call env w).2.ledgerOf userId ≠ w.ledgerOf userId) :
    call.user = some userId ∧ writes ⟨call, (perform K call env w).1⟩ = true := by
  have mine {other : String} {rows : List Transaction}
      (changed : (w.putLedger other rows).ledgerOf userId ≠ w.ledgerOf userId) : other = userId := by
    by_contra theirs
    rw [World.ledgerOf_putLedger, if_neg theirs] at changed
    exact changed rfl
  cases call with
  | update other id patch =>
    have same := mine changed
    subst same
    refine ⟨rfl, ?_⟩
    simp only [perform, InMemoryTransactionStore.update, World.ledgerOf_putLedger, if_true] at changed
    cases found : Table.lookup Transaction.id id (w.ledgerOf other) with
    | none => exact absurd (Table.modify_absent found) changed
    | some row => simp [writes, perform, InMemoryTransactionStore.update, found]
  | upsertMany other rows | removeByProviderIds other ids =>
    obtain rfl := mine changed
    exact ⟨rfl, rfl⟩
  | commitBatch other batch rows | revertBatch other id at_ =>
    obtain rfl := mine changed
    exact ⟨rfl, rfl⟩
  | applyRule other application changes | revertRule other id at_ =>
    obtain rfl := mine changed
    exact ⟨rfl, rfl⟩
  | statements op =>
    rcases exec_ledger userId op w.imports with same | ⟨_, _, _, _, _, rfl, statement, ok⟩
    · exact absurd same changed
    · refine ⟨rfl, ?_⟩
      have ok := eq_of_heq ok
      simp only [writes, perform]
      rw [ok]
  | _ => exact absurd rfl changed

/-! ### The cache -/

/-- What is cached after a call was cached before it, unless the call stored it. -/
theorem perform_cache {key : CacheKey} {cached : CacheEntry Report} (call : Call Report) (env : Env)
    (w : World Report) (there : (perform K call env w).2.analyticsCache.get? key = some cached) :
    (∃ report now, call = .storeAnalyticsCache key report now ∧
      cached = ⟨report, now + AnalyticsCache.analyticsCacheTtlMs⟩) ∨
    w.analyticsCache.get? key = some cached ∧
      ∀ event, call = .publish event → key.userId ≠ event.userId := by
  have erased {cache : AnalyticsCache Report} {other : CacheKey}
      (there : (cache.erase other).get? key = some cached) : cache.get? key = some cached := by
    rw [OrdMap.erase, OrdMap.get?_filter, Option.filter_eq_some_iff] at there
    exact there.1
  cases call with
  | lookup user period asOf customRange currency =>
    refine .inr ⟨?_, fun _ same => by cases same⟩
    simp only [perform, AnalyticsCache.find] at there
    split at there
    · exact there
    · exact erased there
  | storeAnalyticsCache other report now =>
    simp only [perform, AnalyticsCache.storeAnalyticsCache] at there
    rw [OrdMap.get?_set] at there
    split at there
    · rename_i same
      subst same
      exact .inl ⟨report, now, rfl, (Option.some.inj there).symm⟩
    · refine .inr ⟨?_, fun _ same => by cases same⟩
      split at there
      · split at there
        · exact erased there
        · exact there
      · exact there
  | publish event =>
    have invalidates : event.type ∈ AnalyticsCache.invalidating := by
      cases event.type <;> decide
    simp only [perform, AnalyticsCache.invalidateForEvent, if_neg (not_not.mpr invalidates)] at there
    rw [OrdMap.get?_filter, Option.filter_eq_some_iff] at there
    refine .inr ⟨there.1, fun event' same => ?_⟩
    obtain rfl := Call.publish.inj same
    simpa using there.2
  | statements op => exact .inr ⟨there, fun _ same => by cases same⟩
  | _ => exact .inr ⟨there, fun _ same => by cases same⟩

/-! ### What the requests tell -/

/-- The others hear of a change of the ledger, or of a synchronization that failed. -/
def tells : Event (ports Report) → Bool
  | ⟨.publish _, _⟩ | ⟨.linkFailed .., _⟩ => true
  | _ => false

/-- Something was written and not told of. -/
def owing (h : List (Event (ports Report))) : Bool :=
  h.foldl (fun owed ev => !tells ev && (owed || writes ev)) false

@[simp] theorem owing_snoc (h : List (Event (ports Report))) (ev : Event (ports Report)) :
    owing (h ++ [ev]) = (!tells ev && (owing h || writes ev)) := by
  simp [owing]

/-- Who owes nothing told of what it wrote afterwards. -/
theorem told_after {before after : List (Event (ports Report))} {ev : Event (ports Report)}
    (settled : owing (before ++ ev :: after) = false) (wrote : writes ev = true) :
    tells ev = true ∨ ∃ ev' ∈ after, tells ev' = true := by
  induction after using List.reverseRecOn with
  | nil =>
    rw [owing_snoc, wrote, Bool.or_true, Bool.and_true, Bool.not_eq_false'] at settled
    exact .inl settled
  | append_singleton after last ih =>
    rw [← List.cons_append, ← List.append_assoc, owing_snoc, Bool.and_eq_false_iff,
      Bool.not_eq_false', Bool.or_eq_false_iff] at settled
    rcases settled with told | ⟨settled, -⟩
    · exact .inr ⟨last, by simp, told⟩
    · rcases ih settled with now | ⟨ev', later, told⟩
      · exact .inl now
      · exact .inr ⟨ev', List.mem_append_left _ later, told⟩

section Asks

variable {α β : Type} {D : List (Event (ports Report)) → Call Report → Prop}
  {err : List (Event (ports Report)) → ServiceError → Prop} {h : List (Event (ports Report))}

theorem call_bind_asks {c : Call Report} {f : c.Reply → Service Report α}
    {ok : List (Event (ports Report)) → α → Prop} :
    Task.Asks (I := ports Report) D ok err h (call c >>= f) ↔
      D h c ∧ ∀ r : c.Reply, Task.Asks (I := ports Report) D ok err (h ++ [⟨c, r⟩]) (f r) :=
  Task.asks_call_bind (I := ports Report)

theorem call_asks {c : Call Report} {ok : List (Event (ports Report)) → c.Reply → Prop} :
    Task.Asks (I := ports Report) D ok err h (call c) ↔
      D h c ∧ ∀ r : c.Reply, ok (h ++ [⟨c, r⟩]) r :=
  Task.asks_call (I := ports Report)

theorem check_bind_asks {x : Except HttpError α} {f : α → Service Report β}
    {ok : List (Event (ports Report)) → β → Prop} (refused : ∀ e, x = .error e → err h (.http e))
    (passed : ∀ a, x = .ok a → Task.Asks (I := ports Report) D ok err h (f a)) :
    Task.Asks (I := ports Report) D ok err h (check x >>= f) := by
  refine Task.asks_bind.mpr ?_
  cases x with
  | error e => exact refused e rfl
  | ok a => exact passed a rfl

/-- Of a task of which nothing is asked. -/
theorem asks_anything (m : Service Report α) : Task.Asks (I := ports Report) (fun _ _ => True)
    (fun _ _ => True) (fun _ _ => True) h m := by
  have all : Task.All (fun _ => True) m := Task.all_of_forall fun _ => trivial
  exact (Task.Asks.of_all all fun _ _ _ => trivial).weaken (fun _ _ _ => trivial) fun _ _ _ => trivial

/-- However the task ends, it owes nothing then. -/
def Settles (h : List (Event (ports Report))) (m : Service Report α) : Prop :=
  Task.Asks (I := ports Report) (fun _ _ => True) (fun h' _ => owing h' = false)
    (fun h' _ => owing h' = false) h m

theorem Settles.call_bind {c : Call Report} {f : c.Reply → Service Report α}
    (next : ∀ r : c.Reply, Settles (h ++ [⟨c, r⟩]) (f r)) : Settles h (call c >>= f) :=
  call_bind_asks.mpr ⟨trivial, next⟩

theorem Settles.check_bind {x : Except HttpError α} {f : α → Service Report β} (settled : owing h = false)
    (passed : ∀ a, x = .ok a → Settles h (f a)) : Settles h (check x >>= f) :=
  check_bind_asks (fun _ _ => settled) passed

/-- What cannot fail may come before. -/
theorem Settles.bind {ok : List (Event (ports Report)) → α → Prop} {m : Service Report α}
    {f : α → Service Report β}
    (first : Task.Asks (I := ports Report) (fun _ _ => True) ok (fun _ _ => False) h m)
    (next : ∀ h' a, ok h' a → Settles h' (f a)) : Settles h (m >>= f) :=
  Task.asks_bind.mpr (first.weaken next fun _ _ impossible => impossible.elim)

theorem Settles.map {f : α → β} {m : Service Report α} (settles : Settles h m) : Settles h (f <$> m) :=
  Task.asks_map.mpr settles

theorem publish_asks (type : FinanceEventType) (userId : String) :
    Task.Asks (I := ports Report) (fun _ _ => True) (fun h' _ => owing h' = false) (fun _ _ => False) h
      (publish type userId) := by
  unfold publish
  refine (call_asks (c := .publish ⟨type, userId⟩)).mpr ⟨trivial, fun _ => ?_⟩
  rw [owing_snoc]
  rfl

theorem publish_settles (type : FinanceEventType) (userId : String) :
    Settles h (publish type userId : Service Report Unit) :=
  (publish_asks type userId).weaken (fun _ _ => id) fun _ _ impossible => impossible.elim

theorem publishSync_settles (userId : String) (inserted changed : Nat) :
    Settles h (publishSync userId inserted changed : Service Report Unit) := by
  unfold publishSync
  refine Settles.bind (publish_asks _ _) fun h' _ settled => ?_
  have last (h' : List (Event (ports Report))) (settled : owing h' = false) :
      Settles h' (if 0 < changed then publish .transactionUpdated userId else pure () :
        Service Report Unit) := by
    split
    · exact publish_settles _ _
    · exact settled
  by_cases more : 0 < inserted
  · rw [if_pos more]
    exact Settles.bind (publish_asks _ _) fun h' _ settled => last h' settled
  · rw [if_neg more]
    exact last h' settled

/-- What is owed after a series of updates was owed before, or some row was there. -/
theorem updateAll_asks (userId : String) (patches : List (String × TransactionPatch)) :
    Task.Asks (I := ports Report) (fun _ _ => True)
      (fun h' ids => owing h' = true → owing h = true ∨ ids ≠ []) (fun _ _ => False) h
      (updateAll userId patches) := by
  induction patches generalizing h with
  | nil => exact fun owed => .inl owed
  | cons patch patches ih =>
    obtain ⟨id, patch⟩ := patch
    refine call_bind_asks.mpr ⟨trivial, fun updated => ?_⟩
    refine Task.asks_bind.mpr (ih.weaken ?_ fun _ _ impossible => impossible)
    intro h' ids rest owed
    cases updated with
    | none =>
      refine (rest owed).imp_left fun owed => ?_
      rw [owing_snoc] at owed
      simpa [tells, writes] using owed
    | some row => exact .inr (List.cons_ne_nil _ _)

theorem sync_settles (userId linkId : String) : Settles [] (sync K userId linkId) := by
  unfold sync
  refine Settles.call_bind fun aggregated => Settles.check_bind rfl fun raw _ => ?_
  refine Settles.call_bind fun rules => Settles.call_bind fun history => ?_
  refine Settles.call_bind fun counts => Settles.call_bind fun stored => ?_
  exact Settles.bind (updateAll_asks _ _) fun h' _ _ => publishSync_settles _ _ _

/-- A synchronization that succeeds tells of it in the end. -/
theorem pull_asks (userId linkId : String) (today : IsoDate) (cursor : Option String) :
    Task.Asks (I := ports Report) (fun _ _ => True) (fun h' _ => owing h' = false) (fun _ _ => True) h
      (pull K userId linkId today cursor) := by
  unfold pull
  refine call_bind_asks.mpr ⟨trivial, fun rules => call_bind_asks.mpr ⟨trivial, fun history => ?_⟩⟩
  refine Task.asks_bind.mpr ((asks_anything _).weaken (fun h' pulled _ => ?_) fun _ _ _ => trivial)
  refine call_bind_asks.mpr ⟨trivial, fun _ => call_bind_asks.mpr ⟨trivial, fun rows => ?_⟩⟩
  refine Task.asks_bind.mpr ((asks_anything _).weaken (fun h' _ _ => ?_) fun _ _ _ => trivial)
  refine call_bind_asks.mpr ⟨trivial, fun rows => ?_⟩
  refine Task.asks_bind.mpr ((asks_anything _).weaken (fun h' _ _ => ?_) fun _ _ _ => trivial)
  exact (publishSync_settles _ _ _).weaken (fun _ _ => id) fun _ _ _ => trivial

theorem syncLink_settles (userId linkId : String) (today : IsoDate) :
    Settles [] (syncLink K userId linkId today) := by
  unfold syncLink
  refine Settles.call_bind fun started => Settles.check_bind rfl fun cursor _ => ?_
  refine Task.asks_tryCatch.mpr ((pull_asks _ _ _ _).weaken (fun _ _ => id) fun h' _ _ => ?_)
  refine call_bind_asks.mpr ⟨trivial, fun _ => ?_⟩
  change owing _ = false
  rw [owing_snoc]
  rfl

theorem recategorize_settles (userId : String) (input : Categorization.RecategorizeInput) :
    Settles [] (recategorize K userId input) := by
  unfold recategorize
  refine Settles.check_bind rfl fun _ _ => Settles.call_bind fun found => Settles.check_bind rfl fun _ _ => ?_
  refine Settles.call_bind fun _ => ?_
  split
  · refine Settles.call_bind fun _ => Settles.call_bind fun rows => ?_
    exact Settles.bind (updateAll_asks _ _) fun h' _ _ => publish_settles _ _
  · exact publish_settles _ _

theorem updatePreferences_settles (userId transactionId : String)
    (patch : List (String × Statements.Scalar)) :
    Settles [] (updatePreferences userId transactionId patch : Service Report Unit) := by
  unfold updatePreferences
  refine Settles.call_bind fun found => Settles.check_bind rfl fun _ _ => Settles.check_bind rfl fun next _ => ?_
  refine Settles.call_bind fun updated => ?_
  cases updated with
  | none => exact Settles.check_bind rfl fun _ impossible => nomatch impossible
  | some row => exact check_bind_asks (fun _ impossible => nomatch impossible) fun _ _ => publish_settles _ _

theorem createRules_asks (userId : String) (rows : List (Statements.StatementRowRecord × String))
    (settled : owing h = false) :
    Task.Asks (I := ports Report) (fun _ _ => True) (fun h' _ => owing h' = false) (fun _ _ => False) h
      (createRules K userId rows) := by
  induction rows generalizing h with
  | nil => exact settled
  | cons row rows ih =>
    refine call_bind_asks.mpr ⟨trivial, fun _ => ih ?_⟩
    rw [owing_snoc, settled]
    rfl

theorem reconcileInternalTransfers_asks (userId : String) (rows : List Statements.StatementRowRecord)
    (settled : owing h = false) :
    Task.Asks (I := ports Report) (fun _ _ => True) (fun h' _ => owing h' = false) (fun _ _ => False) h
      (reconcileInternalTransfers K userId rows) := by
  unfold reconcileInternalTransfers
  dsimp only
  split
  · refine call_bind_asks.mpr ⟨trivial, fun listed => ?_⟩
    refine Task.asks_bind.mpr ((updateAll_asks _ _).weaken (fun h' ids owed => ?_) fun _ _ => id)
    split
    · exact publish_asks _ _
    · rename_i nobody
      change owing h' = false
      by_contra owes
      rcases owed (Bool.eq_true_of_not_eq_false owes) with before | some_
      · rw [owing_snoc, settled] at before
        cases before
      · exact nobody some_
  · exact settled

theorem approve_settles (userId importId : String) (draw : Statements.Draw) (ruleIds : Nat → String) :
    Settles [] (approve K userId importId draw ruleIds) := by
  unfold approve
  refine Settles.call_bind fun found => Settles.check_bind rfl fun statement _ => ?_
  refine Settles.call_bind fun read => Settles.check_bind rfl fun included _ => ?_
  refine Settles.call_bind fun existing => Settles.check_bind rfl fun _ _ => ?_
  refine Settles.call_bind fun reply => check_bind_asks (fun e refused => ?_) fun _ _ => ?_
  · -- A statement that was not approved has written nothing.
    match reply with
    | .ok none | .error _ => rfl
    | .ok (some statement) => exact nomatch refused
  · refine Settles.bind (publish_asks _ _) fun h' _ settled => ?_
    refine Settles.bind (reconcileInternalTransfers_asks _ _ settled) fun h' _ settled => ?_
    exact (createRules_asks _ _ settled).weaken (fun _ _ => id) fun _ _ impossible => impossible.elim

end Asks

theorem handle_settles {r : Request} (telling : r.tells = true) : Settles [] (handle K r) := by
  cases r with
  | sync userId linkId => exact (sync_settles userId linkId).map
  | syncLink userId linkId today => exact (syncLink_settles userId linkId today).map
  | recategorize userId input => exact (recategorize_settles userId input).map
  | updatePreferences userId transactionId patch =>
    exact (updatePreferences_settles userId transactionId patch).map
  | approve userId importId draw ruleIds => exact (approve_settles userId importId draw ruleIds).map
  | _ => cases telling

/-! ### Whom the requests are about -/

/-- A call about the ledger of this user, if about any, that caches no report. -/
def Call.plain (userId : String) : Call Report → Bool
  | .storeAnalyticsCache .. => false
  | c => c.user.all (· = userId)

abbrev Plain {α : Type} (userId : String) (m : Service Report α) : Prop :=
  Task.All (fun c : Call Report => c.plain userId = true) m

section Plain

variable {α β : Type} {C : Categorizer} {P : Call Report → Prop}

theorem all_call_bind {c : Call Report} {f : c.Reply → Service Report α} (asked : P c)
    (next : ∀ r, Task.All P (f r)) : Task.All P (call c >>= f) :=
  Task.all_bind ((Task.all_call (I := ports Report) _).mpr asked) next

theorem all_check_bind {x : Except HttpError α} {f : α → Service Report β}
    (next : ∀ a, x = .ok a → Task.All P (f a)) : Task.All P (check x >>= f) := by
  cases x with
  | error e => exact trivial
  | ok a => exact next a rfl

theorem Plain.call {c : Call Report} (plain : c.plain userId = true) : Plain userId (call c) :=
  (Task.all_call (I := ports Report) _).mpr plain

theorem Plain.call_bind {c : Call Report} {f : c.Reply → Service Report α}
    (plain : c.plain userId = true) (next : ∀ r, Plain userId (f r)) : Plain userId (Analytics.call c >>= f) :=
  all_call_bind plain next

theorem Plain.check_bind {x : Except HttpError α} {f : α → Service Report β}
    (next : ∀ a, Plain userId (f a)) : Plain userId (check x >>= f) :=
  all_check_bind fun a _ => next a

theorem publish_plain (type : FinanceEventType) :
    Plain userId (publish type userId : Service Report Unit) :=
  Plain.call (by simp [Call.plain, Call.user])

theorem publishSync_plain (inserted changed : Nat) :
    Plain userId (publishSync userId inserted changed : Service Report Unit) := by
  unfold publishSync
  have last : Plain userId (if 0 < changed then publish .transactionUpdated userId else pure () :
      Service Report Unit) := by
    split
    · exact publish_plain _
    · exact Task.all_pure _
  refine Task.all_bind (publish_plain _) fun _ => ?_
  by_cases more : 0 < inserted
  · rw [if_pos more]
    exact Task.all_bind (publish_plain _) fun _ => last
  · rw [if_neg more]
    exact last

theorem updateAll_plain (patches : List (String × TransactionPatch)) :
    Plain userId (updateAll userId patches : Service Report (List String)) := by
  induction patches with
  | nil => exact Task.all_pure _
  | cons patch patches ih =>
    refine Plain.call_bind (by simp [Call.plain, Call.user]) fun _ => ?_
    exact Task.all_bind ih fun _ => Task.all_pure _

theorem pages_plain {restart : Service Report (Banking.SyncCounts × Option String)}
    (again : Plain userId restart) (left : Nat) (cursor : Option String) (counts : Banking.SyncCounts) :
    Plain userId (pages userId C restart left cursor counts) := by
  induction left generalizing cursor counts with
  | zero => exact Task.all_pure _
  | succ left ih =>
    refine Plain.call_bind rfl fun page => ?_
    match page with
    | .error .mutationDuringPagination => exact again
    | .error (.other code) => exact Task.all_throw _
    | .ok page =>
      refine Plain.call_bind (by simp [Call.plain, Call.user]) fun _ => ?_
      refine Plain.call_bind (by simp [Call.plain, Call.user]) fun _ => ?_
      dsimp only
      split
      · exact Task.all_pure _
      · split
        · exact Task.all_throw _
        · exact ih _ _

theorem cycle_plain (startingCursor : Option String) (retries : Nat) :
    Plain userId (cycle userId C startingCursor retries :
      Service Report (Banking.SyncCounts × Option String)) := by
  induction retries with
  | zero => exact pages_plain (Task.all_throw _) _ _ _
  | succ retries ih => exact pages_plain ih _ _ _

theorem sync_plain (linkId : String) : Plain userId (sync K userId linkId) := by
  unfold sync
  refine Plain.call_bind rfl fun _ => Plain.check_bind fun raw => ?_
  refine Plain.call_bind rfl fun _ => Plain.call_bind rfl fun _ => ?_
  refine Plain.call_bind (by simp [Call.plain, Call.user]) fun counts => Plain.call_bind rfl fun _ => ?_
  exact Task.all_bind (updateAll_plain _) fun _ => publishSync_plain _ _

theorem syncLink_plain (linkId : String) (today : IsoDate) :
    Plain userId (syncLink K userId linkId today) := by
  unfold syncLink
  refine Plain.call_bind rfl fun _ => Plain.check_bind fun cursor => Task.all_tryCatch ?_ fun _ => ?_
  · unfold pull
    refine Plain.call_bind rfl fun _ => Plain.call_bind rfl fun _ => ?_
    refine Task.all_bind (cycle_plain _ _) fun pulled => ?_
    refine Plain.call_bind rfl fun _ => Plain.call_bind rfl fun _ => ?_
    refine Task.all_bind (updateAll_plain _) fun _ => Plain.call_bind rfl fun _ => ?_
    exact Task.all_bind (updateAll_plain _) fun _ => publishSync_plain _ _
  · exact Plain.call_bind (by simp [Call.plain, Call.user]) fun _ => Task.all_throw _

theorem recategorize_plain (input : Categorization.RecategorizeInput) :
    Plain userId (recategorize K userId input) := by
  unfold recategorize
  refine Plain.check_bind fun _ => Plain.call_bind rfl fun _ => Plain.check_bind fun existing => ?_
  refine Plain.call_bind (by simp [Call.plain, Call.user]) fun _ => ?_
  split
  · refine Plain.call_bind rfl fun _ => Plain.call_bind rfl fun _ => ?_
    exact Task.all_bind (updateAll_plain _) fun _ => publish_plain _
  · exact publish_plain _

theorem updatePreferences_plain (transactionId : String) (patch : List (String × Statements.Scalar)) :
    Plain userId (updatePreferences userId transactionId patch : Service Report Unit) := by
  unfold updatePreferences
  refine Plain.call_bind rfl fun _ => Plain.check_bind fun _ => Plain.check_bind fun _ => ?_
  refine Plain.call_bind (by simp [Call.plain, Call.user]) fun _ => ?_
  exact Plain.check_bind fun _ => publish_plain _

theorem commitImport_plain (input : Imports.CommitInput) (draw : Imports.Draw) :
    Plain userId (commitImport K userId input draw) := by
  unfold commitImport
  refine Plain.call_bind rfl fun _ => Task.all_bind (Task.all_ofExcept _) fun opened => ?_
  refine Plain.call_bind rfl fun _ => ?_
  dsimp only
  split
  · exact Task.all_throw _
  · refine Plain.call_bind rfl fun _ => ?_
    exact Plain.call_bind (by simp [Call.plain, Call.user]) fun _ => Task.all_pure _

theorem revertImport_plain (id now : String) :
    Plain userId (revertImport userId id now : Service Report Unit) := by
  unfold revertImport
  refine Plain.call_bind (by simp [Call.plain, Call.user]) fun _ => ?_
  exact Plain.check_bind fun _ => Task.all_pure _

theorem applyRule_plain (draft : Categorization.RuleDraft) (id now : String) :
    Plain userId (applyRule K userId draft id now) := by
  unfold applyRule
  apply Plain.call_bind rfl
  intro transactions
  -- What the plan is does not matter, and it is long to evaluate.
  generalize (Categorization.RuleApplyService.plan K.imports.text draft transactions).mapError
    ServiceError.ruling = planned
  refine Task.all_bind (Task.all_ofExcept _) fun planned => ?_
  obtain ⟨preview, changes⟩ := planned
  exact Plain.call_bind (by simp [Call.plain, Call.user]) fun _ => Task.all_pure _

theorem revertRule_plain (id now : String) :
    Plain userId (revertRule userId id now : Service Report Unit) := by
  unfold revertRule
  refine Plain.call_bind (by simp [Call.plain, Call.user]) fun _ => ?_
  exact Plain.check_bind fun _ => Task.all_pure _

theorem createRules_plain (rows : List (Statements.StatementRowRecord × String)) :
    Plain userId (createRules K userId rows) := by
  induction rows with
  | nil => exact Task.all_pure _
  | cons row rows ih => exact Plain.call_bind rfl fun _ => ih

theorem reconcileInternalTransfers_plain (rows : List Statements.StatementRowRecord) :
    Plain userId (reconcileInternalTransfers K userId rows) := by
  unfold reconcileInternalTransfers
  dsimp only
  split
  · refine Plain.call_bind rfl fun _ => Task.all_bind (updateAll_plain _) fun categorized => ?_
    split
    · exact publish_plain _
    · exact Task.all_pure _
  · exact Task.all_pure _

theorem approve_plain (importId : String) (draw : Statements.Draw) (ruleIds : Nat → String) :
    Plain userId (approve K userId importId draw ruleIds) := by
  unfold approve
  refine Plain.call_bind rfl fun _ => Plain.check_bind fun statement => ?_
  refine Plain.call_bind rfl fun _ => Plain.check_bind fun included => ?_
  refine Plain.call_bind rfl fun _ => Plain.check_bind fun _ => ?_
  refine Plain.call_bind (by simp [Call.plain, Call.user]) fun _ => Plain.check_bind fun _ => ?_
  refine Task.all_bind (publish_plain _) fun _ => ?_
  exact Task.all_bind (reconcileInternalTransfers_plain _) fun _ => createRules_plain _

end Plain

/-- The requests other than for analytics cache nothing. -/
theorem handle_plain {r : Request} (other : ∀ userId period asOf customRange currency,
    r ≠ .analytics userId period asOf customRange currency) : Plain r.userId (handle K r) := by
  cases r with
  | analytics => exact absurd rfl (other _ _ _ _ _)
  | sync userId linkId => exact Task.all_map (sync_plain linkId)
  | syncLink userId linkId today => exact Task.all_map (syncLink_plain linkId today)
  | recategorize userId input => exact Task.all_map (recategorize_plain input)
  | updatePreferences userId transactionId patch =>
    exact Task.all_map (updatePreferences_plain transactionId patch)
  | commitImport userId input draw => exact Task.all_map (commitImport_plain input draw)
  | revertImport userId id now => exact Task.all_map (revertImport_plain id now)
  | applyRule userId draft id now => exact Task.all_map (applyRule_plain draft id now)
  | revertRule userId id now => exact Task.all_map (revertRule_plain id now)
  | approve userId importId draw ruleIds => exact Task.all_map (approve_plain importId draw ruleIds)

/-! ### Analytics -/

/-- The history of an analytics request that has listed the ledger. -/
def Missed (userId : String) (period : Period) (asOf : Option IsoDate) (customRange : Option DateRange)
    (currency : String) (found : Lookup Report) (transactions : List Transaction) :
    List (Event (ports Report)) :=
  [⟨.lookup userId period asOf customRange currency, found⟩, ⟨.list userId, transactions⟩]

variable {period : Period} {asOf : Option IsoDate} {customRange : Option DateRange} {currency : String}

/-- A report is cached once it has been computed of the ledger that was listed, under the key that was
looked up. -/
theorem analytics_asks : Task.Asks (I := ports Report)
    (fun h c => ∀ key report now, c = .storeAnalyticsCache key report now → ∃ found transactions,
      h = Missed userId period asOf customRange currency found transactions ∧ key = found.key ∧
        now = found.now ∧ reportOf K key transactions = .ok report)
    (fun h report => ∃ found,
      (h = [⟨.lookup userId period asOf customRange currency, found⟩] ∧ found.cached = some report) ∨
      ∃ transactions, h = Missed userId period asOf customRange currency found transactions ++
          [⟨.storeAnalyticsCache found.key report found.now, ()⟩] ∧
        reportOf K found.key transactions = .ok report)
    (fun _ _ => True) [] (analytics K userId period asOf customRange currency) := by
  unfold analytics
  refine call_bind_asks.mpr ⟨nofun, fun found => ?_⟩
  cases cached : found.cached with
  | some report => exact ⟨found, .inl ⟨rfl, cached⟩⟩
  | none =>
    refine call_bind_asks.mpr ⟨nofun, fun transactions => ?_⟩
    refine check_bind_asks (fun _ _ => trivial) fun report computed => ?_
    refine call_bind_asks.mpr ⟨?_, fun _ => ⟨found, .inr ⟨transactions, rfl, computed⟩⟩⟩
    intro key report' now same
    obtain ⟨rfl, rfl, rfl⟩ := Call.storeAnalyticsCache.inj same
    exact ⟨found, transactions, rfl, rfl, rfl, computed⟩

end Finverse.Analytics
