import Finverse.Categorization.RuleRuns

/-! Undoing rule applications, in any order, between recategorizations and syncs. -/

namespace Finverse.Categorization

open Ledger (Categorizer RawTransaction Transaction mapTransaction)

variable (X : TextContext)

/-! ### The undo -/

section Undo

variable (ledger : List Operation → List Transaction) (ops : List Operation)

/-- Some operation after `start` changed the category of the row. -/
def ChangedSince (start since : List Operation) (id : String) : Prop :=
  ∃ earlier op, earlier ++ [op] <+: since ∧
    categoryOf (ledger (start ++ earlier ++ [op])) id ≠ categoryOf (ledger (start ++ earlier)) id

/-- No undo changes the category of a row that was changed after the application, and one that
follows at once leaves every transaction as it was. -/
structure UndoSafe : Prop where
  kept : ∀ earlier draft id now since now',
    earlier ++ .applyRule draft id now :: since ++ [.revert id now'] <+: ops →
    ∀ row, ChangedSince ledger (earlier ++ [.applyRule draft id now]) since row →
      categoryOf (ledger (earlier ++ .applyRule draft id now :: since ++ [.revert id now'])) row =
        categoryOf (ledger (earlier ++ .applyRule draft id now :: since)) row
  undone : ∀ earlier draft id now now',
    earlier ++ [.applyRule draft id now, .revert id now'] <+: ops →
    ledger (earlier ++ [.applyRule draft id now, .revert id now']) = ledger earlier

end Undo

/-- One user's ledger, without applications. -/
def inMemoryStart (userId : Nat) (db : Ledger.Database) : InMemoryRuleApplications :=
  ⟨db.ledger userId, [], []⟩

def postgresStart (db : Ledger.Database) : RuleDatabase := ⟨db, .empty, .empty⟩

/-- The undo is safe on both stores, and they have the same rows all along. -/
structure RuleUndoSafe (userId : Nat) (db : Ledger.Database) (ops : List Operation) : Prop where
  memory : UndoSafe (inMemory.after X (inMemoryStart userId db)) ops
  database : UndoSafe ((postgres userId).after X (postgresStart db)) ops
  same : ∀ done, done <+: ops → (postgres userId).after X (postgresStart db) done =
    inMemory.after X (inMemoryStart userId db) done

/-- Application ids are new. When an application is first undone, the rows it rewrote that were
changed since, and are still there, have the category they had before it. A sync sends what both
stores keep. -/
structure Careful (userId : Nat) (db : Ledger.Database) (ops : List Operation) : Prop where
  fresh : (ops.filterMap Operation.applicationId).Nodup
  settled : ∀ earlier draft id now since now',
    earlier ++ .applyRule draft id now :: since ++ [.revert id now'] <+: ops →
    (∀ now', .revert id now' ∉ since) →
    ∀ preview changes, RuleApplyService.plan X draft (TransactionStore.list X
        (inMemory.after X (inMemoryStart userId db) earlier)) = .ok (preview, changes) →
      ∀ change ∈ changes, ChangedSince (inMemory.after X (inMemoryStart userId db))
          (earlier ++ [.applyRule draft id now]) since change.transactionId →
        ∀ category, categoryOf (inMemory.after X (inMemoryStart userId db)
            (earlier ++ .applyRule draft id now :: since)) change.transactionId = some category →
          category = change.previous
  storable : ∀ earlier C raws, earlier ++ [.upsertMany C raws] <+: ops →
    Ledger.Storable userId ((postgres userId).run X (postgresStart db) earlier).ledger
      (raws.map (mapTransaction C))

/-! ### Histories -/

section History

variable {X} {userId : Nat} {db : Ledger.Database} {ops : List Operation}

theorem Adapter.run_concat {σ : Type} {A : Adapter σ} {s : σ} (ops : List Operation)
    (op : Operation) : A.run X s (ops ++ [op]) = A.exec X (A.run X s ops) op := by
  rw [Adapter.run, List.foldl_append]
  rfl

theorem Careful.of_prefix {done : List Operation} (careful : Careful X userId db ops)
    (first : done <+: ops) : Careful X userId db done where
  fresh := careful.fresh.sublist (first.sublist.filterMap _)
  settled earlier draft id now since now' later :=
    careful.settled earlier draft id now since now' (later.trans first)
  storable earlier C raws later := careful.storable earlier C raws (later.trans first)

theorem ChangedSince.mono {ledger : List Operation → List Transaction}
    {start since since' : List Operation} {id : String} (first : since <+: since')
    (changed : ChangedSince ledger start since id) : ChangedSince ledger start since' id := by
  obtain ⟨earlier, op, before, differs⟩ := changed
  exact ⟨earlier, op, before.trans first, differs⟩

/-- An application is known by its id. -/
theorem application_unique {earlier since earlier' since' : List Operation}
    {draft draft' : RuleDraft} {id now now' : String}
    (same : earlier ++ .applyRule draft id now :: since =
      earlier' ++ .applyRule draft' id now' :: since')
    (fresh : ((earlier ++ .applyRule draft id now :: since).filterMap
      Operation.applicationId).Nodup) :
    earlier = earlier' ∧ draft = draft' ∧ now = now' ∧ since = since' := by
  have once {op : Operation} {ops : List Operation} {draft : RuleDraft} {now : String}
      (first : op.applicationId = some id)
      (again : .applyRule draft id now ∈ ops) :
      ¬((op :: ops).filterMap Operation.applicationId).Nodup := by
    rw [List.filterMap_cons_some first, List.nodup_cons, not_and_or, not_not]
    exact .inl (List.mem_filterMap.mpr ⟨_, again, rfl⟩)
  induction earlier generalizing earlier' with
  | nil =>
    cases earlier' with
    | nil =>
      obtain ⟨head, rfl⟩ := List.cons.inj same
      obtain ⟨rfl, -, rfl⟩ := Operation.applyRule.inj head
      exact ⟨rfl, rfl, rfl, rfl⟩
    | cons op earlier' =>
      obtain ⟨-, rfl⟩ := List.cons.inj same
      exact absurd fresh (once rfl (List.mem_append_right _ List.mem_cons_self))
  | cons op earlier ih =>
    cases earlier' with
    | nil =>
      obtain ⟨rfl, -⟩ := List.cons.inj same
      exact absurd fresh (once rfl (List.mem_append_right _ List.mem_cons_self))
    | cons op' earlier' =>
      obtain ⟨rfl, rest⟩ := List.cons.inj same
      have fresh' : ((earlier ++ .applyRule draft id now :: since).filterMap
          Operation.applicationId).Nodup :=
        fresh.sublist ((List.sublist_cons_self _ _).filterMap _)
      obtain ⟨rfl, others⟩ := ih rest fresh'
      exact ⟨rfl, others⟩

/-- An open application was made by one operation, and was not undone since. What Postgres no longer
has recorded of it was changed since. -/
def Tracked (X : TextContext) (userId : Nat) (db : Ledger.Database) (ops : List Operation)
    (id : String) : Prop :=
  ∃ earlier draft now since preview, ops = earlier ++ .applyRule draft id now :: since ∧
    (∀ now', .revert id now' ∉ since) ∧
    RuleApplyService.plan X draft (TransactionStore.list X
        (inMemory.after X (inMemoryStart userId db) earlier)) =
      .ok (preview, InMemoryRuleApplicationStore.changesOf
        (inMemory.run X (inMemoryStart userId db) ops) id) ∧
    ∀ change ∈ InMemoryRuleApplicationStore.changesOf
        (inMemory.run X (inMemoryStart userId db) ops) id,
      change ∈ PostgresRuleApplicationStore.changesOf userId id
          ((postgres userId).run X (postgresStart db) ops) ∨
        ChangedSince (inMemory.after X (inMemoryStart userId db))
          (earlier ++ [.applyRule draft id now]) since change.transactionId

/-- Tracking goes on through an operation that is about something else. -/
theorem Tracked.concat {id : String} {op : Operation} (tracked : Tracked X userId db ops id)
    (other : ∀ now, op ≠ .revert id now)
    (kept : InMemoryRuleApplicationStore.changesOf
        (inMemory.run X (inMemoryStart userId db) (ops ++ [op])) id =
      InMemoryRuleApplicationStore.changesOf (inMemory.run X (inMemoryStart userId db) ops) id)
    (recorded : ∀ change ∈ PostgresRuleApplicationStore.changesOf userId id
        ((postgres userId).run X (postgresStart db) ops),
      change ∈ PostgresRuleApplicationStore.changesOf userId id
          ((postgres userId).run X (postgresStart db) (ops ++ [op])) ∨
        categoryOf (inMemory.after X (inMemoryStart userId db) (ops ++ [op]))
            change.transactionId ≠
          categoryOf (inMemory.after X (inMemoryStart userId db) ops) change.transactionId) :
    Tracked X userId db (ops ++ [op]) id := by
  obtain ⟨earlier, draft, now, since, preview, rfl, notUndone, planned, tracked⟩ := tracked
  refine ⟨earlier, draft, now, since ++ [op], preview, by simp, ?_, by rw [kept]; exact planned, ?_⟩
  · intro now' listed
    rcases List.mem_append.mp listed with before | last
    · exact notUndone now' before
    · exact other now' (List.mem_singleton.mp last).symm
  · rw [kept]
    intro change listed
    rcases tracked change listed with known | changed
    · refine (recorded change known).imp_right fun differs => ⟨since, op, List.prefix_rfl, ?_⟩
      simpa using differs
    · exact .inr (changed.mono (List.prefix_append since [op]))

theorem paired_start (primary : ((db.ledger userId).map Transaction.id).Nodup) :
    Paired userId [] (inMemoryStart userId db) (postgresStart db) where
  ledger := rfl
  ids := primary
  opened _ := rfl
  recorded _ opened := by cases opened
  distinct _ opened := by cases opened
  known _ here := by cases here
  knownRows _ here := by cases here
  knownChanges _ here := by cases here

/-- What holds after every careful run. -/
structure Follows (X : TextContext) (userId : Nat) (db : Ledger.Database) (ops : List Operation) :
    Prop extends Paired userId (ops.filterMap Operation.applicationId)
      (inMemory.run X (inMemoryStart userId db) ops)
      ((postgres userId).run X (postgresStart db) ops) where
  tracked : ∀ id, InMemoryRuleApplicationStore.isOpen id
    (inMemory.run X (inMemoryStart userId db) ops) = true → Tracked X userId db ops id

/-- An operation that touches no application. -/
theorem Follows.moved {op : Operation} (follows : Follows X userId db ops)
    (other : ∀ id now, op ≠ .revert id now)
    (moved : Moved userId (inMemory.run X (inMemoryStart userId db) ops)
      ((postgres userId).run X (postgresStart db) ops)
      (inMemory.exec X (inMemory.run X (inMemoryStart userId db) ops) op)
      ((postgres userId).exec X ((postgres userId).run X (postgresStart db) ops) op)) :
    Follows X userId db (ops ++ [op]) := by
  constructor
  · rw [Adapter.run_concat, Adapter.run_concat, List.filterMap_append]
    exact (moved.paired follows.toPaired).weaken (List.subset_append_left _ _)
  · intro id opened
    rw [Adapter.run_concat] at opened
    obtain ⟨opened, changesOf, recordedOf⟩ := moved.open_iff.mp ⟨opened, rfl, rfl⟩
    refine (follows.tracked id opened).concat (other id) ?_ ?_
    · rw [Adapter.run_concat, changesOf]
    · intro change known
      rw [Adapter.run_concat, ← recordedOf]
      exact .inl known

theorem Follows.removed (follows : Follows X userId db ops) (providerTxnIds : List String) :
    Follows X userId db (ops ++ [.removeByProviderIds providerTxnIds]) := by
  constructor
  · rw [Adapter.run_concat, Adapter.run_concat, List.filterMap_append,
      List.filterMap_cons_none rfl, List.filterMap_nil, List.append_nil]
    exact removal_paired follows.toPaired providerTxnIds
  · intro id opened
    rw [Adapter.run_concat] at opened
    refine (follows.tracked id opened).concat (fun _ no => by cases no) ?_ ?_
    · rw [Adapter.run_concat]
      rfl
    · intro change known
      rw [Adapter.after, Adapter.after, Adapter.run_concat, Adapter.run_concat]
      exact forgotten_with_row follows.toAligned providerTxnIds known

theorem Follows.applied {draft : RuleDraft} {id now : String} (follows : Follows X userId db ops)
    (fresh : id ∉ ops.filterMap Operation.applicationId) :
    Follows X userId db (ops ++ [.applyRule draft id now]) := by
  have listed : (postgres userId).transactions ((postgres userId).run X (postgresStart db) ops) =
      inMemory.after X (inMemoryStart userId db) ops := follows.ledger
  cases planned : RuleApplyService.plan X draft (TransactionStore.list X
      (inMemory.after X (inMemoryStart userId db) ops)) with
  | error e =>
    have stays : inMemory.exec X (inMemory.run X (inMemoryStart userId db) ops)
        (.applyRule draft id now) = inMemory.run X (inMemoryStart userId db) ops :=
      exec_applyRule_refused planned
    have stays' : (postgres userId).exec X ((postgres userId).run X (postgresStart db) ops)
        (.applyRule draft id now) = (postgres userId).run X (postgresStart db) ops :=
      exec_applyRule_refused (listed ▸ planned)
    refine follows.moved (fun _ _ no => by cases no) ?_
    rw [stays, stays']
    exact follows.stay
  | ok plan =>
    obtain ⟨preview, changes⟩ := plan
    have step : inMemory.exec X (inMemory.run X (inMemoryStart userId db) ops)
        (.applyRule draft id now) =
          (inMemory.run X (inMemoryStart userId db) ops).applied draft id now changes :=
      exec_applyRule planned
    have unused : ∀ application ∈ (inMemory.run X (inMemoryStart userId db) ops).byUser,
        application.id ≠ id := fun application here same => fresh (same ▸ follows.known _ here)
    have paired : Paired userId (ops.filterMap Operation.applicationId ++ [id]) _ _ ∧
        ∀ other, PostgresRuleApplicationStore.changesOf userId other
          ((postgres userId).exec X ((postgres userId).run X (postgresStart db) ops)
            (.applyRule draft id now)) = _ := applyRule_paired follows.toPaired fresh planned
    obtain ⟨paired, recordedOf⟩ := paired
    constructor
    · rw [Adapter.run_concat, Adapter.run_concat, List.filterMap_append]
      exact paired
    · intro other opened
      rw [Adapter.run_concat, step, isOpen_applied unused] at opened
      by_cases same : other = id
      · subst same
        have changesOf : InMemoryRuleApplicationStore.changesOf
            (inMemory.run X (inMemoryStart userId db) (ops ++ [.applyRule draft other now])) other =
              changes := by
          rw [Adapter.run_concat, step, changesOf_applied, if_pos rfl]
        refine ⟨ops, draft, now, [], preview, rfl, by simp, by rw [changesOf]; exact planned, ?_⟩
        intro change here
        rw [changesOf] at here
        rw [Adapter.run_concat, recordedOf, if_pos rfl]
        exact .inl here
      · rw [decide_eq_false same, Bool.false_or] at opened
        refine (follows.tracked other opened).concat (fun _ no => by cases no) ?_ ?_
        · rw [Adapter.run_concat, step, changesOf_applied, if_neg same]
        · intro change here
          rw [Adapter.run_concat, recordedOf, if_neg same]
          exact .inl here

/-- The rows that Postgres no longer has recorded are settled. -/
theorem Follows.reverted {id now : String} (follows : Follows X userId db ops)
    (careful : Careful X userId db (ops ++ [.revert id now])) :
    Follows X userId db (ops ++ [.revert id now]) := by
  have paired : Paired userId (ops.filterMap Operation.applicationId)
      (inMemory.exec X (inMemory.run X (inMemoryStart userId db) ops) (.revert id now))
      ((postgres userId).exec X ((postgres userId).run X (postgresStart db) ops)
        (.revert id now)) := by
    refine revert_paired follows.toPaired fun opened => ?_
    obtain ⟨earlier, draft, applied, since, preview, rfl, notUndone, planned, tracked⟩ :=
      follows.tracked id opened
    refine restore_part (follows.recorded id opened) (follows.distinct id opened) ?_
    intro change here forgotten t stored same
    have changed := (tracked change here).resolve_left forgotten
    have now' : categoryOf (inMemory.after X (inMemoryStart userId db)
        (earlier ++ .applyRule draft id applied :: since)) change.transactionId =
          some (categoryColumn.get t) := by
      rw [← same]
      exact Column.valueAt_of_mem follows.ids stored
    exact careful.settled earlier draft id applied since now (by simp) notUndone preview _ planned
      change here changed _ now'
  constructor
  · rw [Adapter.run_concat, Adapter.run_concat, List.filterMap_append,
      List.filterMap_cons_none rfl, List.filterMap_nil, List.append_nil]
    exact paired
  · intro other opened
    rw [Adapter.run_concat] at opened
    rw [isOpen_reverted, Bool.and_eq_true, Bool.not_eq_true', decide_eq_false_iff_not] at opened
    refine (follows.tracked other opened.1).concat ?_ ?_ ?_
    · rintro now' same
      exact opened.2 (Operation.revert.inj same).1.symm
    · rw [Adapter.run_concat, changesOf_reverted]
    · intro change here
      rw [Adapter.run_concat, postgres_changesOf_reverted]
      exact .inl here

theorem follows (primary : ((db.ledger userId).map Transaction.id).Nodup)
    (careful : Careful X userId db ops) : Follows X userId db ops := by
  induction ops using List.reverseRecOn with
  | nil => exact ⟨paired_start primary, fun _ opened => by cases opened⟩
  | append_singleton ops op ih =>
    have before : Follows X userId db ops := ih (careful.of_prefix (List.prefix_append ops [op]))
    cases op with
    | applyRule draft id now =>
      have fresh := careful.fresh
      rw [List.filterMap_append] at fresh
      exact before.applied fun drawn => List.disjoint_of_nodup_append fresh drawn List.mem_cons_self
    | revert id now => exact before.reverted careful
    | recategorize input =>
      exact before.moved (fun _ _ no => by cases no)
        (recategorize_moved before.toAligned input)
    | upsertMany C raws =>
      exact before.moved (fun _ _ no => by cases no)
        (upsertMany_moved before.toAligned (careful.storable ops C raws List.prefix_rfl))
    | removeByProviderIds ids => exact before.removed ids
    | reconcileTransfer id =>
      exact before.moved (fun _ _ no => by cases no) (reconcileTransfer_moved before.toAligned id)
    | reconcileRecurring id shouldBeRecurring =>
      exact before.moved (fun _ _ no => by cases no)
        (reconcileRecurring_moved before.toAligned id shouldBeRecurring)

/-- An undo never touches what it recorded otherwise. -/
theorem kept_of_settled {earlier since : List Operation} {draft : RuleDraft} {id now now' : String}
    (follows : Follows X userId db (earlier ++ .applyRule draft id now :: since))
    (careful : Careful X userId db (earlier ++ .applyRule draft id now :: since ++ [.revert id now']))
    {row : String} (changed : ChangedSince (inMemory.after X (inMemoryStart userId db))
      (earlier ++ [.applyRule draft id now]) since row) :
    categoryOf (inMemory.after X (inMemoryStart userId db)
        (earlier ++ .applyRule draft id now :: since ++ [.revert id now'])) row =
      categoryOf (inMemory.after X (inMemoryStart userId db)
        (earlier ++ .applyRule draft id now :: since)) row := by
  rw [Adapter.after, Adapter.run_concat]
  cases opened : InMemoryRuleApplicationStore.isOpen id (inMemory.run X (inMemoryStart userId db)
      (earlier ++ .applyRule draft id now :: since)) with
  | false =>
    rw [exec_revert_closed opened]
    rfl
  | true =>
    obtain ⟨earlier', draft', applied, since', preview, same, notUndone, planned, -⟩ :=
      follows.tracked id opened
    have fresh := (careful.of_prefix (List.prefix_append _ [Operation.revert id now'])).fresh
    obtain ⟨rfl, rfl, rfl, rfl⟩ := application_unique same fresh
    change categoryOf (inMemory.exec X _ (.revert id now')).transactions row = _
    rw [transactions_reverted follows.toPaired opened]
    refine (Column.valueAt_assign row).trans ?_
    change (categoryOf (inMemory.after X (inMemoryStart userId db) _) row).map _ = _
    cases now'' : categoryOf (inMemory.after X (inMemoryStart userId db)
        (earlier ++ .applyRule draft id now :: since)) row with
    | none => rfl
    | some category =>
      rw [Option.map_some, assignment]
      cases found : Table.lookup RuleApplicationChange.transactionId row
          (InMemoryRuleApplicationStore.changesOf (inMemory.run X (inMemoryStart userId db)
            (earlier ++ .applyRule draft id now :: since)) id) with
      | none => rfl
      | some change =>
        obtain rfl := Table.lookup_key found
        have settled := careful.settled earlier draft id now since now' List.prefix_rfl notUndone
          preview _ planned change (Table.lookup_mem found) changed category now''
        rw [settled]
        rfl

/-- An undo right after an application restores every transaction. -/
theorem undone_at_once {earlier : List Operation} {draft : RuleDraft} {id now now' : String}
    (follows : Follows X userId db earlier)
    (fresh : id ∉ earlier.filterMap Operation.applicationId) :
    inMemory.after X (inMemoryStart userId db)
        (earlier ++ [.applyRule draft id now, .revert id now']) =
      inMemory.after X (inMemoryStart userId db) earlier := by
  have next : Follows X userId db (earlier ++ [.applyRule draft id now]) := follows.applied fresh
  have unused : ∀ application ∈ (inMemory.run X (inMemoryStart userId db) earlier).byUser,
      application.id ≠ id := fun application here same => fresh (same ▸ follows.known _ here)
  have split : earlier ++ [.applyRule draft id now, .revert id now'] =
      earlier ++ [.applyRule draft id now] ++ [.revert id now'] := by simp
  rw [split, Adapter.after, Adapter.run_concat]
  cases planned : RuleApplyService.plan X draft (TransactionStore.list X
      (inMemory.after X (inMemoryStart userId db) earlier)) with
  | error e =>
    have stays : inMemory.run X (inMemoryStart userId db) (earlier ++ [.applyRule draft id now]) =
        inMemory.run X (inMemoryStart userId db) earlier := by
      rw [Adapter.run_concat]
      exact exec_applyRule_refused planned
    have closed : InMemoryRuleApplicationStore.isOpen id
        (inMemory.run X (inMemoryStart userId db) earlier) = false := by
      have absent : Table.lookup RuleApplication.id id
          (inMemory.run X (inMemoryStart userId db) earlier).byUser = none := by
        refine Table.lookup_eq_none.mpr fun listed => ?_
        obtain ⟨application, here, same⟩ := List.mem_map.mp listed
        exact unused application here same
      rw [InMemoryRuleApplicationStore.isOpen, absent]
      rfl
    rw [stays, exec_revert_closed closed]
    rfl
  | ok plan =>
    obtain ⟨preview, changes⟩ := plan
    obtain ⟨distinct, recorded⟩ := plan_spec follows.ids planned
    have step : inMemory.run X (inMemoryStart userId db) (earlier ++ [.applyRule draft id now]) =
        (inMemory.run X (inMemoryStart userId db) earlier).applied draft id now changes := by
      rw [Adapter.run_concat]
      exact exec_applyRule planned
    have opened : InMemoryRuleApplicationStore.isOpen id (inMemory.run X (inMemoryStart userId db)
        (earlier ++ [.applyRule draft id now])) = true := by
      rw [step, isOpen_applied unused]
      simp
    change (inMemory.exec X _ (.revert id now')).transactions = _
    rw [transactions_reverted next.toPaired opened, step, changesOf_applied, if_pos rfl,
      transactions_applied follows.ids distinct]
    refine Column.assign_restore fun t stored => ?_
    change assignment changes _ t.id = (assignment changes _ t.id).map _
    rw [assignment, assignment, Option.map_map]
    cases found : Table.lookup RuleApplicationChange.transactionId t.id changes with
    | none => rfl
    | some change =>
      obtain ⟨t', here, same, previous⟩ := recorded change (Table.lookup_mem found)
      have again : t' = t := List.inj_on_of_nodup_map follows.ids here stored
        (same.symm.trans (Table.lookup_key found))
      rw [again] at previous
      exact congrArg some previous

/-- What is safe for one history is safe for another that shows the same. -/
theorem UndoSafe.congr {ledger ledger' : List Operation → List Transaction}
    (same : ∀ done, done <+: ops → ledger' done = ledger done) (safe : UndoSafe ledger ops) :
    UndoSafe ledger' ops where
  kept earlier draft id now since now' first row changed := by
    have before : earlier ++ .applyRule draft id now :: since <+: ops :=
      (List.prefix_append _ _).trans first
    rw [same _ first, same _ before]
    refine safe.kept earlier draft id now since now' first row ?_
    obtain ⟨steps, op, within, differs⟩ := changed
    refine ⟨steps, op, within, ?_⟩
    have through : earlier ++ [.applyRule draft id now] ++ steps ++ [op] <+: ops := by
      refine List.IsPrefix.trans ?_ before
      rw [List.append_assoc _ steps, List.append_assoc earlier]
      exact (List.prefix_append_right_inj earlier).mpr (List.cons_prefix_cons.mpr ⟨rfl, within⟩)
    rwa [same _ through, same _ ((List.prefix_append _ [op]).trans through)] at differs
  undone earlier draft id now now' first := by
    rw [same _ first, same _ ((List.prefix_append _ _).trans first)]
    exact safe.undone earlier draft id now now' first

/-- Undoing rule applications is safe in every careful run. -/
theorem rule_undo_safe (X : TextContext) (userId : Nat) (db : Ledger.Database)
    (primary : ((db.ledger userId).map Transaction.id).Nodup) (ops : List Operation)
    (careful : Careful X userId db ops) : RuleUndoSafe X userId db ops := by
  have same : ∀ done, done <+: ops → (postgres userId).after X (postgresStart db) done =
      inMemory.after X (inMemoryStart userId db) done :=
    fun done first => (follows primary (careful.of_prefix first)).ledger
  have memory : UndoSafe (inMemory.after X (inMemoryStart userId db)) ops := by
    constructor
    · intro earlier draft id now since now' first row changed
      have here := careful.of_prefix first
      exact kept_of_settled (follows primary (here.of_prefix (List.prefix_append _ _))) here changed
    · intro earlier draft id now now' first
      have here := careful.of_prefix first
      have fresh := here.fresh
      rw [List.filterMap_append] at fresh
      exact undone_at_once (follows primary (here.of_prefix (List.prefix_append _ _)))
        fun drawn => List.disjoint_of_nodup_append fresh drawn List.mem_cons_self
  exact ⟨memory, memory.congr same, same⟩

end History

/-! ### One transaction -/

def cafeDatabase : Ledger.Database :=
  ⟨[(1, "checking")], ⟨[Ledger.providerRow 1 cafe "USD"], List.nodup_singleton _⟩, .empty⟩

def cafesAreCoffee : RuleDraft := ⟨.contains, "cafe", "coffee"⟩

/-- The bank takes the transaction back before the undo. -/
def removedBefore : List Operation :=
  [.applyRule cafesAreCoffee "a1" "2026-06-01T09:00:00.000Z",
    .removeByProviderIds ["p00001"],
    .revert "a1" "2026-06-01T11:00:00.000Z"]

theorem careful_removedBefore : Careful ascii 1 cafeDatabase removedBefore where
  fresh := by decide
  settled earlier draft id now since now' first := by
    have gone : inMemory.after ascii (inMemoryStart 1 cafeDatabase) (removedBefore.take 2) = [] := by
      decide +kernel
    rcases earlier with _ | ⟨op, earlier⟩
    · obtain ⟨head, rest⟩ := List.cons_prefix_cons.mp first
      rcases since with _ | ⟨op, since⟩
      · obtain ⟨no, -⟩ := List.cons_prefix_cons.mp rest
        cases no
      · obtain ⟨rfl, rest⟩ := List.cons_prefix_cons.mp rest
        rcases since with _ | ⟨op, since⟩
        · rintro - preview changes - change - - category present
          rw [head] at present
          have absent : categoryOf (inMemory.after ascii (inMemoryStart 1 cafeDatabase)
              (removedBefore.take 2)) change.transactionId = none := by rw [gone]; rfl
          cases absent.symm.trans present
        · have long := rest.length_le
          simp at long
    · have only : Operation.applyRule draft id now ∈ removedBefore.tail := by
        have rest := (List.cons_prefix_cons.mp first).2
        exact rest.subset (List.mem_append_left _ (List.mem_append_right _ List.mem_cons_self))
      simp [removedBefore] at only
  storable earlier C raws first := by
    have listed : Operation.upsertMany C raws ∈ removedBefore :=
      first.subset (List.mem_append_right _ List.mem_cons_self)
    simp [removedBefore] at listed

theorem removed_row_safe : ((cafeDatabase.ledger 1).map Transaction.id).Nodup ∧
    Careful ascii 1 cafeDatabase removedBefore ∧
    RuleUndoSafe ascii 1 cafeDatabase removedBefore :=
  ⟨by decide, careful_removedBefore,
    rule_undo_safe ascii 1 cafeDatabase (by decide) removedBefore careful_removedBefore⟩

/-- The user chooses another category before the undo. -/
def changeAfterwards : List Operation :=
  [.applyRule cafesAreCoffee "a1" "2026-06-01T09:00:00.000Z",
    .recategorize ⟨"txn_checking_p00001", "restaurants", false, 1780304400000⟩,
    .revert "a1" "2026-06-01T11:00:00.000Z"]

theorem choice_undone : ¬RuleUndoSafe ascii 1 cafeDatabase changeAfterwards := by
  intro safe
  have changed : ChangedSince (inMemory.after ascii (inMemoryStart 1 cafeDatabase))
      ([] ++ [.applyRule cafesAreCoffee "a1" "2026-06-01T09:00:00.000Z"])
      [.recategorize ⟨"txn_checking_p00001", "restaurants", false, 1780304400000⟩]
      "txn_checking_p00001" :=
    ⟨[], _, List.prefix_rfl, by decide +kernel⟩
  have kept := safe.memory.kept [] _ _ _ _ _ List.prefix_rfl _ changed
  have undone : categoryOf (inMemory.after ascii (inMemoryStart 1 cafeDatabase) changeAfterwards)
      "txn_checking_p00001" ≠ categoryOf (inMemory.after ascii (inMemoryStart 1 cafeDatabase)
        (changeAfterwards.take 2)) "txn_checking_p00001" := by decide +kernel
  exact undone kept

end Finverse.Categorization
