import Finverse.Categorization.RuleStores
import Finverse.Ledger.SyncBatch

/-! What applying and undoing rules, recategorizing and syncing do to both stores, step by step. -/

namespace Finverse.Categorization

open Ledger (Categorizer RawTransaction Transaction TransactionRow mapTransaction toTransaction)

/-! ### Runs -/

/-- What a user and the provider do to a ledger. The id of an application is drawn at random; a sync
is any sequence of its writes. -/
inductive Operation
  | applyRule (draft : RuleDraft) (id now : String)
  | revert (id now : String)
  | recategorize (input : RecategorizeInput)
  | upsertMany (C : Categorizer) (raws : List RawTransaction)
  | removeByProviderIds (ids : List String)
  | reconcileTransfer (id : String)
  | reconcileRecurring (id : String) (shouldBeRecurring : Bool)

def Operation.applicationId : Operation → Option String
  | .applyRule _ id _ => some id
  | _ => none

variable (X : TextContext) {σ : Type} (A : Adapter σ)

/-- A request that fails leaves the state as it was. -/
def Adapter.exec (s : σ) : Operation → σ
  | .applyRule draft id now => (RuleApplyService.apply X A draft id now s).2
  | .revert id now => (RuleApplyService.revert A id now s).2
  | .recategorize input =>
    match LedgerService.recategorize X A input s with
    | .ok s' => s'
    | .error _ => s
  | .upsertMany C raws => A.upsertMany (raws.map (mapTransaction C)) s
  | .removeByProviderIds ids => A.removeByProviderIds ids s
  | .reconcileTransfer id => BankingService.reconcileTransfer A id s
  | .reconcileRecurring id shouldBeRecurring =>
    BankingService.reconcileRecurring A id shouldBeRecurring s

def Adapter.run (s : σ) (ops : List Operation) : σ := ops.foldl (A.exec X) s

/-- The ledger after some operations. -/
def Adapter.after (s : σ) (ops : List Operation) : List Transaction := A.transactions (A.run X s ops)

/-! ### What an application decides -/

section Plan

variable {X} {rows : List Transaction} {draft : RuleDraft} {preview : RulePreview}
  {changes : List RuleApplicationChange}

/-- The rows a rule rewrites. -/
def rewrites (X : TextContext) (rule : CategorizationRule) (t : Transaction) : Bool :=
  matchesRule X rule t.normalizedDescriptor &&
    !decide (t.categorySource = .userManual ∨ t.categorySlug = rule.categorySlug)

theorem previewRule_changes (rule : CategorizationRule) :
    (previewRule X rule rows).changes = (rows.filter (rewrites X rule)).map (ruleChange rule) := by
  have counted (preview : RulePreview) : (rows.foldl (RulePreview.count X rule) preview).changes =
      preview.changes ++ (rows.filter (rewrites X rule)).map (ruleChange rule) := by
    induction rows generalizing preview with
    | nil => simp
    | cons t rows ih =>
      rw [List.foldl_cons, ih, RulePreview.count, List.filter_cons, rewrites, RulePreview.matches_eq]
      by_cases hit : matchesRule X rule t.normalizedDescriptor = false
      · simp [hit]
      · by_cases manual : t.categorySource = .userManual
        · simp [hit, manual]
        · by_cases same : t.categorySlug = rule.categorySlug
          · simp [hit, manual, same]
          · simp [hit, manual, same]
  exact counted _

/-- The before-state of a row. -/
def beforeState (t : Transaction) : RuleApplicationChange :=
  ⟨t.id, t.categorySlug, t.categorySource, t.categoryConfidence⟩

theorem plan_changes (planned : RuleApplyService.plan X draft rows = .ok (preview, changes))
    (ids : (rows.map Transaction.id).Nodup) :
    changes = (rows.filter (rewrites X (RuleApplyService.toRule draft))).map beforeState := by
  obtain ⟨shown, previewed, planned⟩ := bind_ok planned
  obtain ⟨-, -, planned⟩ := bind_ok planned
  obtain ⟨-, -, planned⟩ := bind_ok planned
  obtain ⟨rfl, rfl⟩ := Prod.mk.inj (Except.ok.inj planned)
  obtain ⟨-, -, previewed⟩ := bind_ok previewed
  obtain rfl := Except.ok.inj previewed
  rw [previewRule_changes, List.map_map]
  refine List.map_congr_left fun t rewritten => ?_
  have found : rows.find? (·.id = t.id) = some t :=
    Table.lookup_of_mem ids (List.mem_filter.mp rewritten).1
  rw [Function.comp_apply, RuleApplyService.recordedChange, ruleChange, found]
  rfl

/-- Each row is recorded at most once, with its category. -/
theorem plan_spec (ids : (rows.map Transaction.id).Nodup)
    (planned : RuleApplyService.plan X draft (TransactionStore.list X rows) =
      .ok (preview, changes)) :
    (changes.map RuleApplicationChange.transactionId).Nodup ∧
      ∀ change ∈ changes, ∃ t ∈ rows, change.transactionId = t.id ∧
        change.previous = categoryColumn.get t := by
  have perm : (TransactionStore.list X rows).Perm rows := List.perm_insertionSort _ rows
  have listed : ((TransactionStore.list X rows).map Transaction.id).Nodup :=
    (perm.map Transaction.id).nodup_iff.mpr ids
  obtain rfl := plan_changes planned listed
  constructor
  · rw [List.map_map]
    exact listed.sublist (List.filter_sublist.map _)
  · intro change recorded
    obtain ⟨t, rewritten, rfl⟩ := List.mem_map.mp recorded
    exact ⟨t, perm.mem_iff.mp (List.mem_filter.mp rewritten).1, rfl, rfl⟩

end Plan

/-! ### The two stores side by side -/

/-- Both stores show the same transactions, under distinct ids. -/
structure Aligned (userId : Nat) (m : InMemoryRuleApplications) (p : RuleDatabase) : Prop where
  ledger : p.ledger.ledger userId = m.transactions
  ids : (m.transactions.map Transaction.id).Nodup

/-- The transactions moved on alike, and no application was touched. -/
structure Moved (userId : Nat) (m : InMemoryRuleApplications) (p : RuleDatabase)
    (m' : InMemoryRuleApplications) (p' : RuleDatabase) : Prop extends Aligned userId m' p' where
  byUser : m'.byUser = m.byUser
  changesByApplication : m'.changesByApplication = m.changesByApplication
  ruleApplications : p'.ruleApplications = p.ruleApplications
  ruleApplicationChanges : p'.ruleApplicationChanges = p.ruleApplicationChanges

section Moves

variable {X} {userId : Nat} {m m' : InMemoryRuleApplications} {p p' : RuleDatabase} {id : String}
  {patch : TransactionPatch}

theorem Aligned.stay (aligned : Aligned userId m p) : Moved userId m p m p :=
  ⟨aligned, rfl, rfl, rfl, rfl⟩

/-- A recurring flag of the user's own hides the one of the detector in Postgres only. -/
theorem Moved.update (moved : Moved userId m p m' p')
    (detected : ∀ isRecurring, patch = .recurring isRecurring →
      ∀ t ∈ m'.transactions, t.id = id → t.recurringOverride = none) :
    Moved userId m p (inMemory.update id patch m') ((postgres userId).update id patch p') := by
  have kept (t : Transaction) : (patch.apply t).id = t.id := by
    cases patch <;> rfl
  have rows : (inMemory.update id patch m').transactions =
      m'.transactions.map fun t => if t.id = id then patch.apply t else t :=
    Table.modify_eq_map moved.ids
  constructor
  · constructor
    · rw [rows, ← moved.ledger]
      change (updateRows _ p'.ledger).ledger userId = _
      rw [Ledger.Database.ledger, rowsOf_updateRows, Ledger.Database.ledger, List.map_map,
        List.map_map]
      refine List.map_congr_left fun row mine => ?_
      have shown : toTransaction row ∈ m'.transactions := by
        rw [← moved.ledger]
        exact List.mem_map_of_mem mine
      simp only [Function.comp_apply, owner_of_mem mine, true_and]
      by_cases here : row.id = id
      · rw [if_pos here, if_pos (show (toTransaction row).id = id from here)]
        cases patch with
        | category patch => rfl
        | recurring isRecurring =>
          have derived : row.recurringOverride = none := detected _ rfl _ shown here
          simp [TransactionPatch.set, TransactionPatch.apply, toTransaction, derived]
      · rw [if_neg here, if_neg (show ¬(toTransaction row).id = id from here)]
        rfl
    · rw [rows, List.map_map]
      convert moved.ids using 1
      refine List.map_congr_left fun t _ => ?_
      rw [Function.comp_apply]
      split
      · exact kept t
      · rfl
  · exact moved.byUser
  · exact moved.changesByApplication
  · exact moved.ruleApplications
  · exact moved.ruleApplicationChanges

theorem Moved.category (moved : Moved userId m p m' p') (id : String) (patch : CategoryPatch) :
    Moved userId m p (inMemory.update id (.category patch) m')
      ((postgres userId).update id (.category patch) p') :=
  moved.update fun _ no => by cases no

theorem Moved.backfill (rule : CategorizationRule) (transactionId : String)
    (txns : List Transaction) (moved : Moved userId m p m' p') :
    Moved userId m p (LedgerService.backfill inMemory rule transactionId txns m')
      (LedgerService.backfill (postgres userId) rule transactionId txns p') := by
  induction txns generalizing m' p' with
  | nil => exact moved
  | cons txn txns ih =>
    simp only [LedgerService.backfill, List.foldl_cons]
    split
    · exact ih moved
    · exact ih (moved.category _ _)

theorem recategorize_moved (aligned : Aligned userId m p) (input : RecategorizeInput) :
    Moved userId m p (inMemory.exec X m (.recategorize input))
      ((postgres userId).exec X p (.recategorize input)) := by
  have listed : (postgres userId).transactions p = inMemory.transactions m := aligned.ledger
  have updated := aligned.stay.category input.transactionId ⟨input.categorySlug, .userManual, 1⟩
  simp only [Adapter.exec, LedgerService.recategorize, throwIf, orThrow, listed, bind, Except.bind]
  by_cases unknown : X.isKnownCategory input.categorySlug = false
  · simp only [if_pos unknown]
    exact aligned.stay
  · simp only [if_neg unknown]
    cases TransactionStore.get (inMemory.transactions m) input.transactionId with
    | none => exact aligned.stay
    | some existing =>
      cases input.createRule with
      | false => exact updated
      | true =>
        have listed' : (postgres userId).transactions ((postgres userId).update input.transactionId
            (.category ⟨input.categorySlug, .userManual, 1⟩) p) = inMemory.transactions
              (inMemory.update input.transactionId
                (.category ⟨input.categorySlug, .userManual, 1⟩) m) := updated.ledger
        simp only [if_true, listed']
        exact updated.backfill _ _ _

theorem reconcileTransfer_moved (aligned : Aligned userId m p) (id : String) :
    Moved userId m p (BankingService.reconcileTransfer inMemory id m)
      (BankingService.reconcileTransfer (postgres userId) id p) := by
  have listed : (postgres userId).transactions p = inMemory.transactions m := aligned.ledger
  simp only [BankingService.reconcileTransfer, listed]
  cases TransactionStore.get (inMemory.transactions m) id with
  | none => exact aligned.stay
  | some txn =>
    dsimp only
    split
    · exact aligned.stay
    · exact aligned.stay.category _ _

theorem reconcileRecurring_moved (aligned : Aligned userId m p) (id : String)
    (shouldBeRecurring : Bool) :
    Moved userId m p (BankingService.reconcileRecurring inMemory id shouldBeRecurring m)
      (BankingService.reconcileRecurring (postgres userId) id shouldBeRecurring p) := by
  have listed : (postgres userId).transactions p = inMemory.transactions m := aligned.ledger
  simp only [BankingService.reconcileRecurring, listed]
  cases found : TransactionStore.get (inMemory.transactions m) id with
  | none => exact aligned.stay
  | some txn =>
    dsimp only
    split
    · exact aligned.stay
    · rename_i derived
      refine aligned.stay.update fun _ _ t stored same => ?_
      have only : TransactionStore.get m.transactions t.id = some t :=
        Table.lookup_of_mem aligned.ids stored
      rw [same] at only
      obtain rfl := Option.some.inj (found.symm.trans only)
      simpa using (not_or.mp derived).1

theorem upsertMany_moved (aligned : Aligned userId m p) {C : Categorizer}
    {raws : List RawTransaction}
    (storable : Ledger.Storable userId p.ledger (raws.map (mapTransaction C))) :
    Moved userId m p (inMemory.upsertMany (raws.map (mapTransaction C)) m)
      ((postgres userId).upsertMany (raws.map (mapTransaction C)) p) := by
  obtain ⟨ledger, ids⟩ := Ledger.upsertMany_storable storable
  have rows : (Ledger.PostgresTransactionStore.upsertMany userId (raws.map (mapTransaction C))
      p.ledger).2.ledger userId =
        (inMemory.upsertMany (raws.map (mapTransaction C)) m).transactions := by
    rw [ledger, aligned.ledger]
    rfl
  rw [aligned.ledger, rows] at ids
  exact ⟨⟨rows, ids aligned.ids⟩, rfl, rfl, rfl, rfl⟩

end Moves

/-! ### Applications, in both stores -/

/-- The application is stored and not undone. -/
def InMemoryRuleApplicationStore.isOpen (id : String) (st : InMemoryRuleApplications) : Bool :=
  (Table.lookup RuleApplication.id id st.byUser).any (·.revertedAt = none)

/-- What holds between the stores after applications under the ids `drawn`. What Postgres has recorded of an
application is part of what the other store has. -/
structure Paired (userId : Nat) (drawn : List String) (m : InMemoryRuleApplications)
    (p : RuleDatabase) : Prop extends Aligned userId m p where
  opened : ∀ id, PostgresRuleApplicationStore.isOpen userId id p =
    InMemoryRuleApplicationStore.isOpen id m
  recorded : ∀ id, InMemoryRuleApplicationStore.isOpen id m = true →
    PostgresRuleApplicationStore.changesOf userId id p ⊆
      InMemoryRuleApplicationStore.changesOf m id
  distinct : ∀ id, InMemoryRuleApplicationStore.isOpen id m = true →
    ((InMemoryRuleApplicationStore.changesOf m id).map RuleApplicationChange.transactionId).Nodup
  known : ∀ application ∈ m.byUser, application.id ∈ drawn
  knownRows : ∀ row ∈ p.ruleApplications.rows, row.userId = userId → row.application.id ∈ drawn
  knownChanges : ∀ row ∈ p.ruleApplicationChanges.rows, row.userId = userId →
    row.applicationId ∈ drawn

/-- The application is open with these changes, in both stores. -/
structure Open (userId : Nat) (id : String) (m : InMemoryRuleApplications) (p : RuleDatabase)
    (changes recorded : List RuleApplicationChange) : Prop where
  isOpen : InMemoryRuleApplicationStore.isOpen id m = true
  changesOf : InMemoryRuleApplicationStore.changesOf m id = changes
  recordedOf : PostgresRuleApplicationStore.changesOf userId id p = recorded

section Applications

variable {X} {userId : Nat} {drawn : List String} {m m' : InMemoryRuleApplications}
  {p p' : RuleDatabase} {id other now : String} {draft : RuleDraft} {preview : RulePreview}
  {changes recorded : List RuleApplicationChange}

theorem Moved.open_iff (moved : Moved userId m p m' p') :
    Open userId id m' p' changes recorded ↔ Open userId id m p changes recorded := by
  have isOpen : InMemoryRuleApplicationStore.isOpen id m' =
      InMemoryRuleApplicationStore.isOpen id m := by
    rw [InMemoryRuleApplicationStore.isOpen, moved.byUser]
    rfl
  have changesOf : InMemoryRuleApplicationStore.changesOf m' id =
      InMemoryRuleApplicationStore.changesOf m id := by
    rw [InMemoryRuleApplicationStore.changesOf, moved.changesByApplication]
    rfl
  have recordedOf : PostgresRuleApplicationStore.changesOf userId id p' =
      PostgresRuleApplicationStore.changesOf userId id p := by
    rw [PostgresRuleApplicationStore.changesOf, moved.ruleApplicationChanges]
    rfl
  constructor
  · rintro ⟨h, h', h''⟩
    exact ⟨isOpen ▸ h, changesOf ▸ h', recordedOf ▸ h''⟩
  · rintro ⟨h, h', h''⟩
    exact ⟨isOpen.trans h, changesOf.trans h', recordedOf.trans h''⟩

theorem Paired.weaken {drawn' : List String} (more : drawn ⊆ drawn')
    (paired : Paired userId drawn m p) : Paired userId drawn' m p where
  toAligned := paired.toAligned
  opened := paired.opened
  recorded := paired.recorded
  distinct := paired.distinct
  known application here := more (paired.known application here)
  knownRows row here owner := more (paired.knownRows row here owner)
  knownChanges row here owner := more (paired.knownChanges row here owner)

theorem Moved.paired (moved : Moved userId m p m' p') (paired : Paired userId drawn m p) :
    Paired userId drawn m' p' where
  toAligned := moved.toAligned
  opened id := by
    rw [PostgresRuleApplicationStore.isOpen, InMemoryRuleApplicationStore.isOpen, moved.byUser,
      moved.ruleApplications]
    exact paired.opened id
  recorded id opened := by
    obtain ⟨opened, changesOf, recordedOf⟩ := moved.open_iff.mp ⟨opened, rfl, rfl⟩
    rw [← changesOf, ← recordedOf]
    exact paired.recorded id opened
  distinct id opened := by
    obtain ⟨opened, changesOf, -⟩ := moved.open_iff.mp ⟨opened, rfl, rfl⟩
    rw [← changesOf]
    exact paired.distinct id opened
  known := by
    rw [moved.byUser]
    exact paired.known
  knownRows := by
    rw [moved.ruleApplications]
    exact paired.knownRows
  knownChanges := by
    rw [moved.ruleApplicationChanges]
    exact paired.knownChanges

/-! #### Rows the provider removes -/

theorem removed_rows (aligned : Aligned userId m p) (providerTxnIds : List String) :
    ((postgres userId).removeByProviderIds providerTxnIds p).ledger.ledger userId =
      (inMemory.removeByProviderIds providerTxnIds m).transactions := by
  change (((p.ledger.transactions.rows.filter _).filter _).map toTransaction) =
    m.transactions.filter fun t => decide (t.providerTxnId ∉ providerTxnIds)
  rw [← aligned.ledger, Ledger.Database.ledger, Ledger.Database.rowsOf, List.filter_map,
    List.filter_filter, List.filter_filter]
  congr 1
  refine List.filter_congr fun row _ => ?_
  by_cases owner : row.userId = userId
  · simp [owner, toTransaction]
  · simp [owner]

theorem removal_paired (paired : Paired userId drawn m p) (providerTxnIds : List String) :
    Paired userId drawn (inMemory.removeByProviderIds providerTxnIds m)
      ((postgres userId).removeByProviderIds providerTxnIds p) where
  ledger := removed_rows paired.toAligned providerTxnIds
  ids := paired.ids.sublist (List.filter_sublist.map _)
  opened := paired.opened
  recorded id opened := by
    refine List.Subset.trans ?_ (paired.recorded id opened)
    exact List.map_subset _ fun row kept => by
      obtain ⟨stored, mine⟩ := List.mem_filter.mp kept
      exact List.mem_filter.mpr ⟨List.mem_of_mem_filter stored, mine⟩
  distinct := paired.distinct
  known := paired.known
  knownRows := paired.knownRows
  knownChanges row stored := paired.knownChanges row (List.mem_of_mem_filter stored)

/-- A change is forgotten with its row. -/
theorem forgotten_with_row (aligned : Aligned userId m p) (providerTxnIds : List String)
    {change : RuleApplicationChange}
    (known : change ∈ PostgresRuleApplicationStore.changesOf userId id p) :
    change ∈ PostgresRuleApplicationStore.changesOf userId id
        ((postgres userId).removeByProviderIds providerTxnIds p) ∨
      categoryOf (inMemory.removeByProviderIds providerTxnIds m).transactions
          change.transactionId ≠ categoryOf m.transactions change.transactionId := by
  obtain ⟨row, listed, rfl⟩ := List.mem_map.mp known
  obtain ⟨stored, mine⟩ := List.mem_filter.mp listed
  obtain ⟨owner, -⟩ := of_decide_eq_true mine
  by_cases gone : p.ledger.transactions.rows.any (fun txn =>
      decide (txn.userId = userId ∧ txn.providerTxnId ∈ providerTxnIds) &&
        decide (txn.primary = (row.userId, row.change.transactionId))) = true
  · refine .inr ?_
    obtain ⟨txn, here, deleted⟩ := List.any_eq_true.mp gone
    rw [Bool.and_eq_true, decide_eq_true_eq, decide_eq_true_eq] at deleted
    obtain ⟨⟨txnOwner, provider⟩, primary⟩ := deleted
    have same : txn.id = row.change.transactionId := congrArg Prod.snd primary
    have shown : toTransaction txn ∈ m.transactions := by
      rw [← aligned.ledger]
      exact List.mem_map_of_mem (List.mem_filter.mpr ⟨here, by simpa using txnOwner⟩)
    have before : categoryOf m.transactions row.change.transactionId =
        some (categoryColumn.get (toTransaction txn)) := by
      rw [← same]
      exact Column.valueAt_of_mem aligned.ids shown
    have after : categoryOf (inMemory.removeByProviderIds providerTxnIds m).transactions
        row.change.transactionId = none := by
      refine Option.map_eq_none_iff.mpr (Table.lookup_eq_none.mpr fun listed => ?_)
      obtain ⟨t, left, id⟩ := List.mem_map.mp listed
      obtain ⟨stored, other⟩ := List.mem_filter.mp left
      obtain rfl := List.inj_on_of_nodup_map aligned.ids stored shown (id.trans same.symm)
      exact of_decide_eq_true other provider
    rw [before, after]
    exact Option.some_ne_none _ ∘ Eq.symm
  · refine .inl (List.mem_map.mpr ⟨row, List.mem_filter.mpr ⟨?_, mine⟩, rfl⟩)
    exact List.mem_filter.mpr ⟨stored, by simpa using gone⟩

/-! #### Applying -/

/-- What a successful application leaves in memory. -/
def InMemoryRuleApplications.applied (m : InMemoryRuleApplications) (draft : RuleDraft)
    (id now : String) (changes : List RuleApplicationChange) : InMemoryRuleApplications :=
  (InMemoryRuleApplicationStore.apply m (RuleApplyService.application draft id now changes)
    changes).2

theorem isOpen_applied (fresh : ∀ application ∈ m.byUser, application.id ≠ id) (other : String) :
    InMemoryRuleApplicationStore.isOpen other (m.applied draft id now changes) =
      (decide (other = id) || InMemoryRuleApplicationStore.isOpen other m) := by
  have absent : Table.lookup RuleApplication.id id m.byUser = none := by
    refine Table.lookup_eq_none.mpr fun listed => ?_
    obtain ⟨application, stored, same⟩ := List.mem_map.mp listed
    exact fresh application stored same
  simp only [InMemoryRuleApplicationStore.isOpen, InMemoryRuleApplications.applied,
    InMemoryRuleApplicationStore.apply, Table.lookup, List.find?_append]
  by_cases same : other = id
  · subst same
    rw [Table.lookup] at absent
    simp [absent, RuleApplyService.application]
  · have skipped : ¬id = other := fun h => same h.symm
    simp [same, skipped, RuleApplyService.application]

theorem changesOf_applied (other : String) :
    InMemoryRuleApplicationStore.changesOf (m.applied draft id now changes) other =
      if other = id then changes else InMemoryRuleApplicationStore.changesOf m other := by
  change ((Table.lookup Prod.fst other (Table.upsert Prod.fst (fun _ new => new) (id, changes)
    m.changesByApplication)).map Prod.snd).getD [] = _
  by_cases same : other = id
  · subst same
    have written : Table.lookup Prod.fst (Prod.fst (other, changes))
        (Table.upsert Prod.fst (fun _ new => new) (other, changes) m.changesByApplication) =
          some ((Table.lookup Prod.fst (Prod.fst (other, changes)) m.changesByApplication).elim
            (other, changes) fun _ => (other, changes)) :=
      Table.lookup_upsert_self fun _ _ => rfl
    dsimp only at written
    rw [written, if_pos rfl]
    cases Table.lookup Prod.fst other m.changesByApplication <;> rfl
  · have kept : Table.lookup Prod.fst other (Table.upsert Prod.fst (fun _ new => new) (id, changes)
        m.changesByApplication) = Table.lookup Prod.fst other m.changesByApplication :=
      Table.lookup_upsert_ne (fun _ _ => rfl) same
    rw [kept, if_neg same]
    rfl

theorem exec_applyRule
    (planned : RuleApplyService.plan X draft (TransactionStore.list X m.transactions) =
      .ok (preview, changes)) :
    inMemory.exec X m (.applyRule draft id now) = m.applied draft id now changes := by
  have planned' : RuleApplyService.plan X draft (TransactionStore.list X
      (inMemory.transactions m)) = .ok (preview, changes) := planned
  simp only [Adapter.exec, RuleApplyService.apply, planned']
  rfl

theorem exec_applyRule_refused {σ : Type} {A : Adapter σ} {s : σ} {e : RuleApplyError}
    (refused : RuleApplyService.plan X draft (TransactionStore.list X (A.transactions s)) =
      .error e) : A.exec X s (.applyRule draft id now) = s := by
  simp only [Adapter.exec, RuleApplyService.apply, refused]

theorem transactions_applied (ids : (m.transactions.map Transaction.id).Nodup)
    (distinct : (changes.map RuleApplicationChange.transactionId).Nodup) :
    (m.applied draft id now changes).transactions = categoryColumn.assign
      (assignment changes fun _ => ⟨draft.categorySlug, .userRule, 1⟩) m.transactions :=
  apply_rows (RuleApplyService.application draft id now changes) ids distinct

/-- What Postgres makes of a planned application. -/
theorem postgres_applyRule (paired : Paired userId drawn m p) (fresh : id ∉ drawn)
    (planned : RuleApplyService.plan X draft (TransactionStore.list X m.transactions) =
      .ok (preview, changes)) :
    ∃ p', (postgres userId).exec X p (.applyRule draft id now) = p' ∧
      p'.ledger.ledger userId = (m.applied draft id now changes).transactions ∧
      p'.ruleApplications.rows = p.ruleApplications.rows ++
        [⟨userId, RuleApplyService.application draft id now changes⟩] ∧
      p'.ruleApplicationChanges.rows = p.ruleApplicationChanges.rows ++
        changes.map (fun change => ⟨userId, id, change⟩) := by
  obtain ⟨distinct, recorded⟩ := plan_spec paired.ids planned
  have stored : ∀ change ∈ changes,
      change.transactionId ∈ (p.ledger.ledger userId).map Transaction.id := by
    intro change listed
    obtain ⟨t, here, same, -⟩ := recorded change listed
    rw [paired.ledger, same]
    exact List.mem_map_of_mem here
  have unused : ∀ row ∈ p.ruleApplications.rows, row.userId = userId → row.application.id ≠ id :=
    fun row here owner same => fresh (same ▸ paired.knownRows row here owner)
  have unrecorded : ∀ row ∈ p.ruleApplicationChanges.rows, row.userId = userId →
      row.applicationId ≠ id :=
    fun row here owner same => fresh (same ▸ paired.knownChanges row here owner)
  have unmarked : (RuleApplyService.application draft id now changes).revertedAt = none := rfl
  obtain ⟨p', done, rows, changeRows, ledger⟩ :=
    PostgresRuleApplicationStore.apply_stored unmarked unused unrecorded distinct stored
  have planned' : RuleApplyService.plan X draft (TransactionStore.list X
      ((postgres userId).transactions p)) = .ok (preview, changes) := by
    rw [← planned, ← paired.ledger]
    rfl
  have done' : (postgres userId).apply (RuleApplyService.application draft id now changes) changes
      p = (.ok (RuleApplyService.application draft id now changes), p') := done
  refine ⟨p', ?_, ?_, rows, changeRows⟩
  · simp only [Adapter.exec, RuleApplyService.apply, planned', done']
  · rw [ledger, paired.ledger, transactions_applied paired.ids distinct]
    rfl

theorem changesOf_appended (unrecorded : ∀ row ∈ p.ruleApplicationChanges.rows,
      row.userId = userId → row.applicationId ≠ id)
    (rows : p'.ruleApplicationChanges.rows = p.ruleApplicationChanges.rows ++
      changes.map (fun change => ⟨userId, id, change⟩)) (other : String) :
    PostgresRuleApplicationStore.changesOf userId other p' =
      if other = id then changes else PostgresRuleApplicationStore.changesOf userId other p := by
  rw [PostgresRuleApplicationStore.changesOf, rows, List.filter_append, List.map_append,
    List.filter_map, List.map_map]
  by_cases same : other = id
  · subst same
    have old : (p.ruleApplicationChanges.rows.filter fun row =>
        decide (row.userId = userId ∧ row.applicationId = other)) = [] :=
      List.filter_eq_nil_iff.mpr fun row here mine =>
        unrecorded row here (of_decide_eq_true mine).1 (of_decide_eq_true mine).2
    rw [old]
    simp [Function.comp_def]
  · have skipped : ¬id = other := fun h => same h.symm
    simp [same, skipped, Function.comp_def, PostgresRuleApplicationStore.changesOf]

theorem applyRule_paired (paired : Paired userId drawn m p) (fresh : id ∉ drawn)
    (planned : RuleApplyService.plan X draft (TransactionStore.list X m.transactions) =
      .ok (preview, changes)) :
    Paired userId (drawn ++ [id]) (inMemory.exec X m (.applyRule draft id now))
        ((postgres userId).exec X p (.applyRule draft id now)) ∧
      ∀ other, PostgresRuleApplicationStore.changesOf userId other
        ((postgres userId).exec X p (.applyRule draft id now)) =
          if other = id then changes
          else PostgresRuleApplicationStore.changesOf userId other p := by
  obtain ⟨p', done, ledger, rows, changeRows⟩ := postgres_applyRule paired fresh planned
  obtain ⟨distinct, -⟩ := plan_spec paired.ids planned
  have unrecorded : ∀ row ∈ p.ruleApplicationChanges.rows, row.userId = userId →
      row.applicationId ≠ id :=
    fun row here owner same => fresh (same ▸ paired.knownChanges row here owner)
  have unused : ∀ application ∈ m.byUser, application.id ≠ id :=
    fun application here same => fresh (same ▸ paired.known application here)
  have recordedOf := changesOf_appended unrecorded changeRows
  rw [done, exec_applyRule planned]
  refine ⟨⟨⟨ledger, ?_⟩, ?_, ?_, ?_, ?_, ?_, ?_⟩, recordedOf⟩
  · rw [transactions_applied paired.ids distinct]
    exact (Column.keys_assign (c := categoryColumn)).symm ▸ paired.ids
  · intro other
    rw [isOpen_applied unused, ← paired.opened other, PostgresRuleApplicationStore.isOpen, rows,
      List.any_append, PostgresRuleApplicationStore.isOpen]
    by_cases same : other = id
    · simp [same, RuleApplyService.application]
    · simp [same, RuleApplyService.application, Ne.symm same]
  · intro other opened
    rw [recordedOf, changesOf_applied]
    by_cases same : other = id
    · rw [if_pos same, if_pos same]
      exact List.Subset.refl _
    · rw [if_neg same, if_neg same]
      rw [isOpen_applied unused, decide_eq_false same, Bool.false_or] at opened
      exact paired.recorded other opened
  · intro other opened
    rw [changesOf_applied]
    by_cases same : other = id
    · rw [if_pos same]
      exact distinct
    · rw [if_neg same]
      rw [isOpen_applied unused, decide_eq_false same, Bool.false_or] at opened
      exact paired.distinct other opened
  · intro application here
    rcases List.mem_append.mp here with old | new
    · exact List.mem_append_left _ (paired.known application old)
    · obtain rfl := List.mem_singleton.mp new
      exact List.mem_append_right _ (List.mem_singleton_self id)
  · intro row here owner
    rw [rows] at here
    rcases List.mem_append.mp here with old | new
    · exact List.mem_append_left _ (paired.knownRows row old owner)
    · obtain rfl := List.mem_singleton.mp new
      exact List.mem_append_right _ (List.mem_singleton_self id)
  · intro row here owner
    rw [changeRows] at here
    rcases List.mem_append.mp here with old | new
    · exact List.mem_append_left _ (paired.knownChanges row old owner)
    · obtain ⟨change, -, rfl⟩ := List.mem_map.mp new
      exact List.mem_append_right _ (List.mem_singleton_self id)

/-! #### Undoing -/

theorem exec_revert_closed (closed : InMemoryRuleApplicationStore.isOpen id m = false) :
    inMemory.exec X m (.revert id now) = m := by
  have none : inMemory.revert id now m = (none, m) := by
    change InMemoryRuleApplicationStore.revert m id now = _
    rw [InMemoryRuleApplicationStore.isOpen] at closed
    rw [InMemoryRuleApplicationStore.revert]
    cases found : Table.lookup RuleApplication.id id m.byUser with
    | none => rfl
    | some application =>
      rw [found] at closed
      exact if_pos (of_decide_eq_false closed)
  simp only [Adapter.exec, RuleApplyService.revert, none]

theorem postgres_revert_closed (closed : PostgresRuleApplicationStore.isOpen userId id p = false) :
    (postgres userId).exec X p (.revert id now) = p := by
  have none : (postgres userId).revert id now p = (none, p) := by
    change PostgresRuleApplicationStore.revert userId id now p = _
    rw [PostgresRuleApplicationStore.revert, closed]
    rfl
  simp only [Adapter.exec, RuleApplyService.revert, none]

theorem exec_revert_open (opened : InMemoryRuleApplicationStore.isOpen id m = true) :
    inMemory.exec X m (.revert id now) = { m with
      transactions := (InMemoryRuleApplicationStore.restore
        (InMemoryRuleApplicationStore.changesOf m id) m.transactions).2
      byUser := Table.modify RuleApplication.id id (RuleApplication.reverted now) m.byUser } := by
  have done : inMemory.revert id now m = (some (InMemoryRuleApplicationStore.restore
      (InMemoryRuleApplicationStore.changesOf m id) m.transactions).1, { m with
        transactions := (InMemoryRuleApplicationStore.restore
          (InMemoryRuleApplicationStore.changesOf m id) m.transactions).2
        byUser := Table.modify RuleApplication.id id (RuleApplication.reverted now) m.byUser }) := by
    change InMemoryRuleApplicationStore.revert m id now = _
    rw [InMemoryRuleApplicationStore.isOpen] at opened
    rw [InMemoryRuleApplicationStore.revert]
    cases found : Table.lookup RuleApplication.id id m.byUser with
    | none =>
      rw [found] at opened
      cases opened
    | some application =>
      rw [found] at opened
      exact if_neg (not_not.mpr (of_decide_eq_true opened))
  simp only [Adapter.exec, RuleApplyService.revert, done]

theorem postgres_revert_open (opened : PostgresRuleApplicationStore.isOpen userId id p = true) :
    (postgres userId).exec X p (.revert id now) = { p with
      ruleApplications := p.ruleApplications.map (PostgresRuleApplicationStore.mark userId id now)
        (PostgresRuleApplicationStore.mark_primary userId id now)
      ledger := updateRows (PostgresRuleApplicationStore.restored userId id p) p.ledger } := by
  simp only [Adapter.exec, RuleApplyService.revert, postgres, PostgresRuleApplicationStore.revert,
    opened, if_true]

theorem isOpen_reverted (other : String) :
    InMemoryRuleApplicationStore.isOpen other (inMemory.exec X m (.revert id now)) =
      (InMemoryRuleApplicationStore.isOpen other m && !decide (other = id)) := by
  cases opened : InMemoryRuleApplicationStore.isOpen id m with
  | false =>
    rw [exec_revert_closed opened]
    by_cases same : other = id
    · simp [same, opened]
    · simp [same]
  | true =>
    have keeps : ∀ row, Table.lookup RuleApplication.id id m.byUser = some row →
        (row.reverted now).id = id :=
      fun row found => show row.id = id from Table.lookup_key found
    have marked : Table.lookup RuleApplication.id other
        (Table.modify RuleApplication.id id (RuleApplication.reverted now) m.byUser) =
          if other = id then (Table.lookup RuleApplication.id id m.byUser).map (RuleApplication.reverted now)
          else Table.lookup RuleApplication.id other m.byUser :=
      Table.lookup_modify keeps other
    rw [exec_revert_open opened, InMemoryRuleApplicationStore.isOpen]
    change Option.any _ (Table.lookup RuleApplication.id other
      (Table.modify RuleApplication.id id (RuleApplication.reverted now) m.byUser)) = _
    rw [marked, InMemoryRuleApplicationStore.isOpen]
    by_cases same : other = id
    · rw [if_pos same]
      cases Table.lookup RuleApplication.id id m.byUser <;>
        simp [same, RuleApplication.reverted]
    · simp [same]

theorem postgres_isOpen_reverted
    (opened : PostgresRuleApplicationStore.isOpen userId id p = true) (other : String) :
    PostgresRuleApplicationStore.isOpen userId other
        ((postgres userId).exec X p (.revert id now)) =
      (PostgresRuleApplicationStore.isOpen userId other p && !decide (other = id)) := by
  have marked (row : RuleApplicationRow) :
      decide ((PostgresRuleApplicationStore.mark userId id now row).userId = userId ∧
        (PostgresRuleApplicationStore.mark userId id now row).application.id = other ∧
        (PostgresRuleApplicationStore.mark userId id now row).application.revertedAt = none) =
      (decide (row.userId = userId ∧ row.application.id = other ∧
        row.application.revertedAt = none) && !decide (other = id)) := by
    rw [PostgresRuleApplicationStore.mark]
    split
    · rename_i marked
      by_cases same : other = id
      · simp [same, RuleApplication.reverted]
      · simp [marked.2.1, Ne.symm same]
    · rename_i kept
      by_cases same : other = id
      · simpa [same] using kept
      · simp [same]
  rw [postgres_revert_open opened]
  simp only [PostgresRuleApplicationStore.isOpen, Table.Keyed.map, List.any_map, Function.comp_def,
    marked]
  by_cases same : other = id
  · simp [same]
  · simp [same]

/-- Undoing part of the changes is undoing all of them, when the other rows are as they were. -/
theorem restore_part {rows : List Transaction} (part : recorded ⊆ changes)
    (distinct : (changes.map RuleApplicationChange.transactionId).Nodup)
    (already : ∀ change ∈ changes, change ∉ recorded → ∀ t ∈ rows,
      t.id = change.transactionId → categoryColumn.get t = change.previous) :
    categoryColumn.assign (assignment recorded RuleApplicationChange.previous) rows =
      categoryColumn.assign (assignment changes RuleApplicationChange.previous) rows := by
  refine Column.assign_congr fun t stored => ?_
  change (assignment recorded _ t.id).getD _ = (assignment changes _ t.id).getD _
  simp only [assignment]
  cases found : Table.lookup RuleApplicationChange.transactionId t.id changes with
  | none =>
    have missing : Table.lookup RuleApplicationChange.transactionId t.id recorded = none := by
      refine Table.lookup_eq_none.mpr fun listed => Table.lookup_eq_none.mp found ?_
      exact List.map_subset _ part listed
    rw [missing]
  | some change =>
    have here := Table.lookup_mem found
    have same := Table.lookup_key found
    by_cases known : change ∈ recorded
    · cases found' : Table.lookup RuleApplicationChange.transactionId t.id recorded with
      | none => exact absurd (same ▸ List.mem_map_of_mem known) (Table.lookup_eq_none.mp found')
      | some change' =>
        have again : change' = change := List.inj_on_of_nodup_map distinct
          (part (Table.lookup_mem found')) here ((Table.lookup_key found').trans same.symm)
        rw [again]
    · have now := already change here known t stored same.symm
      cases found' : Table.lookup RuleApplicationChange.transactionId t.id recorded with
      | none => exact now
      | some change' =>
        have again : change' = change := List.inj_on_of_nodup_map distinct
          (part (Table.lookup_mem found')) here ((Table.lookup_key found').trans same.symm)
        rw [again]

theorem transactions_reverted (paired : Paired userId drawn m p)
    (opened : InMemoryRuleApplicationStore.isOpen id m = true) :
    (inMemory.exec X m (.revert id now)).transactions = categoryColumn.assign
      (assignment (InMemoryRuleApplicationStore.changesOf m id) RuleApplicationChange.previous)
      m.transactions := by
  rw [exec_revert_open opened]
  exact restore_rows paired.ids (paired.distinct id opened)

theorem changesOf_reverted (other : String) :
    InMemoryRuleApplicationStore.changesOf (inMemory.exec X m (.revert id now)) other =
      InMemoryRuleApplicationStore.changesOf m other := by
  cases opened : InMemoryRuleApplicationStore.isOpen id m with
  | false => rw [exec_revert_closed opened]
  | true =>
    rw [exec_revert_open opened]
    rfl

theorem postgres_changesOf_reverted (other : String) :
    PostgresRuleApplicationStore.changesOf userId other
        ((postgres userId).exec X p (.revert id now)) =
      PostgresRuleApplicationStore.changesOf userId other p := by
  cases opened : PostgresRuleApplicationStore.isOpen userId id p with
  | false => rw [postgres_revert_closed opened]
  | true =>
    rw [postgres_revert_open opened]
    rfl

theorem revert_paired (paired : Paired userId drawn m p)
    (alike : InMemoryRuleApplicationStore.isOpen id m = true →
      categoryColumn.assign (assignment (PostgresRuleApplicationStore.changesOf userId id p)
          RuleApplicationChange.previous) m.transactions =
        categoryColumn.assign (assignment (InMemoryRuleApplicationStore.changesOf m id)
          RuleApplicationChange.previous) m.transactions) :
    Paired userId drawn (inMemory.exec X m (.revert id now))
      ((postgres userId).exec X p (.revert id now)) := by
  cases opened : InMemoryRuleApplicationStore.isOpen id m with
  | false =>
    rw [exec_revert_closed opened, postgres_revert_closed ((paired.opened id).trans opened)]
    exact paired
  | true =>
    have opened' := (paired.opened id).trans opened
    have still {other : String} (now' : InMemoryRuleApplicationStore.isOpen other
        (inMemory.exec X m (.revert id now)) = true) :
        InMemoryRuleApplicationStore.isOpen other m = true := by
      rw [isOpen_reverted, Bool.and_eq_true] at now'
      exact now'.1
    constructor
    · constructor
      · rw [transactions_reverted paired opened, ← alike opened, ← paired.ledger,
          postgres_revert_open opened']
        exact PostgresRuleApplicationStore.ledger_restored id p
      · rw [transactions_reverted paired opened]
        exact (Column.keys_assign (c := categoryColumn)).symm ▸ paired.ids
    · intro other
      rw [postgres_isOpen_reverted opened', isOpen_reverted, paired.opened]
    · intro other now'
      rw [postgres_changesOf_reverted, changesOf_reverted]
      exact paired.recorded other (still now')
    · intro other now'
      rw [changesOf_reverted]
      exact paired.distinct other (still now')
    · intro application here
      rw [exec_revert_open opened] at here
      have ids : (Table.modify RuleApplication.id id (RuleApplication.reverted now)
          m.byUser).map RuleApplication.id = m.byUser.map RuleApplication.id :=
        Table.map_key_modify fun row _ => row.reverted_id now
      obtain ⟨old, stored, same⟩ := List.mem_map.mp (ids ▸ List.mem_map_of_mem here)
      exact same ▸ paired.known old stored
    · intro row here owner
      rw [postgres_revert_open opened'] at here
      obtain ⟨old, stored, rfl⟩ := List.mem_map.mp here
      obtain ⟨owner', id'⟩ := Prod.mk.inj
        (PostgresRuleApplicationStore.mark_primary userId id now old)
      rw [id']
      exact paired.knownRows old stored (owner'.symm.trans owner)
    · intro row here owner
      rw [postgres_revert_open opened'] at here
      exact paired.knownChanges row here owner

end Applications

end Finverse.Categorization
