import Finverse.Analytics.Coherence
import Finverse.Scheduled.IsoDates
import Finverse.Transactions.Transfers

/-! What the user says of single transactions, while others reconcile the ledger. -/

namespace Finverse.Analytics

open Interleave Ledger

variable {Report : Type}

/-! ### What is kept -/

/-- Synchronizations and approvals, and what the user says of single transactions. -/
def Request.competes : Request → Bool
  | .analytics .. | .sync .. | .syncLink .. | .recategorize .. | .updatePreferences .. | .approve .. => true
  | _ => false

def World.row (w : World Report) (userId id : String) : Option Transaction :=
  Table.lookup Transaction.id id (w.ledgerOf userId)

/-- The row has this category, and it is the user's own. -/
def HasOwn (w : World Report) (userId id slug : String) : Prop :=
  ∃ row, w.row userId id = some row ∧ row.categorySlug = slug ∧ row.categorySource = .userManual

/-- The flag is as the user overrode it. -/
def FlagAgrees (row : Transaction) : Prop := ∀ own ∈ row.recurringOverride, row.isRecurring = own

def FlagsAgree (w : World Report) : Prop := ∀ userId, ∀ row ∈ w.ledgerOf userId, FlagAgrees row

/-- The user recategorises a row. -/
def Corrects (userId id slug : String) (c : Call Report) (w : World Report) : Prop :=
  c = .update userId id (categoryPatch slug .userManual 1) ∧ (w.row userId id).isSome

/-- The row is removed, as the aggregator has it no more. -/
def Removes (userId id : String) (c : Call Report) (w : World Report) : Prop :=
  ∃ ids row, c = .removeByProviderIds userId ids ∧ w.row userId id = some row ∧ row.providerTxnId ∈ ids

/-- The row is still there, and the user says nothing else of its category. -/
structure Leaves (userId id : String) (c : Call Report) (w : World Report) : Prop where
  unsaid : ∀ slug, ¬Corrects userId id slug c w
  stays : ¬Removes userId id c w

section Claims

variable (K : Context Report) (w₀ : World Report)

/-- The category is the user's own, as stored at some point or as the user last said, and since then
the user has not said otherwise and the row was not removed. -/
inductive Chosen (userId id slug : String) : List (Deed Report) → Prop
  | stored {log} (own : HasOwn (ending (machine K) w₀ log) userId id slug) : Chosen userId id slug log
  | corrected {log e} (said : Corrects userId id slug e.op e.before) : Chosen userId id slug (log ++ [e])
  | since {log e} (sofar : Chosen userId id slug log) (leaves : Leaves userId id e.op e.before) :
      Chosen userId id slug (log ++ [e])

/-- What the user has said is what is stored. -/
structure Respected (log : List (Deed Report)) : Prop where
  categories : ∀ userId id slug, Chosen K w₀ userId id slug log →
    HasOwn (ending (machine K) w₀ log) userId id slug
  flags : FlagsAgree (ending (machine K) w₀ log)

end Claims

/-- Nobody else writes a category over one that is the user's own by then, nor a flag that is not as the
user has overridden it by then. -/
structure InTime (c : Call Report) (w : World Report) : Prop where
  category : ∀ userId id slug source confidence row, c = .update userId id (categoryPatch slug source confidence) →
    source ≠ .userManual → w.row userId id = some row → row.categorySource ≠ .userManual
  flag : ∀ userId id recurring row, c = .update userId id { isRecurring := some recurring } →
    w.row userId id = some row → ∀ own ∈ row.recurringOverride, own = recurring

/-! ### What the requests write -/

/-- What is written into a stored row. -/
inductive Written : TransactionPatch → Prop
  | correction (slug : String) : Written (categoryPatch slug .userManual 1)
  | category (slug : String) {source : CategorySource} (confidence : Rat) (other : source ≠ .userManual) :
      Written (categoryPatch slug source confidence)
  | flag (recurring : Bool) : Written { isRecurring := some recurring }
  | preferences {patch : TransactionPatch} (category : patch.category = none)
      (flag : patch.isRecurring = patch.recurringOverride) : Written patch

/-- What the competing requests ask for: new rows come without an override. -/
def Call.Competes : Call Report → Prop
  | .update _ _ patch => Written patch
  | .upsertMany _ rows | .statements (.finalize _ _ _ rows _ _) => ∀ row ∈ rows, row.recurringOverride = none
  | .commitBatch .. | .revertBatch .. | .applyRule .. | .revertRule .. => False
  | _ => True

section Requests

variable {α : Type} {K : Context Report} {userId : String} {C : Categorizer}

abbrev Competing (m : Service Report α) : Prop := Task.All Call.Competes m

theorem updateAll_competing {patches : List (String × TransactionPatch)}
    (written : ∀ entry ∈ patches, Written entry.2) :
    Competing (updateAll userId patches : Service Report (List String)) := by
  induction patches with
  | nil => exact Task.all_pure _
  | cons entry patches ih =>
    rw [List.forall_mem_cons] at written
    refine all_call_bind written.1 fun _ => ?_
    exact Task.all_bind (ih written.2) fun _ => Task.all_pure _

theorem recurringPatches_written (shouldBeRecurring : Transaction → Bool) (rows : List Transaction) :
    ∀ entry ∈ recurringPatches shouldBeRecurring rows, Written entry.2 := by
  intro entry listed
  obtain ⟨row, -, rfl⟩ := List.mem_map.mp listed
  exact .flag _

theorem transferPatches_written (rows : List Transaction) :
    ∀ entry ∈ transferPatches K rows, Written entry.2 := by
  intro entry listed
  obtain ⟨id, -, rfl⟩ := List.mem_map.mp listed
  exact .category _ _ (by decide)

theorem reapplied_written (rule : Categorization.CategorizationRule) (transactionId : String)
    (rows : List Transaction) : ∀ entry ∈ reapplied rule transactionId rows, Written entry.2 := by
  intro entry listed
  obtain ⟨row, -, rfl⟩ := List.mem_map.mp listed
  exact .category _ _ (by decide)

theorem mapped_fresh (raw : List RawTransaction) :
    ∀ row ∈ raw.map (mapTransaction C), row.recurringOverride = none := by
  intro row listed
  obtain ⟨raw, -, rfl⟩ := List.mem_map.mp listed
  rfl

theorem publish_competing (type : FinanceEventType) :
    Competing (publish type userId : Service Report Unit) :=
  (Task.all_call (I := ports Report) _).mpr trivial

theorem publishSync_competing (inserted changed : Nat) :
    Competing (publishSync userId inserted changed : Service Report Unit) := by
  unfold publishSync
  have last : Competing (if 0 < changed then publish .transactionUpdated userId else pure () :
      Service Report Unit) := by
    split
    · exact publish_competing _
    · exact Task.all_pure _
  refine Task.all_bind (publish_competing _) fun _ => ?_
  by_cases more : 0 < inserted
  · rw [if_pos more]
    exact Task.all_bind (publish_competing _) fun _ => last
  · rw [if_neg more]
    exact last

theorem pages_competing {restart : Service Report (Banking.SyncCounts × Option String)}
    (again : Competing restart) (left : Nat) (cursor : Option String) (counts : Banking.SyncCounts) :
    Competing (pages userId C restart left cursor counts) := by
  induction left generalizing cursor counts with
  | zero => exact Task.all_pure _
  | succ left ih =>
    refine all_call_bind trivial fun page => ?_
    match page with
    | .error .mutationDuringPagination => exact again
    | .error (.other code) => exact Task.all_throw _
    | .ok page =>
      refine all_call_bind (mapped_fresh _) fun _ => ?_
      refine all_call_bind trivial fun _ => ?_
      dsimp only
      split
      · exact Task.all_pure _
      · split
        · exact Task.all_throw _
        · exact ih _ _

theorem cycle_competing (startingCursor : Option String) (retries : Nat) :
    Competing (cycle userId C startingCursor retries :
      Service Report (Banking.SyncCounts × Option String)) := by
  induction retries with
  | zero => exact pages_competing (Task.all_throw _) _ _ _
  | succ retries ih => exact pages_competing ih _ _ _

theorem sync_competing (linkId : String) : Competing (sync K userId linkId) := by
  unfold sync
  refine all_call_bind trivial fun _ => all_check_bind fun raw _ => ?_
  refine all_call_bind trivial fun _ => all_call_bind trivial fun _ => ?_
  refine all_call_bind (mapped_fresh _) fun counts => all_call_bind trivial fun _ => ?_
  exact Task.all_bind (updateAll_competing (recurringPatches_written _ _)) fun _ => publishSync_competing _ _

theorem syncLink_competing (linkId : String) (today : IsoDate) :
    Competing (syncLink K userId linkId today) := by
  unfold syncLink
  refine all_call_bind trivial fun _ => all_check_bind fun cursor _ => Task.all_tryCatch ?_ fun _ => ?_
  · unfold pull
    refine all_call_bind trivial fun _ => all_call_bind trivial fun _ => ?_
    refine Task.all_bind (cycle_competing _ _) fun pulled => ?_
    refine all_call_bind trivial fun _ => all_call_bind trivial fun _ => ?_
    refine Task.all_bind (updateAll_competing (transferPatches_written _)) fun _ => ?_
    refine all_call_bind trivial fun _ => ?_
    exact Task.all_bind (updateAll_competing (recurringPatches_written _ _)) fun _ => publishSync_competing _ _
  · exact all_call_bind trivial fun _ => Task.all_throw _

theorem recategorize_competing (input : Categorization.RecategorizeInput) :
    Competing (recategorize K userId input) := by
  unfold recategorize
  refine all_check_bind fun _ _ => all_call_bind trivial fun _ => all_check_bind fun existing _ => ?_
  refine all_call_bind (.correction _) fun _ => ?_
  split
  · refine all_call_bind trivial fun _ => all_call_bind trivial fun _ => ?_
    exact Task.all_bind (updateAll_competing (reapplied_written _ _ _)) fun _ => publish_competing _
  · exact publish_competing _

/-- A patch of preferences: the flag only goes with the override. -/
structure IsPreferences (patch : TransactionPatch) : Prop where
  category : patch.category = none
  flag : patch.isRecurring = patch.recurringOverride

theorem preference_kept {next next' : TransactionPatch} {key : String} {value : Statements.Scalar}
    (h : preference next key value = .ok next') (sofar : IsPreferences next) : IsPreferences next' := by
  unfold preference at h
  split at h
  · obtain ⟨text, -, done⟩ := bind_ok h
    obtain rfl := Except.ok.inj done
    exact ⟨sofar.category, sofar.flag⟩
  · obtain ⟨text, -, done⟩ := bind_ok h
    obtain rfl := Except.ok.inj done
    exact ⟨sofar.category, sofar.flag⟩
  · obtain ⟨excluded, -, done⟩ := bind_ok h
    obtain rfl := Except.ok.inj done
    exact ⟨sofar.category, sofar.flag⟩
  · obtain ⟨recurring, -, done⟩ := bind_ok h
    obtain rfl := Except.ok.inj done
    exact ⟨sofar.category, rfl⟩
  · obtain ⟨reported, -, done⟩ := bind_ok h
    obtain rfl := Except.ok.inj done
    exact ⟨sofar.category, sofar.flag⟩
  · obtain rfl := Except.ok.inj h
    exact sofar

theorem preferences_kept {entries : List (String × Statements.Scalar)} {next next' : TransactionPatch}
    (h : entries.foldlM (fun next entry => preference next entry.1 entry.2) next = .ok next')
    (sofar : IsPreferences next) : IsPreferences next' := by
  induction entries generalizing next with
  | nil =>
    obtain rfl := Except.ok.inj h
    exact sofar
  | cons entry entries ih =>
    rw [List.foldlM_cons] at h
    obtain ⟨more, read, rest⟩ := bind_ok h
    exact ih rest (preference_kept read sofar)

theorem updatePreferences_competing (transactionId : String) (patch : List (String × Statements.Scalar)) :
    Competing (updatePreferences userId transactionId patch : Service Report Unit) := by
  unfold updatePreferences
  refine all_call_bind trivial fun _ => all_check_bind fun _ _ => all_check_bind fun next read => ?_
  have such : IsPreferences next := preferences_kept read ⟨rfl, rfl⟩
  refine all_call_bind (.preferences such.category such.flag) fun _ => ?_
  exact all_check_bind fun _ _ => publish_competing _

theorem createRules_competing (rows : List (Statements.StatementRowRecord × String)) :
    Competing (createRules K userId rows) := by
  induction rows with
  | nil => exact Task.all_pure _
  | cons row rows ih => exact all_call_bind trivial fun _ => ih

theorem reconcileInternalTransfers_competing (rows : List Statements.StatementRowRecord) :
    Competing (reconcileInternalTransfers K userId rows) := by
  unfold reconcileInternalTransfers
  dsimp only
  split
  · refine all_call_bind trivial fun _ => ?_
    refine Task.all_bind (updateAll_competing (transferPatches_written _)) fun categorized => ?_
    split
    · exact publish_competing _
    · exact Task.all_pure _
  · exact Task.all_pure _

theorem approve_competing (importId : String) (draw : Statements.Draw) (ruleIds : Nat → String) :
    Competing (approve K userId importId draw ruleIds) := by
  unfold approve
  refine all_call_bind trivial fun _ => all_check_bind fun statement _ => ?_
  refine all_call_bind trivial fun _ => all_check_bind fun included _ => ?_
  refine all_call_bind trivial fun _ => all_check_bind fun _ _ => ?_
  have fresh : ∀ row ∈ included.map (Statements.transactionOf K.statements importId statement.accountId draw.uuid),
      row.recurringOverride = none := by
    intro row listed
    obtain ⟨staged, -, rfl⟩ := List.mem_map.mp listed
    rfl
  refine all_call_bind fresh fun _ => all_check_bind fun _ _ => ?_
  refine Task.all_bind (publish_competing _) fun _ => ?_
  exact Task.all_bind (reconcileInternalTransfers_competing _) fun _ => createRules_competing _

theorem handle_competing {r : Request} (competes : r.competes = true) : Competing (handle K r) := by
  cases r with
  | analytics userId period asOf customRange currency =>
    refine Task.all_map (Task.All.mono (analytics_about userId period asOf customRange currency) ?_)
    intro call nobody
    cases call with
    | statements op => cases op <;> trivial
    | _ => trivial
  | sync userId linkId => exact Task.all_map (sync_competing linkId)
  | syncLink userId linkId today => exact Task.all_map (syncLink_competing linkId today)
  | recategorize userId input => exact Task.all_map (recategorize_competing input)
  | updatePreferences userId transactionId patch =>
    exact Task.all_map (updatePreferences_competing transactionId patch)
  | approve userId importId draw ruleIds => exact Task.all_map (approve_competing importId draw ruleIds)
  | _ => cases competes

end Requests

/-! ### What becomes of a row -/

section Rows

variable {K : Context Report} {w : World Report} {c : Call Report} {env : Env} {userId id slug : String}

/-- A row with the user's own category stays so, and its flag as the user overrode it. -/
structure Keeps (row row' : Transaction) : Prop where
  id : row'.id = row.id
  own : row.categorySource = .userManual →
    row'.categorySlug = row.categorySlug ∧ row'.categorySource = .userManual
  flag : FlagAgrees row → FlagAgrees row'

theorem Keeps.refl (row : Transaction) : Keeps row row := ⟨rfl, fun own => ⟨rfl, own⟩, fun agrees => agrees⟩

theorem Keeps.trans {row row' row'' : Transaction} (first : Keeps row row') (second : Keeps row' row'') :
    Keeps row row'' where
  id := second.id.trans first.id
  own own := by
    obtain ⟨slug, own'⟩ := first.own own
    obtain ⟨slug', own''⟩ := second.own own'
    exact ⟨slug'.trans slug, own''⟩
  flag agrees := second.flag (first.flag agrees)

theorem keeps_resync (existing txn : Transaction) : Keeps existing (InMemoryTransactionStore.resync existing txn) := by
  have flag (row' : Transaction) (override : row'.recurringOverride = existing.recurringOverride)
      (recurring : row'.isRecurring = existing.recurringOverride.getD txn.isRecurring) : FlagAgrees row' := by
    intro own overridden
    rw [override, Option.mem_def] at overridden
    rw [recurring, overridden, Option.getD_some]
  unfold InMemoryTransactionStore.resync
  split
  · exact ⟨rfl, fun own => ⟨rfl, own⟩, fun _ => flag _ rfl rfl⟩
  · rename_i machine
    refine ⟨rfl, fun own => ?_, fun _ => flag _ rfl rfl⟩
    exact absurd (by simp [Transaction.keepsUserCategory, own]) machine

theorem flagAgrees_of_none {row : Transaction} (none_ : row.recurringOverride = none) : FlagAgrees row := by
  intro own overridden
  rw [none_] at overridden
  cases overridden

theorem upsertMany_grows {rows txns : List Transaction} (fresh : ∀ txn ∈ txns, txn.recurringOverride = none) :
    Table.Grows Keeps FlagAgrees rows (InMemoryTransactionStore.upsertMany rows txns).2 := by
  rw [InMemoryTransactionStore.upsertMany_rows]
  induction txns generalizing rows with
  | nil => exact .refl Keeps.refl rows
  | cons txn txns ih =>
    rw [List.forall_mem_cons] at fresh
    rw [List.foldl_cons]
    refine Table.Grows.trans Keeps.trans (fun _ _ keeps => keeps.flag) ?_ (ih fresh.2)
    exact Table.grows_upsert Keeps.refl (fun row _ => keeps_resync row txn) (flagAgrees_of_none fresh.1)

/-- Only updates change more than that, and only removals take rows away. -/
theorem perform_cases (competes : c.Competes) (env : Env) (w : World Report) :
    (∃ other target patch, c = .update other target patch) ∨ (∃ other ids, c = .removeByProviderIds other ids) ∨
      ∀ userId, Table.Grows Keeps FlagAgrees (w.ledgerOf userId) ((perform K c env w).2.ledgerOf userId) := by
  have same : ∀ userId, Table.Grows Keeps FlagAgrees (w.ledgerOf userId) (w.ledgerOf userId) :=
    fun _ => .refl Keeps.refl _
  cases c with
  | update other target patch => exact .inl ⟨other, target, patch, rfl⟩
  | removeByProviderIds other ids => exact .inr (.inl ⟨other, ids, rfl⟩)
  | upsertMany other rows =>
    refine .inr (.inr fun userId => ?_)
    simp only [perform, World.ledgerOf_putLedger]
    split
    · rename_i mine
      rw [mine]
      exact upsertMany_grows competes
    · exact same userId
  | statements op =>
    refine .inr (.inr fun userId => ?_)
    cases op with
    | finalize other importId batch rows now readAt =>
      simp only [perform, World.ledgerOf, Statements.Adapter.exec, Statements.finalizeInMemory]
      split
      · exact same userId
      · simp only [Statements.Imports.ledgerOf, OrdMap.get?_set]
        split
        · rename_i mine
          rw [← mine]
          exact upsertMany_grows competes
        · exact same userId
    | _ => exact same userId
  | commitBatch | revertBatch | applyRule | revertRule => cases competes
  | _ => exact .inr (.inr same)

theorem row_update (other target : String) (patch : TransactionPatch) :
    (perform K (.update other target patch) env w).2.row userId id =
      if other = userId ∧ id = target then (w.row userId id).map patch.apply else w.row userId id := by
  simp only [perform, InMemoryTransactionStore.update, World.row, World.ledgerOf_putLedger]
  by_cases mine : other = userId
  · subst mine
    have changed : Table.lookup Transaction.id id (Table.modify Transaction.id target patch.apply (w.ledgerOf other)) =
        if id = target then (Table.lookup Transaction.id target (w.ledgerOf other)).map patch.apply
        else Table.lookup Transaction.id id (w.ledgerOf other) := by
      apply Table.lookup_modify
      exact fun row found => (Table.lookup_key found : row.id = target)
    rw [if_pos rfl, changed]
    by_cases this : id = target
    · rw [if_pos this, if_pos ⟨rfl, this⟩, this]
    · rw [if_neg this, if_neg fun both => this both.2]
  · rw [if_neg mine, if_neg fun both => mine both.1]

/-- The user's own category is kept by what comes in time. -/
theorem perform_own (competes : c.Competes) (inTime : InTime c w) (leaves : Leaves userId id c w)
    (own : HasOwn w userId id slug) : HasOwn (perform K c env w).2 userId id slug := by
  obtain ⟨row, found, rfl, mine⟩ := own
  rcases perform_cases competes env w with ⟨other, target, patch, rfl⟩ | ⟨other, ids, rfl⟩ | grows
  · rw [HasOwn, row_update]
    by_cases this : other = userId ∧ id = target
    · obtain ⟨rfl, rfl⟩ := this
      rw [if_pos ⟨rfl, rfl⟩, found]
      refine ⟨_, rfl, ?_⟩
      cases competes with
      | correction slug => exact absurd ⟨rfl, by rw [found]; rfl⟩ (leaves.unsaid slug)
      | category slug confidence source => exact absurd mine (inTime.category _ _ _ _ _ _ rfl source found)
      | flag recurring => exact ⟨rfl, mine⟩
      | preferences category flag => simp [TransactionPatch.apply, category, mine]
    · rw [if_neg this]
      exact ⟨row, found, rfl, mine⟩
  · simp only [HasOwn, World.row, perform, InMemoryTransactionStore.removeByProviderIds, World.ledgerOf_putLedger]
    split
    · rename_i this
      subst this
      have stays : row.providerTxnId ∉ ids := fun listed => leaves.stays ⟨ids, row, rfl, found, listed⟩
      exact ⟨row, Table.lookup_filter_of_pos found (decide_eq_true stays), rfl, mine⟩
    · exact ⟨row, found, rfl, mine⟩
  · obtain ⟨row', found', keeps⟩ := (grows userId).lookup (fun _ _ keeps => keeps.id) found
    exact ⟨row', found', (keeps.own mine).1, (keeps.own mine).2⟩

theorem perform_flags (competes : c.Competes) (inTime : InTime c w) (agree : FlagsAgree w) :
    FlagsAgree (perform K c env w).2 := by
  intro userId
  rcases perform_cases competes env w with ⟨other, target, patch, rfl⟩ | ⟨other, ids, rfl⟩ | grows
  · simp only [perform, InMemoryTransactionStore.update, World.ledgerOf_putLedger]
    split
    · rename_i mine
      subst mine
      have moved : List.Forall₂ (fun row row' => FlagAgrees row → FlagAgrees row') (w.ledgerOf other)
          (Table.modify Transaction.id target patch.apply (w.ledgerOf other)) := by
        refine Table.forall₂_modify (fun _ => id) fun row found agrees => ?_
        cases competes with
        | correction slug => exact agrees
        | category slug confidence source => exact agrees
        | flag recurring => exact fun own overridden => (inTime.flag _ _ _ _ rfl found own overridden).symm
        | preferences category flag =>
          intro own overridden
          simp only [TransactionPatch.apply] at overridden ⊢
          rw [flag]
          cases said : patch.recurringOverride with
          | none =>
            rw [said] at overridden
            exact agrees own overridden
          | some recurring =>
            rw [said] at overridden
            exact Option.some.inj overridden
      exact Table.forall_of_forall₂ (fun _ _ kept => kept) moved (agree other)
    · exact agree userId
  · simp only [perform, InMemoryTransactionStore.removeByProviderIds, World.ledgerOf_putLedger]
    split
    · rename_i mine
      rw [mine]
      exact fun row stored => agree userId row (List.mem_filter.mp stored).1
    · exact agree userId
  · exact (grows userId).all (fun _ _ keeps => keeps.flag) (fun _ agrees => agrees) (agree userId)

end Rows

/-! ### Runs -/

section Runs

variable {K : Context Report} {w₀ : World Report} {log before after : List (Deed Report)} {e : Deed Report}
  {c : Pool (ports Report) (World Report) Request (Except ServiceError (Option Report))}
  {cond : List (Deed Report) → Deed Report → Prop}

theorem deed_competes (recorded : Pool.Recorded (system K) w₀ cond (log ++ [e]) c)
    (competes : e.req.competes = true) : e.op.Competes := by
  have asks : Task.Asks (I := ports Report) (fun _ op => op.Competes) (fun h _ => Extends _ [] h)
      (fun h _ => Extends _ [] h) [] (handle K e.req) :=
    Task.Asks.of_all (handle_competing competes) fun _ _ competes => competes
  exact recorded.asks asks

theorem hasOwn_correction {userId id slug : String} (said : Corrects userId id slug e.op e.before) :
    HasOwn (e.after (machine K)) userId id slug := by
  obtain ⟨thread, req, op, input, w⟩ := e
  obtain ⟨rfl, there⟩ := said
  obtain ⟨row, found⟩ := Option.isSome_iff_exists.mp there
  change HasOwn (perform K _ input w).2 userId id slug
  rw [HasOwn, row_update, if_pos ⟨rfl, rfl⟩]
  exact ⟨_, by rw [found]; rfl, rfl, rfl⟩

/-- One more operation that comes in time. -/
theorem Respected.step (recorded : Pool.Recorded (system K) w₀ cond (log ++ [e]) c)
    (competes : e.req.competes = true) (inTime : InTime e.op e.before) (sofar : Respected K w₀ log) :
    Respected K w₀ (log ++ [e]) := by
  obtain ⟨here, -⟩ := recorded.step
  have here : e.before = ending (machine K) w₀ log := here
  have asked := deed_competes recorded competes
  constructor
  · intro userId id slug chosen
    rw [ending_snoc]
    generalize split : log ++ [e] = log' at chosen
    cases chosen with
    | stored own =>
      subst split
      rwa [ending_snoc] at own
    | corrected said =>
      obtain ⟨rfl, same⟩ := List.append_inj' split rfl
      obtain rfl := (List.cons.inj same).1
      exact hasOwn_correction said
    | since chosen leaves =>
      obtain ⟨rfl, same⟩ := List.append_inj' split rfl
      obtain rfl := (List.cons.inj same).1
      exact perform_own asked inTime leaves (here ▸ sofar.categories userId id slug chosen)
  · rw [ending_snoc]
    exact perform_flags asked inTime (here ▸ sofar.flags)

theorem categoryPatch_source {slug slug' : String} {source source' : CategorySource} {confidence confidence' : Rat}
    (same : categoryPatch slug source confidence = categoryPatch slug' source' confidence') : source = source' := by
  have written := Option.some.inj (congrArg TransactionPatch.category same)
  exact (Prod.mk.inj (Prod.mk.inj written).2).1

/-- A category that is written over the user's own is lost, and so is the override of a flag. -/
theorem Respected.inTime (recorded : Pool.Recorded (system K) w₀ cond (log ++ [e]) c)
    (respected : Respected K w₀ (log ++ [e])) : InTime e.op e.before := by
  obtain ⟨here, -⟩ := recorded.step
  have here : e.before = ending (machine K) w₀ log := here
  obtain ⟨thread, req, op, input, w⟩ := e
  constructor
  · rintro userId id slug source confidence row rfl other found own
    have chosen : Chosen K w₀ userId id row.categorySlug log := .stored ⟨row, here ▸ found, rfl, own⟩
    have leaves : Leaves userId id (.update userId id (categoryPatch slug source confidence) : Call Report) w := by
      constructor
      · rintro said ⟨same, -⟩
        obtain ⟨-, -, same⟩ := Call.update.inj same
        exact other (categoryPatch_source same)
      · rintro ⟨ids, row, same, -⟩
        cases same
    obtain ⟨row', found', -, own'⟩ := respected.categories userId id row.categorySlug (.since chosen leaves)
    rw [ending_snoc] at found'
    change (perform K _ input w).2.row userId id = some row' at found'
    rw [row_update, if_pos ⟨rfl, rfl⟩, found] at found'
    obtain rfl := Option.some.inj found'
    exact other own'
  · rintro userId id recurring row rfl found own overridden
    have agree := respected.flags
    rw [ending_snoc] at agree
    have found' : (perform K (.update userId id { isRecurring := some recurring }) input w).2.row userId id =
        some (({ isRecurring := some recurring } : TransactionPatch).apply row) := by
      rw [row_update, if_pos ⟨rfl, rfl⟩, found]
      rfl
    exact (agree userId _ (Table.lookup_mem found') own overridden).symm

theorem Respected.start (agree : FlagsAgree w₀) : Respected K w₀ [] := by
  refine ⟨fun userId id slug chosen => ?_, agree⟩
  generalize nothing : ([] : List (Deed Report)) = log at chosen
  cases chosen with
  | stored own =>
    rw [← nothing] at own ⊢
    exact own
  | corrected | since => simp at nothing

/-- Corrections and overrides are respected throughout a run exactly if everything comes in time. -/
theorem corrections_respected_iff (agree : FlagsAgree w₀)
    (recorded : Pool.Recorded (system K) w₀ (fun _ e => e.req.competes = true) log c) :
    (∀ sofar, sofar <+: log → Respected K w₀ sofar) ↔ ∀ e ∈ log, InTime e.op e.before := by
  constructor
  · intro respected e done
    obtain ⟨before, after, rfl⟩ := List.append_of_mem done
    rw [List.append_cons] at recorded respected
    obtain ⟨c', recorded⟩ := recorded.of_append
    exact (respected _ (List.prefix_append _ _)).inTime recorded
  · rintro inTime sofar ⟨rest, rfl⟩
    obtain ⟨c', recorded⟩ := recorded.of_append
    have every : ∀ e ∈ sofar, InTime e.op e.before := fun e done => inTime e (List.mem_append_left _ done)
    clear inTime
    refine recorded.induct (P := fun log => (∀ e ∈ log, InTime e.op e.before) → Respected K w₀ log) ?_ ?_ every
    · exact fun _ => .start agree
    · intro log e c recorded _ competes ih every
      exact (ih fun e done => every e (List.mem_append_left _ done)).step recorded competes (every e (by simp))

end Runs

/-! ### A transfer that is none to the user -/

section Example

/-- Something may be said of a category, or rows removed. -/
def Call.disturbs {Report : Type} : Call Report → Bool
  | .update _ _ patch => patch.category.any (·.2.1 = .userManual)
  | .removeByProviderIds .. => true
  | _ => false

theorem leaves_of_quiet {c : Call Report} {w : World Report} {userId id : String} (quiet : c.disturbs = false) :
    Leaves userId id c w := by
  constructor
  · rintro slug ⟨rfl, -⟩
    cases quiet
  · rintro ⟨ids, row, rfl, -⟩
    cases quiet

theorem Chosen.rest {K : Context Report} {w₀ : World Report} {userId id slug : String} {log rest : List (Deed Report)}
    (chosen : Chosen K w₀ userId id slug log) (leaves : ∀ e ∈ rest, e.op.disturbs = false) :
    Chosen K w₀ userId id slug (log ++ rest) := by
  induction rest using List.reverseRecOn with
  | nil => rwa [List.append_nil]
  | append_singleton rest e ih =>
    rw [← List.append_assoc]
    refine .since (ih fun e' done => leaves e' (by simp [done])) (leaves_of_quiet (leaves e (by simp)))

def dateOf (date : IsoDate) : Option Insights.Date :=
  match Scheduled.toUtcDate date with
  | .ok found => found
  | .error _ => none

def transferRow (row : Transaction) : Option Transactions.Transaction :=
  (dateOf row.postedAt).map fun postedAt =>
    ⟨⟨row.id, postedAt, row.amount, row.currency, row.normalizedDescriptor, row.merchant, row.categorySlug,
      row.pending, row.excludedFromAnalytics.getD false⟩, row.accountId⟩

theorem january : 1 ≤ 1 ∧ 1 ≤ 12 := by decide

/-- Some days on or back, less than a year. -/
def shiftDays (day : IsoDate) (days : Int) : IsoDate :=
  match dateOf day with
  | some date =>
    let start := Scheduled.firstOf (date.year - 1) 1 january
    Scheduled.text (start.addDays ((date.number : Int) + days - start.number).toNat)
  | none => day

def pairing : Context Nat where
  imports := { Imports.paper with
    text := { Categorization.ascii with isKnownCategory := fun slug => (Insights.kindOf slug).isSome } }
  statements := Statements.plain
  addDays := shiftDays
  detectSubscriptions := fun rows =>
    Insights.detectSubscriptions ((rows.filterMap transferRow).map (·.toTransaction))
  internalTransferIds := fun rows => Transactions.internalTransferIds
    (Transactions.detectInternalTransfers Transactions.byCharacters {} (rows.filterMap transferRow))
  correctionModel := fun _ _ => none
  computeAnalytics := fun rows _ _ _ => rows.length

def toSavings : Transaction where
  id := "txn_1"
  accountId := "checking"
  providerTxnId := "p1"
  postedAt := "2026-03-02"
  amount := -50000
  currency := "CAD"
  rawDescriptor := "WITHDRAWAL"
  normalizedDescriptor := "withdrawal"
  categorySlug := "unknown"
  categorySource := .unknown
  categoryConfidence := 0
  isRecurring := false
  pending := false

def fromEmployer : Transaction where
  id := "txn_2"
  accountId := "savings"
  providerTxnId := "p2"
  postedAt := "2026-03-03"
  amount := 50000
  currency := "CAD"
  rawDescriptor := "DEPOSIT"
  normalizedDescriptor := "deposit"
  categorySlug := "unknown"
  categorySource := .unknown
  categoryConfidence := 0
  isRecurring := false
  pending := false

def twoAccounts : World Nat := ({} : World Nat).putLedger "ada" [toSavings, fromEmployer]

theorem twoAccounts_agree : FlagsAgree twoAccounts := by
  intro userId row stored
  rw [twoAccounts, World.ledgerOf_putLedger] at stored
  split at stored
  · simp only [List.mem_cons, List.not_mem_nil, or_false] at stored
    obtain rfl | rfl := stored <;> exact flagAgrees_of_none rfl
  · cases stored

def refresh : Request := .syncLink "ada" "l1" "2026-03-04"

def isIncome : Request := .recategorize "ada" ⟨"txn_2", "income", false, 0⟩

/-- Ada says that it is income when the synchronization has listed the ledger. -/
def overtaken : Pool.Course (ports Nat) Env (World Nat) Request (Except ServiceError (Option Nat)) :=
  Pool.courseUnder (system pairing) (fun _ e => e.req.competes) twoAccounts
    (.start refresh :: turns 0 8 ++ .start isIncome :: turns 1 3 ++ turns 0 4)

/-- What Ada said is lost. -/
theorem correction_overtaken : ¬∀ (w₀ : World Nat) log c, FlagsAgree w₀ →
    Pool.Recorded (system pairing) w₀ (fun _ e => e.req.competes = true) log c →
    (∀ n r, ¬c.Running n r) → Respected pairing w₀ log := by
  intro claim
  have completed : ∀ n r, ¬overtaken.2.Running n r := by
    rintro n r ⟨op, next, running⟩
    have all : ∀ th ∈ overtaken.2.threads, th.prog.isRet = true := by decide +kernel
    exact Bool.false_ne_true (all _ (List.mem_of_getElem? running))
  have respected := claim twoAccounts overtaken.1 overtaken.2 twoAccounts_agree
    (Pool.courseUnder_recorded ..) completed
  have said : ((ending (machine pairing) twoAccounts (overtaken.1.take 10)).row "ada" "txn_2").map
      (fun row => (row.categorySlug, row.categorySource)) = some ("income", .userManual) := by decide +kernel
  obtain ⟨row, found, same⟩ := Option.map_eq_some_iff.mp said
  obtain ⟨slug, source⟩ := Prod.mk.inj same
  have quiet : ∀ e ∈ overtaken.1.drop 10, e.op.disturbs = false := by decide +kernel
  have chosen : Chosen pairing twoAccounts "ada" "txn_2" "income" (overtaken.1.take 10 ++ overtaken.1.drop 10) :=
    (Chosen.stored ⟨row, found, slug, source⟩).rest quiet
  rw [List.take_append_drop] at chosen
  obtain ⟨row, found, slug, -⟩ := respected.categories "ada" "txn_2" "income" chosen
  have now : ((ending (machine pairing) twoAccounts overtaken.1).row "ada" "txn_2").map (·.categorySlug) =
      some "transfer" := by decide +kernel
  rw [found, Option.map_some, slug] at now
  exact absurd (Option.some.inj now) (by decide)

/-- Whether an operation writes over nothing that the user said. -/
def InTime.check {Report : Type} (c : Call Report) (w : World Report) : Bool :=
  match c with
  | .update userId id patch => (w.row userId id).all fun row =>
    (patch.category.all (·.2.1 = .userManual) || row.categorySource ≠ .userManual) &&
      patch.isRecurring.all fun recurring => row.recurringOverride.all (· = recurring)
  | _ => true

theorem InTime.of_check {Report : Type} {c : Call Report} {w : World Report} (checked : InTime.check c w = true) :
    InTime c w where
  category := by
    rintro userId id slug source confidence row rfl other found
    simp only [InTime.check, found, Option.all_some, categoryPatch, Bool.and_eq_true, Bool.or_eq_true,
      decide_eq_true_eq] at checked
    exact checked.1.resolve_left other
  flag := by
    rintro userId id recurring row rfl found own overridden
    rw [Option.mem_def] at overridden
    simp only [InTime.check, found, Option.all_some, overridden, Bool.and_eq_true, decide_eq_true_eq] at checked
    exact checked.2

/-- Ada has said so before. -/
def saidBefore : Pool.Course (ports Nat) Env (World Nat) Request (Except ServiceError (Option Nat)) :=
  Pool.courseUnder (system pairing) (fun _ e => e.req.competes) twoAccounts
    (.start isIncome :: turns 0 3 ++ .start refresh :: turns 1 11)

theorem correction_respected :
    saidBefore.1.length = 14 ∧ ∀ sofar, sofar <+: saidBefore.1 → Respected pairing twoAccounts sofar := by
  have inTime : ∀ e ∈ saidBefore.1, InTime.check e.op e.before = true := by decide +kernel
  refine ⟨by decide +kernel, ?_⟩
  exact (corrections_respected_iff twoAccounts_agree (Pool.courseUnder_recorded ..)).mpr
    fun e done => .of_check (inTime e done)

end Example

end Finverse.Analytics
