import Finverse.Categorization.RuleApply

/-! The stores of rule applications, in memory and in Postgres. -/

namespace Finverse.Categorization

open Ledger (Transaction TransactionRow toTransaction chunk)
open Sql

/-- The categories of transactions. -/
def categoryColumn : Column Transaction String CategoryPatch where
  key := Transaction.id
  get := fun t => ⟨t.categorySlug, t.categorySource, t.categoryConfidence⟩
  put := CategoryPatch.apply
  key_put := fun _ _ => rfl
  get_put := fun _ _ => rfl
  put_get := fun _ => rfl
  put_put := fun _ _ _ => rfl

/-- The category of a stored transaction. -/
def categoryOf (rows : List Transaction) (id : String) : Option CategoryPatch :=
  categoryColumn.valueAt rows id

def RuleApplication.reverted (now : String) (application : RuleApplication) : RuleApplication :=
  { application with revertedAt := some now }

@[simp] theorem RuleApplication.reverted_id (now : String) (application : RuleApplication) :
    (application.reverted now).id = application.id := rfl

/-! ### In memory -/

/-- One user's transactions and rule applications. -/
structure InMemoryRuleApplications where
  transactions : List Transaction
  byUser : List RuleApplication
  changesByApplication : List (String × List RuleApplicationChange)

namespace InMemoryRuleApplicationStore

variable (st : InMemoryRuleApplications)

def apply (application : RuleApplication) (changes : List RuleApplicationChange) :
    RuleApplication × InMemoryRuleApplications :=
  (application,
    { transactions := changes.foldl (fun rows change =>
        TransactionStore.update rows change.transactionId application.patch) st.transactions
      byUser := st.byUser ++ [application]
      changesByApplication := Table.upsert Prod.fst (fun _ new => new) (application.id, changes)
        st.changesByApplication })

/-- The loop of `revert`. A row that is gone is not counted. -/
def restore : List RuleApplicationChange → List Transaction → Nat × List Transaction
  | [], rows => (0, rows)
  | change :: changes, rows =>
    let (restored, rows') := restore changes
      (TransactionStore.update rows change.transactionId change.previous)
    if (TransactionStore.get rows change.transactionId).isSome then (restored + 1, rows')
    else (restored, rows')

/-- What was recorded of an application. -/
def changesOf (id : String) : List RuleApplicationChange :=
  ((Table.lookup Prod.fst id st.changesByApplication).map Prod.snd).getD []

def revert (id now : String) : Option Nat × InMemoryRuleApplications :=
  match Table.lookup RuleApplication.id id st.byUser with
  | none => (none, st)
  | some application =>
    if application.revertedAt ≠ none then (none, st)
    else
      let (restored, transactions) := restore (changesOf st id) st.transactions
      (some restored,
        { st with
          transactions
          byUser := Table.modify RuleApplication.id id (RuleApplication.reverted now) st.byUser })

end InMemoryRuleApplicationStore

def inMemory : Adapter InMemoryRuleApplications where
  transactions := fun st => st.transactions
  update := fun id patch st =>
    { st with transactions := Table.modify Transaction.id id patch.apply st.transactions }
  upsertMany := fun txns st =>
    { st with transactions := (Ledger.InMemoryTransactionStore.upsertMany st.transactions txns).2 }
  removeByProviderIds := fun ids st =>
    { st with
      transactions := (Ledger.InMemoryTransactionStore.removeByProviderIds st.transactions ids).2 }
  apply := fun application changes st =>
    let (saved, st) := InMemoryRuleApplicationStore.apply st application changes
    (.ok saved, st)
  revert := fun id now st => InMemoryRuleApplicationStore.revert st id now

/-! ### Postgres -/

structure RuleApplicationRow where
  userId : Nat
  application : RuleApplication
  deriving DecidableEq, Repr

def RuleApplicationRow.primary (row : RuleApplicationRow) : Nat × String :=
  (row.userId, row.application.id)

structure RuleApplicationChangeRow where
  userId : Nat
  applicationId : String
  change : RuleApplicationChange
  deriving DecidableEq, Repr

def RuleApplicationChangeRow.primary (row : RuleApplicationChangeRow) : Nat × String × String :=
  (row.userId, row.applicationId, row.change.transactionId)

structure RuleDatabase where
  ledger : Ledger.Database
  ruleApplications : Table.Keyed RuleApplicationRow.primary
  ruleApplicationChanges : Table.Keyed RuleApplicationChangeRow.primary

/-- The columns of an UPDATE. -/
def TransactionPatch.set : TransactionPatch → TransactionRow → TransactionRow
  | .category patch, row =>
    { row with
      categorySlug := patch.categorySlug
      categorySource := patch.categorySource
      categoryConfidence := patch.categoryConfidence }
  | .recurring isRecurring, row => { row with isRecurring }

@[simp] theorem TransactionPatch.set_arbiter (patch : TransactionPatch) (row : TransactionRow) :
    (patch.set row).arbiter = row.arbiter := by
  cases patch <;> rfl

/-- `UPDATE transactions`: the rows that have a patch take it. -/
def updateRows (patchOf : TransactionRow → Option TransactionPatch) (db : Ledger.Database) :
    Ledger.Database :=
  { db with
    transactions := db.transactions.map (fun row => (patchOf row).elim row (·.set row)) fun row => by
      cases patchOf row <;> simp }

/-- `DELETE FROM transactions`, with the changes recorded of the rows. -/
def deleteRows (p : TransactionRow → Bool) (db : RuleDatabase) : RuleDatabase where
  ledger := { db.ledger with transactions := db.ledger.transactions.filter fun row => !p row }
  ruleApplications := db.ruleApplications
  ruleApplicationChanges := db.ruleApplicationChanges.filter fun recorded =>
    !db.ledger.transactions.rows.any fun row => p row &&
      decide (row.primary = (recorded.userId, recorded.change.transactionId))

namespace PostgresRuleApplicationStore

def applicationsTarget :
    Target RuleApplicationRow RuleApplicationRow (Nat × String) (Nat × String) where
  accept := .ok
  arbiter := RuleApplicationRow.primary
  primary := RuleApplicationRow.primary
  primaryName := "rule_applications_pkey"
  references := fun _ => true
  foreignName := "rule_applications_user_id_fkey"

def changesTarget (db : RuleDatabase) : Target RuleApplicationChangeRow RuleApplicationChangeRow
    (Nat × String × String) (Nat × String × String) where
  accept := .ok
  arbiter := RuleApplicationChangeRow.primary
  primary := RuleApplicationChangeRow.primary
  primaryName := "rule_application_changes_pkey"
  references := fun row =>
    (row.userId, row.applicationId) ∈ db.ruleApplications.rows.map RuleApplicationRow.primary ∧
      (row.userId, row.change.transactionId) ∈
        db.ledger.transactions.rows.map TransactionRow.primary
  foreignName := "rule_application_changes_transaction_fk"

variable (userId : Nat)

/-- What the application writes to a row. -/
def applied (application : RuleApplication) (changes : List RuleApplicationChange)
    (row : TransactionRow) : Option TransactionPatch :=
  if row.userId = userId ∧ row.id ∈ changes.map RuleApplicationChange.transactionId then
    some (.category application.patch)
  else none

/-- One slice of the changes: the before-state is recorded, then the rows are changed. -/
def applySlice (application : RuleApplication) (db : RuleDatabase)
    (changes : List RuleApplicationChange) : Except Violation RuleDatabase := do
  let (recorded, _) ← insert (changesTarget db) .abort
    (changes.map fun change => ⟨userId, application.id, change⟩) db.ruleApplicationChanges
  .ok { db with
    ruleApplicationChanges := recorded
    ledger := updateRows (applied userId application changes) db.ledger }

def apply (application : RuleApplication) (changes : List RuleApplicationChange) :
    RuleDatabase → Except Violation RuleApplication × RuleDatabase :=
  withTransaction fun db => do
    let saved := { application with revertedAt := none }
    let (applications, _) ← insert applicationsTarget .abort [⟨userId, saved⟩] db.ruleApplications
    let db ← (chunk changes 500).foldlM (applySlice userId application)
      { db with ruleApplications := applications }
    .ok (saved, db)

/-- What is recorded of an application of the user. -/
def changesOf (id : String) (db : RuleDatabase) : List RuleApplicationChange :=
  (db.ruleApplicationChanges.rows.filter fun row =>
    decide (row.userId = userId ∧ row.applicationId = id)).map RuleApplicationChangeRow.change

/-- The application is marked first, on condition that it is not marked yet. -/
def mark (id now : String) (row : RuleApplicationRow) : RuleApplicationRow :=
  if row.userId = userId ∧ row.application.id = id ∧ row.application.revertedAt = none then
    { row with application := row.application.reverted now }
  else row

theorem mark_primary (id now : String) (row : RuleApplicationRow) :
    (mark userId id now row).primary = row.primary := by
  rw [mark]
  split <;> rfl

/-- The application is stored and not undone. -/
def isOpen (id : String) (db : RuleDatabase) : Bool :=
  db.ruleApplications.rows.any fun row =>
    decide (row.userId = userId ∧ row.application.id = id ∧ row.application.revertedAt = none)

/-- What the undo writes to a row. -/
def restored (id : String) (db : RuleDatabase) (row : TransactionRow) : Option TransactionPatch :=
  if row.userId = userId then
    (Table.lookup RuleApplicationChange.transactionId row.id (changesOf userId id db)).map
      fun change => .category change.previous
  else none

def revert (id now : String) (db : RuleDatabase) : Option Nat × RuleDatabase :=
  if isOpen userId id db then
    (some (db.ledger.transactions.rows.countP fun row => (restored userId id db row).isSome),
      { db with
        ruleApplications := db.ruleApplications.map (mark userId id now) (mark_primary userId id now)
        ledger := updateRows (restored userId id db) db.ledger })
  else (none, db)

end PostgresRuleApplicationStore

def postgres (userId : Nat) : Adapter RuleDatabase where
  transactions := fun db => db.ledger.ledger userId
  update := fun id patch db =>
    { db with
      ledger := updateRows (fun row =>
        if row.userId = userId ∧ row.id = id then some patch else none) db.ledger }
  upsertMany := fun txns db =>
    { db with ledger := (Ledger.PostgresTransactionStore.upsertMany userId txns db.ledger).2 }
  removeByProviderIds := fun ids =>
    deleteRows fun row => decide (row.userId = userId ∧ row.providerTxnId ∈ ids)
  apply := PostgresRuleApplicationStore.apply userId
  revert := PostgresRuleApplicationStore.revert userId

/-! ### What the stores write -/

section Writes

variable {rows : List Transaction} {changes : List RuleApplicationChange} {id : String}

/-- The value each recorded row is given. -/
def assignment (changes : List RuleApplicationChange) (value : RuleApplicationChange → CategoryPatch)
    (id : String) : Option CategoryPatch :=
  (Table.lookup RuleApplicationChange.transactionId id changes).map value

theorem restore_rows (ids : (rows.map Transaction.id).Nodup)
    (distinct : (changes.map RuleApplicationChange.transactionId).Nodup) :
    (InMemoryRuleApplicationStore.restore changes rows).2 =
      categoryColumn.assign (assignment changes RuleApplicationChange.previous) rows := by
  have steps : (InMemoryRuleApplicationStore.restore changes rows).2 =
      changes.foldl (fun rows change =>
        TransactionStore.update rows change.transactionId change.previous) rows := by
    clear ids distinct
    induction changes generalizing rows with
    | nil => rfl
    | cons change changes ih =>
      rw [List.foldl_cons, ← ih, InMemoryRuleApplicationStore.restore]
      obtain ⟨restored, rows'⟩ := InMemoryRuleApplicationStore.restore changes
        (TransactionStore.update rows change.transactionId change.previous)
      dsimp only
      split <;> rfl
  rw [steps]
  exact Column.foldl_modify (c := categoryColumn) RuleApplicationChange.transactionId
    RuleApplicationChange.previous ids distinct

theorem apply_rows {st : InMemoryRuleApplications} (application : RuleApplication)
    (ids : (st.transactions.map Transaction.id).Nodup)
    (distinct : (changes.map RuleApplicationChange.transactionId).Nodup) :
    (InMemoryRuleApplicationStore.apply st application changes).2.transactions =
      categoryColumn.assign (assignment changes fun _ => application.patch) st.transactions :=
  Column.foldl_modify (c := categoryColumn) RuleApplicationChange.transactionId
    (fun _ => application.patch) ids distinct

variable {db : Ledger.Database} {userId : Nat} {patchOf : TransactionRow → Option TransactionPatch}

theorem owner_of_mem {row : TransactionRow} (mine : row ∈ db.rowsOf userId) :
    row.userId = userId := by
  simpa using (List.mem_filter.mp mine).2

theorem rowsOf_updateRows : (updateRows patchOf db).rowsOf userId =
    (db.rowsOf userId).map fun row => (patchOf row).elim row (·.set row) := by
  have owner (row : TransactionRow) :
      ((patchOf row).elim row (·.set row)).userId = row.userId := by
    cases h : patchOf row with
    | none => rfl
    | some patch => exact congrArg Prod.fst (patch.set_arbiter row)
  simp only [updateRows, Ledger.Database.rowsOf, Table.Keyed.map, List.filter_map]
  congr 1
  refine List.filter_congr fun row _ => ?_
  simp [owner]

theorem primaries_updateRows : (updateRows patchOf db).transactions.rows.map TransactionRow.primary =
    db.transactions.rows.map TransactionRow.primary := by
  simp only [updateRows, Table.Keyed.map, List.map_map]
  refine List.map_congr_left fun row _ => ?_
  rw [Function.comp_apply]
  cases patchOf row with
  | none => rfl
  | some patch => cases patch <;> rfl

/-- An update of categories, as the ledger shows it. -/
theorem ledger_updateRows {f : String → Option CategoryPatch}
    (patches : ∀ row ∈ db.rowsOf userId, patchOf row = (f row.id).map .category) :
    (updateRows patchOf db).ledger userId = categoryColumn.assign f (db.ledger userId) := by
  rw [Ledger.Database.ledger, rowsOf_updateRows, Ledger.Database.ledger, Column.assign,
    List.map_map, List.map_map]
  refine List.map_congr_left fun row mine => ?_
  simp only [Function.comp_apply, patches row mine]
  change _ = (f row.id).elim (toTransaction row) fun patch => patch.apply (toTransaction row)
  cases f row.id <;> rfl

theorem assignment_const (changes : List RuleApplicationChange) (patch : CategoryPatch)
    (id : String) : assignment changes (fun _ => patch) id =
      if id ∈ changes.map RuleApplicationChange.transactionId then some patch else none := by
  by_cases listed : id ∈ changes.map RuleApplicationChange.transactionId
  · rw [if_pos listed, assignment]
    cases found : Table.lookup RuleApplicationChange.transactionId id changes with
    | none => exact absurd listed (Table.lookup_eq_none.mp found)
    | some change => rfl
  · rw [if_neg listed, assignment, Table.lookup_eq_none.mpr listed, Option.map_none]

/-- The same value given in two goes. -/
theorem assign_const_const (first later : List RuleApplicationChange) (patch : CategoryPatch) :
    categoryColumn.assign (assignment later fun _ => patch)
        (categoryColumn.assign (assignment first fun _ => patch) rows) =
      categoryColumn.assign (assignment (first ++ later) fun _ => patch) rows := by
  rw [Column.assign_assign]
  congr 1
  funext id
  simp only [assignment_const, List.map_append, List.mem_append]
  by_cases now : id ∈ later.map RuleApplicationChange.transactionId
  · simp only [now, if_true, or_true, Option.some_or]
  · simp only [now, if_false, or_false, Option.none_or]

namespace PostgresRuleApplicationStore

variable {application : RuleApplication} {db : RuleDatabase}

theorem ledger_applied (application : RuleApplication) (changes : List RuleApplicationChange)
    (db : Ledger.Database) :
    (updateRows (applied userId application changes) db).ledger userId =
      categoryColumn.assign (assignment changes fun _ => application.patch) (db.ledger userId) := by
  refine ledger_updateRows fun row mine => ?_
  rw [assignment_const, applied]
  by_cases listed : row.id ∈ changes.map RuleApplicationChange.transactionId
  · rw [if_pos ⟨owner_of_mem mine, listed⟩, if_pos listed, Option.map_some]
  · rw [if_neg fun both => listed both.2, if_neg listed, Option.map_none]

theorem applySlice_stored
    (known : (userId, application.id) ∈ db.ruleApplications.rows.map RuleApplicationRow.primary)
    (absent : ∀ change ∈ changes, (userId, application.id, change.transactionId) ∉
      db.ruleApplicationChanges.rows.map RuleApplicationChangeRow.primary)
    (distinct : (changes.map RuleApplicationChange.transactionId).Nodup)
    (stored : ∀ change ∈ changes, (userId, change.transactionId) ∈
      db.ledger.transactions.rows.map TransactionRow.primary) :
    ∃ db', applySlice userId application db changes = .ok db' ∧
      db'.ruleApplications = db.ruleApplications ∧
      db'.ruleApplicationChanges.rows = db.ruleApplicationChanges.rows ++
        changes.map (fun change => ⟨userId, application.id, change⟩) ∧
      db'.ledger = updateRows (applied userId application changes) db.ledger := by
  have taken : ∀ tuples : List RuleApplicationChangeRow, List.Forall₂
      (fun tuple new => (changesTarget db).accept tuple = .ok new) tuples tuples :=
    fun tuples => List.forall₂_same.mpr fun _ _ => rfl
  have keys : ((changes.map fun change => (⟨userId, application.id, change⟩ :
      RuleApplicationChangeRow)).map RuleApplicationChangeRow.primary).Nodup := by
    refine List.Nodup.of_map (fun key => key.2.2) ?_
    simpa [List.map_map, Function.comp_def, RuleApplicationChangeRow.primary] using distinct
  have fresh : ∀ new ∈ changes.map fun change => (⟨userId, application.id, change⟩ :
      RuleApplicationChangeRow),
      new.primary ∉ db.ruleApplicationChanges.rows.map RuleApplicationChangeRow.primary := by
    intro new listed
    obtain ⟨change, here, rfl⟩ := List.mem_map.mp listed
    exact absent change here
  have refers : ∀ new ∈ changes.map fun change => (⟨userId, application.id, change⟩ :
      RuleApplicationChangeRow), (changesTarget db).references new = true := by
    intro new listed
    obtain ⟨change, here, rfl⟩ := List.mem_map.mp listed
    exact decide_eq_true ⟨known, stored change here⟩
  have inserted : ∃ recorded outcomes, insert (changesTarget db) .abort
      (changes.map fun change => ⟨userId, application.id, change⟩) db.ruleApplicationChanges =
        .ok (recorded, outcomes) ∧ recorded.rows = db.ruleApplicationChanges.rows ++
          changes.map (fun change => ⟨userId, application.id, change⟩) :=
    insert_absent (taken _) keys keys fresh fresh refers
  obtain ⟨recorded, outcomes, inserted, rows⟩ := inserted
  refine ⟨{ db with
    ruleApplicationChanges := recorded
    ledger := updateRows (applied userId application changes) db.ledger }, ?_, rfl, rows, rfl⟩
  rw [applySlice, inserted]
  rfl

theorem applySlices_stored {slices : List (List RuleApplicationChange)}
    (known : (userId, application.id) ∈ db.ruleApplications.rows.map RuleApplicationRow.primary)
    (absent : ∀ change ∈ slices.flatten, (userId, application.id, change.transactionId) ∉
      db.ruleApplicationChanges.rows.map RuleApplicationChangeRow.primary)
    (distinct : (slices.flatten.map RuleApplicationChange.transactionId).Nodup)
    (stored : ∀ change ∈ slices.flatten, (userId, change.transactionId) ∈
      db.ledger.transactions.rows.map TransactionRow.primary) :
    ∃ db', slices.foldlM (applySlice userId application) db = .ok db' ∧
      db'.ruleApplications = db.ruleApplications ∧
      db'.ruleApplicationChanges.rows = db.ruleApplicationChanges.rows ++
        slices.flatten.map (fun change => ⟨userId, application.id, change⟩) ∧
      db'.ledger.ledger userId = categoryColumn.assign
        (assignment slices.flatten fun _ => application.patch) (db.ledger.ledger userId) := by
  induction slices generalizing db with
  | nil => exact ⟨db, rfl, rfl, by simp, (Column.assign_none fun _ _ => rfl).symm⟩
  | cons slice slices ih =>
    simp only [List.flatten_cons, List.forall_mem_append, List.map_append, List.nodup_append]
      at absent distinct stored
    obtain ⟨next, step, applications, recorded, ledger⟩ :=
      applySlice_stored known absent.1 distinct.1 stored.1
    have later : ∀ change ∈ slices.flatten, (userId, application.id, change.transactionId) ∉
        next.ruleApplicationChanges.rows.map RuleApplicationChangeRow.primary := by
      intro change here listed
      rw [recorded, List.map_append, List.mem_append] at listed
      refine listed.elim (absent.2 change here) fun again => ?_
      obtain ⟨row, written, same⟩ := List.mem_map.mp again
      obtain ⟨earlier, first, rfl⟩ := List.mem_map.mp written
      exact distinct.2.2 _ (List.mem_map_of_mem first) _ (List.mem_map_of_mem here)
        (congrArg (fun key => key.2.2) same)
    rw [← applications] at known
    rw [← primaries_updateRows, ← ledger] at stored
    obtain ⟨db', done, applications', recorded', ledger'⟩ := ih known later distinct.2.1 stored.2
    refine ⟨db', ?_, applications'.trans applications, ?_, ?_⟩
    · rw [List.foldlM_cons, step]
      exact done
    · rw [recorded', recorded, List.flatten_cons, List.map_append, List.append_assoc]
    · rw [ledger', ledger, ledger_applied, assign_const_const, List.flatten_cons]

theorem mem_primaries {db : Ledger.Database} {id : String} :
    (userId, id) ∈ db.transactions.rows.map TransactionRow.primary ↔
      id ∈ (db.ledger userId).map Transaction.id := by
  constructor
  · intro listed
    obtain ⟨row, here, same⟩ := List.mem_map.mp listed
    obtain ⟨owner, rfl⟩ := Prod.mk.inj same
    have mine : row ∈ db.rowsOf userId := List.mem_filter.mpr ⟨here, by simpa using owner⟩
    exact List.mem_map.mpr ⟨toTransaction row, List.mem_map_of_mem mine, rfl⟩
  · intro listed
    obtain ⟨t, shown, rfl⟩ := List.mem_map.mp listed
    obtain ⟨row, mine, rfl⟩ := List.mem_map.mp shown
    refine List.mem_map.mpr ⟨row, (List.mem_filter.mp mine).1, ?_⟩
    exact Prod.ext (owner_of_mem mine) rfl

/-- A new application of stored rows is recorded, and its rows are changed. -/
theorem apply_stored (unmarked : application.revertedAt = none)
    (fresh : ∀ row ∈ db.ruleApplications.rows, row.userId = userId →
      row.application.id ≠ application.id)
    (unrecorded : ∀ row ∈ db.ruleApplicationChanges.rows, row.userId = userId →
      row.applicationId ≠ application.id)
    (distinct : (changes.map RuleApplicationChange.transactionId).Nodup)
    (stored : ∀ change ∈ changes,
      change.transactionId ∈ (db.ledger.ledger userId).map Transaction.id) :
    ∃ db', apply userId application changes db = (.ok application, db') ∧
      db'.ruleApplications.rows = db.ruleApplications.rows ++ [⟨userId, application⟩] ∧
      db'.ruleApplicationChanges.rows = db.ruleApplicationChanges.rows ++
        changes.map (fun change => ⟨userId, application.id, change⟩) ∧
      db'.ledger.ledger userId = categoryColumn.assign
        (assignment changes fun _ => application.patch) (db.ledger.ledger userId) := by
  have saved : ({ application with revertedAt := none } : RuleApplication) = application := by
    rw [← unmarked]
  have absent : ∀ new ∈ [(⟨userId, application⟩ : RuleApplicationRow)],
      new.primary ∉ db.ruleApplications.rows.map RuleApplicationRow.primary := by
    simp only [List.mem_singleton, forall_eq]
    intro listed
    obtain ⟨row, here, same⟩ := List.mem_map.mp listed
    obtain ⟨owner, id⟩ := Prod.mk.inj same
    exact fresh row here owner id
  have inserted : ∃ applications outcomes, insert applicationsTarget .abort
      [⟨userId, application⟩] db.ruleApplications = .ok (applications, outcomes) ∧
        applications.rows = db.ruleApplications.rows ++ [⟨userId, application⟩] :=
    insert_absent (.cons rfl .nil) (List.nodup_singleton _) (List.nodup_singleton _) absent absent
      fun _ _ => rfl
  obtain ⟨applications, outcomes, inserted, rows⟩ := inserted
  let marked : RuleDatabase := { db with ruleApplications := applications }
  have known : (userId, application.id) ∈
      marked.ruleApplications.rows.map RuleApplicationRow.primary := by
    rw [rows, List.map_append, List.mem_append]
    exact .inr (List.mem_singleton_self _)
  have slices : (chunk changes 500).flatten = changes := Ledger.flatten_chunk (by decide) changes
  have new : ∀ change ∈ (chunk changes 500).flatten,
      (userId, application.id, change.transactionId) ∉
        db.ruleApplicationChanges.rows.map RuleApplicationChangeRow.primary := by
    intro change _ listed
    obtain ⟨row, here, same⟩ := List.mem_map.mp listed
    obtain ⟨owner, rest⟩ := Prod.mk.inj same
    exact unrecorded row here owner (congrArg Prod.fst rest)
  rw [← slices] at distinct stored
  obtain ⟨db', done, applications', recorded, ledger⟩ :=
    applySlices_stored known new distinct fun change here => mem_primaries.mpr (stored change here)
  rw [slices] at recorded ledger
  refine ⟨db', withTransaction_ok ?_, by rw [applications', rows], recorded, ledger⟩
  dsimp only
  rw [saved, inserted]
  change ((chunk changes 500).foldlM (applySlice userId application) marked >>= _) = _
  rw [done]
  rfl

/-- The undo restores what is recorded. -/
theorem ledger_restored (id : String) (db : RuleDatabase) :
    (updateRows (restored userId id db) db.ledger).ledger userId =
      categoryColumn.assign
        (assignment (changesOf userId id db) RuleApplicationChange.previous)
        (db.ledger.ledger userId) := by
  refine ledger_updateRows fun row mine => ?_
  rw [restored, if_pos (owner_of_mem mine), assignment, Option.map_map]
  rfl

end PostgresRuleApplicationStore

end Writes

end Finverse.Categorization
