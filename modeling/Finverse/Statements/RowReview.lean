import Finverse.Statements.SplitMerge
import Mathlib.Data.List.Dedup

/-! Rows under review: what edits, decisions, splits and merges keep of them. -/

namespace Finverse.Statements

open Interleave Ledger

/-! ### Rows in order -/

section Rows

variable (P : Primitives)

/-- The amount is not zero and the direction is its sign, and the fingerprint is that of the row. -/
structure Consistent (row : StatementRowRecord) : Prop where
  signed : ∀ amount, row.amount = some amount →
    amount ≠ 0 ∧ (row.direction = .debit ↔ amount < 0)
  fingerprinted : row.fingerprint = fingerprint P row

/-- The rows sum to an amount of the same sign as the first of them. -/
def Mergeable (rows : List StatementRowRecord) : Prop :=
  let total := (rows.map amountOf).sum
  total ≠ 0 ∧ ∀ first ∈ rows.head?, amountOf first < 0 ↔ total < 0

variable {P} {row current : StatementRowRecord} {now : Instant}

theorem directionOf_eq_debit {amount : Int} : directionOf amount = .debit ↔ amount < 0 := by
  rw [directionOf]
  split
  · simp [*]
  · simp [*]

theorem consistent_superseded {flag : String} :
    Consistent P (StoredStatement.superseded flag now row) ↔ Consistent P row :=
  ⟨fun h => ⟨h.signed, h.fingerprinted⟩, fun h => ⟨h.signed, h.fingerprinted⟩⟩

theorem consistent_decided {decision : StatementRowDecision} :
    Consistent P { row with decision, editedAt := some now } ↔ Consistent P row :=
  ⟨fun h => ⟨h.signed, h.fingerprinted⟩, fun h => ⟨h.signed, h.fingerprinted⟩⟩

theorem consistent_splitPart {index : Nat} {part : SplitPart} {amount : Int} (counts : amount ≠ 0) :
    Consistent P (splitPart P current now index part amount) where
  signed := by
    rintro _ ⟨⟩
    exact ⟨counts, directionOf_eq_debit⟩
  fingerprinted := rfl

theorem splitParts_consistent {index : Nat} {parts : List (Option SplitPart)}
    {new : List StatementRowRecord} (ok : splitParts P current now index parts = .ok new) :
    ∀ row ∈ new, Consistent P row := by
  induction parts generalizing index new with
  | nil =>
    obtain rfl := Except.ok.inj ok
    simp
  | cons part parts ih =>
    obtain ⟨part, -, ok⟩ := bind_ok ok
    obtain ⟨amount, given, ok⟩ := bind_ok ok
    obtain ⟨rows, rest, ok⟩ := bind_ok ok
    obtain rfl := Except.ok.inj ok
    have counts : amount ≠ 0 := by
      have passed := (Option.filter_eq_some_iff.mp (orThrow_ok given)).2
      simpa using passed
    intro row stored
    rcases List.mem_cons.mp stored with rfl | later
    · exact consistent_splitPart counts
    · exact ih rest row later

theorem consistent_mergedRow {first : StatementRowRecord} {wanted : List StatementRowRecord}
    {draw : Draw} (consistent : Consistent P first) (worth : first.amount ≠ none) :
    Consistent P (mergedRow P first (first :: wanted) draw) ↔ Mergeable (first :: wanted) := by
  obtain ⟨amount, known⟩ := Option.ne_none_iff_exists'.mp worth
  obtain ⟨-, sign⟩ := consistent.signed amount known
  have value : amountOf first = amount := by simp [amountOf, known]
  have mergeable : Mergeable (first :: wanted) ↔
      ((first :: wanted).map amountOf).sum ≠ 0 ∧
        (amount < 0 ↔ ((first :: wanted).map amountOf).sum < 0) := by
    simp [Mergeable, value]
  rw [mergeable, ← sign]
  constructor
  · intro merged
    exact merged.signed _ rfl
  · intro signed
    refine ⟨?_, rfl⟩
    rintro _ ⟨⟩
    exact signed

/-! ### Edits -/

/-- An amount is set together with its direction. -/
def RowPatch.Signed (patch : RowPatch) : Prop :=
  (∀ amount, patch.amount = some amount →
    amount ≠ 0 ∧ patch.direction = some (directionOf amount)) ∧
  (patch.amount = none → patch.direction = none)

theorem RowPatch.Signed.of_same {patch patch' : RowPatch} (signed : patch.Signed)
    (amount : patch'.amount = patch.amount) (direction : patch'.direction = patch.direction) :
    patch'.Signed := by
  rw [RowPatch.Signed, amount, direction]
  exact signed

/-- What a field of a request sets leaves the patch signed. -/
def KeepsSigned (set : Scalar → RowPatch → Option RowPatch) : Prop :=
  ∀ value patch patch', set value patch = some patch' → patch.Signed → patch'.Signed

theorem editedPostedAt_signed : KeepsSigned (editedPostedAt P) := by
  intro value patch patch' edited signed
  obtain ⟨date, -, rfl⟩ := Option.map_eq_some_iff.mp edited
  exact signed.of_same rfl rfl

theorem editedDescription_signed : KeepsSigned (editedDescription current) := by
  intro value patch patch' edited signed
  obtain ⟨description, -, rfl⟩ := Option.map_eq_some_iff.mp edited
  exact signed.of_same rfl rfl

theorem editedMerchant_signed : KeepsSigned editedMerchant := by
  intro value patch patch' edited signed
  unfold editedMerchant at edited
  split at edited
  · obtain rfl := Option.some.inj edited
    exact signed.of_same rfl rfl
  · obtain ⟨-, edited⟩ := Option.ite_none_right_eq_some.mp edited
    obtain rfl := Option.some.inj edited
    exact signed.of_same rfl rfl
  · cases edited

theorem editedAmount_signed : KeepsSigned editedAmount := by
  intro value patch patch' edited signed
  obtain ⟨amount, valid, rfl⟩ := Option.map_eq_some_iff.mp edited
  have counts : amount ≠ 0 := by simpa using (Option.filter_eq_some_iff.mp valid).2
  refine ⟨?_, by simp⟩
  rintro _ ⟨⟩
  exact ⟨counts, rfl⟩

theorem editedCurrency_signed : KeepsSigned editedCurrency := by
  intro value patch patch' edited signed
  obtain ⟨currency, -, rfl⟩ := Option.map_eq_some_iff.mp edited
  exact signed.of_same rfl rfl

theorem editedCategory_signed : KeepsSigned (editedCategory P) := by
  intro value patch patch' edited signed
  obtain ⟨slug, -, rfl⟩ := Option.map_eq_some_iff.mp edited
  exact signed.of_same rfl rfl

theorem editedRecurring_signed : KeepsSigned editedRecurring := by
  intro value patch patch' edited signed
  unfold editedRecurring at edited
  split at edited
  · obtain rfl := Option.some.inj edited
    exact signed.of_same rfl rfl
  · cases edited

theorem editedDecision_signed : KeepsSigned editedDecision := by
  intro value patch patch' edited signed
  obtain ⟨decision, -, rfl⟩ := Option.map_eq_some_iff.mp edited
  exact signed.of_same rfl rfl

theorem editField_signed {value : Option Scalar} {message : String}
    {set : Scalar → RowPatch → Option RowPatch} {patch patch' : RowPatch}
    (keeps : KeepsSigned set) (signed : patch.Signed)
    (ok : editField value message set patch = .ok patch') : patch'.Signed := by
  cases value with
  | none =>
    obtain rfl := Except.ok.inj ok
    exact signed
  | some value => exact keeps value patch patch' (orThrow_ok ok) signed

/-- What an edit sets: an amount only with its direction, and a fingerprint of all it leaves. -/
theorem editPatch_signed {input : EditStatementRowInput} {patch : RowPatch}
    (ok : editPatch P current input = .ok patch) :
    ∃ edited : RowPatch, edited.Signed ∧
      patch = { edited with fingerprint := some (fingerprint P (edited.apply current)) } := by
  obtain ⟨_, dated, ok⟩ := bind_ok ok
  obtain ⟨_, described, ok⟩ := bind_ok ok
  obtain ⟨_, named, ok⟩ := bind_ok ok
  obtain ⟨_, priced, ok⟩ := bind_ok ok
  obtain ⟨_, converted, ok⟩ := bind_ok ok
  obtain ⟨_, categorized, ok⟩ := bind_ok ok
  obtain ⟨_, repeated, ok⟩ := bind_ok ok
  obtain ⟨edited, decided, ok⟩ := bind_ok ok
  have empty : RowPatch.Signed {} := ⟨by simp, by simp⟩
  have signed := editField_signed editedPostedAt_signed empty dated
  replace signed := editField_signed editedDescription_signed signed described
  replace signed := editField_signed editedMerchant_signed signed named
  replace signed := editField_signed editedAmount_signed signed priced
  replace signed := editField_signed editedCurrency_signed signed converted
  replace signed := editField_signed editedCategory_signed signed categorized
  replace signed := editField_signed editedRecurring_signed signed repeated
  replace signed := editField_signed editedDecision_signed signed decided
  exact ⟨edited, signed, (Except.ok.inj ok).symm⟩

theorem consistent_edited {input : EditStatementRowInput} {patch : RowPatch} {importId : String}
    (consistent : Consistent P current) (ok : editPatch P current input = .ok patch) :
    Consistent P { patch.apply current with importId, editedAt := some now } := by
  obtain ⟨edited, ⟨set, unset⟩, rfl⟩ := editPatch_signed ok
  refine ⟨?_, rfl⟩
  intro amount known
  cases given : edited.amount with
  | none =>
    have kept : current.amount = some amount := by simpa [RowPatch.apply, given] using known
    simpa [RowPatch.apply, unset given] using consistent.signed amount kept
  | some value =>
    obtain rfl : value = amount := by simpa [RowPatch.apply, given] using known
    obtain ⟨counts, direction⟩ := set value given
    simpa [RowPatch.apply, direction, directionOf_eq_debit] using counts

end Rows

/-! ### What is written -/

section Written

variable {P : Primitives} {A : Adapter} {w w' : Imports} {userId importId : String} {draw : Draw}
  {e : HttpError}

theorem Imports.Unchanged.rowsOf (same : w.Unchanged w') :
    w'.rowsOf userId importId = w.rowsOf userId importId := by
  rw [Imports.rowsOf, same.find, Imports.rowsOf]

/-- The ids of the rows of a statement differ where the table holds every id once. -/
def Adapter.Keyed (A : Adapter) (rows : List StatementRowRecord) : Prop :=
  A = .postgres → (rowIds rows).Nodup

theorem Adapter.Keyed.append {s : StoredStatement} {rows new : List StatementRowRecord}
    (found : w.statements.find userId importId = some s) (same : rowIds rows = rowIds s.rows)
    (fresh : A.Fresh w userId new) : A.Keyed (rows ++ new) := by
  intro postgres
  have stored : (rowIds s.rows).Sublist
      (rowIds (PostgresStatementImportStore.stagedRows w.statements userId)) := by
    apply List.Sublist.map
    rw [PostgresStatementImportStore.stagedRows, List.flatMap_def]
    exact List.sublist_flatten_of_mem (List.mem_map_of_mem (Table.lookup_mem found))
  have ids : rowIds (rows ++ new) = rowIds s.rows ++ rowIds new := by
    rw [rowIds, List.map_append, ← rowIds, ← rowIds, same]
  rw [ids]
  exact (fresh postgres).sublist (stored.append (List.Sublist.refl _))

/-- The row that is read is the row that is stored. -/
theorem lookup_read {s : StoredStatement} {rowId : String} {current : StatementRowRecord}
    (found : w.statements.find userId importId = some s) (kept : s.status ≠ .deleted)
    (keyed : A.Keyed s.rows)
    (read : Table.lookup StatementRowRecord.id rowId (A.read w userId importId) = some current) :
    Table.lookup StatementRowRecord.id rowId s.rows = some current := by
  cases A with
  | memory =>
    rw [read_memory found kept] at read
    exact read
  | postgres => exact lookup_perm (read_perm found kept) (keyed rfl) read

theorem editRow_ok {rowId : String} {input : EditStatementRowInput} {result : StatementRowRecord}
    (ok : A.run (editRow P userId importId rowId input draw) w = (.ok result, w')) :
    ∃ s current row patch, w.statements.find userId importId = some s ∧ s.status = .ready ∧
      Table.lookup StatementRowRecord.id rowId (A.read w userId importId) = some current ∧
      Table.lookup StatementRowRecord.id rowId s.rows = some row ∧
      editPatch P current input = .ok patch ∧
      result = { patch.apply row with importId := s.id, editedAt := some draw.now } ∧
      w'.rowsOf userId importId =
        Table.modify StatementRowRecord.id rowId (fun _ => result) s.rows := by
  rw [editRow] at ok
  obtain ⟨current, w₁, read, ok⟩ := Adapter.run_bind_ok ok
  obtain ⟨looked, same⟩ := findRow_ok read
  obtain ⟨patch, planned, ok⟩ := Adapter.run_check_ok ok
  obtain ⟨reply, w₂, called, ok⟩ := Adapter.run_call_ok ok
  obtain ⟨rfl, rfl⟩ := Prod.mk.inj called
  obtain ⟨answered, rfl⟩ := Adapter.run_last_ok ok
  obtain ⟨s, t, found, changed, after⟩ := find_revised
    (fun s r t h => by obtain ⟨-, row, -, -, rfl⟩ := StoredStatement.updateRow_some h; rfl)
    (orThrow_ok answered)
  obtain ⟨ready, row, stored, replied, rfl⟩ := StoredStatement.updateRow_some changed
  refine ⟨s, current, row, patch, same.find.symm.trans found, ready, looked, stored, planned,
    replied, ?_⟩
  exact rowsOf_find (w := (A.exec (.updateRow userId importId rowId patch draw.now) w₁).2) after

theorem decideRows_ok {input : Option (List Scalar)} {given : Option Scalar}
    {result : List StatementRowRecord}
    (ok : A.run (decideRows userId importId input given draw) w = (.ok result, w')) :
    ∃ s ids decision, w.statements.find userId importId = some s ∧ s.status = .ready ∧
      rowIdsOf input 1 10000 = some ids ∧ given.bind Scalar.decision = some decision ∧
      w'.rowsOf userId importId = s.rows.map fun row =>
        if row.id ∈ ids then { row with decision, editedAt := some draw.now } else row := by
  rw [decideRows] at ok
  obtain ⟨ids, named, ok⟩ := Adapter.run_check_ok ok
  obtain ⟨-, -, ok⟩ := Adapter.run_check_ok ok
  obtain ⟨decision, decided, ok⟩ := Adapter.run_check_ok ok
  obtain ⟨read, w₁, called, ok⟩ := Adapter.run_call_ok ok
  obtain ⟨rfl, same⟩ := exec_rows A called
  obtain ⟨-, -, ok⟩ := Adapter.run_check_ok ok
  obtain ⟨reply, w₂, called, ok⟩ := Adapter.run_call_ok ok
  obtain ⟨rfl, rfl⟩ := Prod.mk.inj called
  obtain ⟨answered, rfl⟩ := Adapter.run_last_ok ok
  have keeps : ∀ ids s r t,
      StoredStatement.updateRowsDecision s ids decision draw.now = some (r, t) → t.id = s.id := by
    intro ids s r t h
    rw [(StoredStatement.updateRowsDecision_some h).2]
    rfl
  cases A with
  | memory =>
    obtain ⟨s, t, found, changed, after⟩ := find_revised (keeps ids) (orThrow_ok answered)
    obtain ⟨ready, rfl⟩ := StoredStatement.updateRowsDecision_some changed
    refine ⟨s, ids, decision, same.find.symm.trans found, ready, orThrow_ok named,
      orThrow_ok decided, ?_⟩
    exact rowsOf_find
      (w := (Adapter.memory.exec (.updateRowsDecision userId importId ids decision draw.now) w₁).2)
      after
  | postgres =>
    obtain ⟨rows, applied, -⟩ := Option.map_eq_some_iff.mp (orThrow_ok answered)
    obtain ⟨s, t, found, changed, after⟩ := find_revised (keeps ids.dedup) applied
    obtain ⟨ready, rfl⟩ := StoredStatement.updateRowsDecision_some changed
    refine ⟨s, ids, decision, same.find.symm.trans found, ready, orThrow_ok named,
      orThrow_ok decided, ?_⟩
    have rows := rowsOf_find
      (w := (Adapter.postgres.exec (.updateRowsDecision userId importId ids decision draw.now) w₁).2)
      after
    simp only [List.mem_dedup, StoredStatement.withRows_rows] at rows
    exact rows

/-! A call that fails leaves everything as it was. -/

theorem findRow_unchanged {rowId : String} {result : Except HttpError StatementRowRecord}
    (ran : A.run (findRow userId importId rowId) w = (result, w')) : w.Unchanged w' := by
  obtain ⟨-, rfl⟩ := Prod.mk.inj ran
  exact w.unchanged_touch userId

theorem editRow_error {rowId : String} {input : EditStatementRowInput}
    (failed : A.run (editRow P userId importId rowId input draw) w = (.error e, w')) :
    w.Unchanged w' := by
  rw [editRow] at failed
  rcases Adapter.run_bind_error failed with stopped | ⟨current, w₁, read, failed⟩
  · exact findRow_unchanged stopped
  have same := findRow_unchanged read
  rcases Adapter.run_check_error failed with rfl | ⟨patch, -, failed⟩
  · exact same
  obtain ⟨answered, rfl⟩ := Prod.mk.inj failed
  exact same.trans (Imports.unchanged_revise (orThrow_error answered))

theorem decideRows_error {input : Option (List Scalar)} {given : Option Scalar}
    (failed : A.run (decideRows userId importId input given draw) w = (.error e, w')) :
    w.Unchanged w' := by
  rw [decideRows] at failed
  rcases Adapter.run_check_error failed with rfl | ⟨ids, -, failed⟩
  · exact .refl w
  rcases Adapter.run_check_error failed with rfl | ⟨-, -, failed⟩
  · exact .refl w
  rcases Adapter.run_check_error failed with rfl | ⟨decision, -, failed⟩
  · exact .refl w
  have same := w.unchanged_touch userId
  rcases Adapter.run_check_error (x := _) failed with rfl | ⟨-, -, failed⟩
  · exact same
  obtain ⟨answered, rfl⟩ := Prod.mk.inj failed
  have refused := orThrow_error answered
  cases A with
  | memory => exact same.trans (Imports.unchanged_revise refused)
  | postgres => exact same.trans (Imports.unchanged_revise (Option.map_eq_none_iff.mp refused))

/-- A write that was refused is answered with an error. -/
theorem settled_error {α : Type} {reply : StoreReply (Option α)} {missing : HttpError}
    {w : Imports} {e : HttpError}
    (failed : A.run (settled reply >>= fun found => Task.ofExcept (orThrow found missing)) w =
      (.error e, w')) : w = w' ∧ ∀ result, reply ≠ .ok (some result) := by
  rcases reply with thrown | found
  · obtain ⟨-, rfl⟩ := Prod.mk.inj failed
    exact ⟨rfl, by simp⟩
  · obtain ⟨answered, rfl⟩ := Prod.mk.inj failed
    exact ⟨rfl, by simp [orThrow_error answered]⟩

theorem splitRow_error {rowId : String} {parts : Option (List (Option SplitPart))}
    (failed : A.run (splitRow P userId importId rowId parts draw) w = (.error e, w')) :
    w.Unchanged w' := by
  rw [splitRow] at failed
  rcases Adapter.run_bind_error failed with stopped | ⟨current, w₁, read, failed⟩
  · exact findRow_unchanged stopped
  have same := findRow_unchanged read
  rcases Adapter.run_check_error failed with rfl | ⟨new, -, failed⟩
  · exact same
  obtain ⟨rfl, refused⟩ := settled_error failed
  exact same.trans (Imports.unchanged_reviseRows refused)

theorem mergeRows_error {input : Option (List Scalar)}
    (failed : A.run (mergeRows P userId importId input draw) w = (.error e, w')) :
    w.Unchanged w' := by
  rw [mergeRows] at failed
  rcases Adapter.run_check_error failed with rfl | ⟨ids, -, failed⟩
  · exact .refl w
  have same := w.unchanged_touch userId
  rcases Adapter.run_check_error failed with rfl | ⟨merged, -, failed⟩
  · exact same
  obtain ⟨rfl, refused⟩ := settled_error failed
  exact same.trans (Imports.unchanged_reviseRows refused)

end Written

end Finverse.Statements
