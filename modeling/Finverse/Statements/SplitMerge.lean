import Finverse.Statements.Service

/-! What splitting and merging do to the money of a statement and to the ids of its rows. -/

namespace Finverse.Statements

open Interleave Ledger

/-- The money in the rows that are not excluded. -/
def counted (rows : List StatementRowRecord) : Int :=
  ((rows.filter fun row => row.decision ≠ .exclude).map amountOf).sum

def rowIds (rows : List StatementRowRecord) : List String := rows.map StatementRowRecord.id

/-- The money stays as it is, and the ids stay distinct. -/
def Conserves (rows rows' : List StatementRowRecord) : Prop :=
  counted rows' = counted rows ∧ (rowIds rows').Nodup

/-- What a row adds to the money. -/
def contribution (row : StatementRowRecord) : Int :=
  if row.decision ≠ .exclude then amountOf row else 0

theorem counted_eq (rows : List StatementRowRecord) : counted rows = (rows.map contribution).sum := by
  induction rows with
  | nil => rfl
  | cons row rows ih =>
    rw [counted] at ih ⊢
    rw [List.map_cons, List.sum_cons, ← ih, contribution]
    by_cases counts : row.decision ≠ .exclude
    · rw [if_pos counts, List.filter_cons_of_pos (by simpa using counts)]
      rfl
    · rw [if_neg counts, List.filter_cons_of_neg (by simpa using counts), zero_add]

theorem counted_append (rows new : List StatementRowRecord) :
    counted (rows ++ new) = counted rows + counted new := by
  rw [counted_eq, counted_eq, counted_eq, List.map_append, List.sum_append]

/-- Rows that are all included count in full. -/
theorem counted_included {rows : List StatementRowRecord}
    (included : ∀ row ∈ rows, row.decision = .include) :
    counted rows = (rows.map amountOf).sum := by
  rw [counted, List.filter_eq_self.mpr]
  intro row stored
  simp [included row stored]

theorem nodup_append_new {rows new : List StatementRowRecord} (distinct : (rowIds rows).Nodup) :
    (rowIds (rows ++ new)).Nodup ↔
      (rowIds new).Nodup ∧ ∀ row ∈ new, row.id ∉ rowIds rows := by
  rw [rowIds, List.map_append, List.nodup_append]
  constructor
  · rintro ⟨-, fresh, apart⟩
    refine ⟨fresh, fun row stored used => ?_⟩
    exact apart row.id used row.id (List.mem_map_of_mem stored) rfl
  · rintro ⟨fresh, unused⟩
    refine ⟨distinct, fresh, ?_⟩
    rintro id used _ new rfl
    obtain ⟨row, stored, rfl⟩ := List.mem_map.mp new
    exact unused row stored used

/-! ### Splitting -/

variable {P : Primitives}

theorem toString_injective : Function.Injective (toString : Nat → String) := by
  intro m n h
  have digits : Nat.toDigits 10 m = Nat.toDigits 10 n := by
    rw [← Nat.toList_repr, ← Nat.toList_repr]
    exact congrArg String.toList h
  have value := congrArg (fun l => Nat.ofDigitChars 10 l 0) digits
  simpa using value

def partId (id : String) (number : Nat) : String := id ++ "_part_" ++ toString number

theorem partId_injective (id : String) : Function.Injective (partId id) := by
  intro m n h
  apply toString_injective
  exact (String.append_right_inj _).mp h

section Split

variable {current : StatementRowRecord} {now : Instant}

/-- Every part is included and carries a number of its own. -/
theorem splitParts_rows {index : Nat} {parts : List (Option SplitPart)}
    {new : List StatementRowRecord} (ok : splitParts P current now index parts = .ok new) :
    (∀ row ∈ new, row.decision = .include ∧ ∃ k, index < k ∧ row.id = partId current.id k) ∧
      (rowIds new).Nodup := by
  induction parts generalizing index new with
  | nil =>
    obtain rfl := Except.ok.inj ok
    simp [rowIds]
  | cons part parts ih =>
    obtain ⟨part, -, ok⟩ := bind_ok ok
    obtain ⟨amount, -, ok⟩ := bind_ok ok
    obtain ⟨rows, rest, ok⟩ := bind_ok ok
    obtain rfl := Except.ok.inj ok
    obtain ⟨described, distinct⟩ := ih rest
    constructor
    · intro row stored
      rcases List.mem_cons.mp stored with rfl | later
      · exact ⟨rfl, index + 1, by omega, rfl⟩
      · obtain ⟨included, k, above, named⟩ := described row later
        exact ⟨included, k, by omega, named⟩
    · rw [rowIds, List.map_cons, List.nodup_cons]
      refine ⟨fun repeated => ?_, distinct⟩
      obtain ⟨row, later, same⟩ := List.mem_map.mp repeated
      obtain ⟨-, k, above, named⟩ := described row later
      have numbers : k = index + 1 := partId_injective current.id (named.symm.trans same)
      omega

theorem planSplit_rows {parts : Option (List (Option SplitPart))} {new : List StatementRowRecord}
    (ok : planSplit P current parts now = .ok new) :
    counted new = amountOf current ∧ (rowIds new).Nodup := by
  obtain ⟨parts, -, ok⟩ := bind_ok ok
  obtain ⟨rows, numbered, ok⟩ := bind_ok ok
  obtain ⟨_, sum, ok⟩ := bind_ok ok
  obtain rfl := Except.ok.inj ok
  obtain ⟨described, distinct⟩ := splitParts_rows numbered
  have total := not_not.mp (throwIf_ok sum)
  rw [counted_included fun row stored => (described row stored).1, amountOf, ← total]
  exact ⟨rfl, distinct⟩

/-- A split conserves exactly when the row still counted and the ids of the parts are new. -/
theorem split_conserves_iff {rows new : List StatementRowRecord} {rowId : String}
    (distinct : (rowIds rows).Nodup)
    (found : Table.lookup StatementRowRecord.id rowId rows = some current)
    (total : counted new = amountOf current) (numbered : (rowIds new).Nodup) :
    Conserves rows
        (Table.modify StatementRowRecord.id rowId
          (StoredStatement.superseded "split_parent" now) rows ++ new) ↔
      (current.decision ≠ .exclude ∨ amountOf current = 0) ∧
        ∀ row ∈ new, row.id ∉ rowIds rows := by
  have ids : rowIds (Table.modify StatementRowRecord.id rowId
      (StoredStatement.superseded "split_parent" now) rows) = rowIds rows :=
    Table.map_key_modify fun _ _ => rfl
  have money : counted (Table.modify StatementRowRecord.id rowId
      (StoredStatement.superseded "split_parent" now) rows) =
        counted rows - contribution current := by
    rw [counted_eq, counted_eq, Table.sum_modify contribution found]
    simp [contribution, StoredStatement.superseded]
  have sums : counted rows - contribution current + amountOf current = counted rows ↔
      current.decision ≠ .exclude ∨ amountOf current = 0 := by
    rw [contribution]
    by_cases excluded : current.decision = .exclude
    · simp [excluded]
    · simp [excluded]
  rw [Conserves, counted_append, money, total, sums, nodup_append_new (ids ▸ distinct), ids]
  simp [numbered]

end Split

/-! ### Merging -/

section Merge

variable {rows wanted : List StatementRowRecord} {ids : List String} {draw : Draw}

theorem counted_supersede (rows : List StatementRowRecord) (selected : StatementRowRecord → Bool)
    (flag : String) (now : Instant) :
    counted (rows.map fun row =>
        if selected row then StoredStatement.superseded flag now row else row) =
      counted rows - counted (rows.filter selected) := by
  induction rows with
  | nil => rfl
  | cons row rows ih =>
    rw [counted_eq, counted_eq] at ih ⊢
    rw [counted_eq] at ih ⊢
    by_cases chosen : selected row = true
    · simp only [List.map_cons, List.filter_cons, chosen, if_true, List.sum_cons, ih]
      simp [contribution, StoredStatement.superseded]
    · simp only [List.map_cons, List.filter_cons, chosen, if_false, List.sum_cons, ih,
        Bool.false_eq_true]
      omega

theorem rowIds_supersede (rows : List StatementRowRecord) (selected : StatementRowRecord → Bool)
    (flag : String) (now : Instant) :
    rowIds (rows.map fun row =>
      if selected row then StoredStatement.superseded flag now row else row) = rowIds rows := by
  rw [rowIds, rowIds, List.map_map]
  apply List.map_congr_left
  intro row _
  by_cases chosen : selected row = true
  · simp [chosen, StoredStatement.superseded]
  · simp [chosen]

/-- The money of rows is that of the rows that count and of those that do not. -/
theorem sum_amounts (rows : List StatementRowRecord) :
    (rows.map amountOf).sum =
      counted rows + ((rows.filter fun row => row.decision = .exclude).map amountOf).sum := by
  induction rows with
  | nil => rfl
  | cons row rows ih =>
    rw [counted_eq] at ih ⊢
    rw [List.map_cons, List.sum_cons, List.map_cons, List.sum_cons, ih, contribution]
    by_cases excluded : row.decision = .exclude
    · rw [if_neg (not_not.mpr excluded), List.filter_cons_of_pos (by simpa using excluded),
        List.map_cons, List.sum_cons]
      omega
    · rw [if_pos excluded, List.filter_cons_of_neg (by simpa using excluded)]
      omega

/-- A merge conserves exactly when the merged rows that no longer counted were worth nothing, and
the id of the new row is new. -/
theorem merge_conserves_iff {merged : StatementRowRecord} {now : Instant}
    (distinct : (rowIds rows).Nodup) (included : merged.decision = .include)
    (total : amountOf merged = ((rows.filter fun row => row.id ∈ ids).map amountOf).sum) :
    Conserves rows
        ((rows.map fun row => if row.id ∈ ids then
          StoredStatement.superseded "merged_parent" now row else row) ++ [merged]) ↔
      ((rows.filter fun row => row.id ∈ ids ∧ row.decision = .exclude).map amountOf).sum = 0 ∧
        merged.id ∉ rowIds rows := by
  let selected : StatementRowRecord → Bool := fun row => decide (row.id ∈ ids)
  have mapped : (rows.map fun row => if row.id ∈ ids then
      StoredStatement.superseded "merged_parent" now row else row) =
      rows.map fun row => if selected row then
        StoredStatement.superseded "merged_parent" now row else row := by
    simp [selected]
  have split : (rows.filter fun row => decide (row.id ∈ ids ∧ row.decision = .exclude)) =
      (rows.filter selected).filter fun row => row.decision = .exclude := by
    rw [List.filter_filter]
    congr 1
    funext row
    simp [selected, and_comm]
  have one : counted [merged] = amountOf merged := by
    rw [counted_included (by simp [included])]
    simp
  rw [mapped, split, Conserves, counted_append, counted_supersede, one, total, sum_amounts,
    nodup_append_new (by rw [rowIds_supersede]; exact distinct), rowIds_supersede]
  have sums : ∀ whole part rest : Int, whole - part + (part + rest) = whole ↔ rest = 0 := by
    intro whole part rest
    omega
  have single : ((rowIds [merged]).Nodup ∧ ∀ row ∈ [merged], row.id ∉ rowIds rows) ↔
      merged.id ∉ rowIds rows := by
    simp [rowIds]
  rw [sums, single]

end Merge

/-! ### The calls -/

section Calls

variable {A : Adapter} {w w' : Imports} {userId importId : String} {draw : Draw}

/-- The rows of a statement. -/
def Imports.rowsOf (w : Imports) (userId importId : String) : List StatementRowRecord :=
  ((w.statements.find userId importId).map (·.rows)).getD []

/-- The rows as a request reads them. -/
def Adapter.read (A : Adapter) (w : Imports) (userId importId : String) :
    List StatementRowRecord :=
  (A.exec (.rows userId importId) w).1.rows

theorem rowsOf_find {s : StoredStatement} (found : w.statements.find userId importId = some s) :
    w.rowsOf userId importId = s.rows := by
  rw [Imports.rowsOf, found]
  rfl

theorem read_memory {s : StoredStatement} (found : w.statements.find userId importId = some s)
    (kept : s.status ≠ .deleted) : Adapter.memory.read w userId importId = s.rows := by
  have live := InMemoryStatementImportStore.live_of_find found kept
  change ((w.statements.live userId importId).map StoredStatement.rows).getD [] = s.rows
  rw [live]
  rfl

/-- What is read of a statement that was not deleted are its rows, in some order. -/
theorem read_perm {s : StoredStatement} (found : w.statements.find userId importId = some s)
    (kept : s.status ≠ .deleted) : (A.read w userId importId).Perm s.rows := by
  cases A with
  | memory => rw [read_memory found kept]
  | postgres =>
    have read : Adapter.postgres.read w userId importId =
        s.rows.insertionSort PostgresStatementImportStore.rowOrder := by
      change (((w.statements.find userId importId).map StoredStatement.rows).getD []).insertionSort
        PostgresStatementImportStore.rowOrder = _
      rw [found]
      rfl
    rw [read]
    exact List.perm_insertionSort _ _

theorem lookup_perm {rows rows' : List StatementRowRecord} {rowId : String}
    {row : StatementRowRecord} (perm : rows.Perm rows') (distinct : (rowIds rows').Nodup)
    (found : Table.lookup StatementRowRecord.id rowId rows = some row) :
    Table.lookup StatementRowRecord.id rowId rows' = some row := by
  rw [← Table.lookup_key found]
  exact Table.lookup_of_mem distinct (perm.subset (Table.lookup_mem found))

theorem findRow_ok {rowId : String} {current : StatementRowRecord}
    (ok : A.run (findRow userId importId rowId) w = (.ok current, w')) :
    Table.lookup StatementRowRecord.id rowId (A.read w userId importId) = some current ∧
      w.Unchanged w' := by
  rw [findRow] at ok
  obtain ⟨read, w₁, called, ok⟩ := Adapter.run_call_ok ok
  obtain ⟨rfl, same⟩ := exec_rows A called
  obtain ⟨found, rfl⟩ := Adapter.run_last_ok ok
  exact ⟨orThrow_ok found, same⟩

/-- A statement that was changed is found as it was changed. -/
theorem find_revised {α : Type} {result : α} {change : StoredStatement → Option (α × StoredStatement)}
    (keeps : ∀ s r t, change s = some (r, t) → t.id = s.id)
    (applied : (w.statements.revise userId importId change).1 = some result) :
    ∃ s t, w.statements.find userId importId = some s ∧ change s = some (result, t) ∧
      (w.statements.revise userId importId change).2.find userId importId = some t := by
  obtain ⟨s, t, found, changed, -⟩ := InMemoryStatementImportStore.revise_some applied
  obtain ⟨t, changed, after⟩ := InMemoryStatementImportStore.find_revise keeps applied found
  exact ⟨s, t, found, changed, after⟩

theorem rowsOf_written {α : Type} {new : List StatementRowRecord} {result : α}
    {change : StoredStatement → Option (α × StoredStatement)}
    (keeps : ∀ s r t, change s = some (r, t) → t.id = s.id)
    (ok : (A.reviseRows w.statements userId importId new change).1 = .ok (some result)) :
    ∃ s t, w.statements.find userId importId = some s ∧ change s = some (result, t) ∧
      ((A.reviseRows w.statements userId importId new change).2.find userId importId) = some t := by
  obtain ⟨applied, same⟩ := Adapter.reviseRows_some ok
  rw [same]
  exact find_revised keeps applied

/-- The ids of the new rows are new where the table holds every id once. -/
def Adapter.Fresh (A : Adapter) (w : Imports) (userId : String) (new : List StatementRowRecord) :
    Prop :=
  A = .postgres →
    (rowIds (PostgresStatementImportStore.stagedRows w.statements userId) ++ rowIds new).Nodup

theorem Adapter.fresh_of_reviseRows {α : Type} {new : List StatementRowRecord} {result : α}
    {change : StoredStatement → Option (α × StoredStatement)}
    (ok : (A.reviseRows w.statements userId importId new change).1 = .ok (some result)) :
    A.Fresh w userId new := by
  rintro rfl
  obtain ⟨applied, -⟩ := Adapter.reviseRows_some ok
  rw [Adapter.reviseRows, PostgresStatementImportStore.reviseRows] at ok
  dsimp only at ok
  split at ok
  · cases ok
  · rename_i distinct
    simpa [applied, StoredStatement.clash, rowIds] using distinct

theorem Adapter.Fresh.of_unchanged {w₁ : Imports} {new : List StatementRowRecord}
    (fresh : A.Fresh w₁ userId new) (same : w.Unchanged w₁) : A.Fresh w userId new := by
  intro postgres
  have distinct := fresh postgres
  rw [PostgresStatementImportStore.stagedRows, same.bucket] at distinct
  exact distinct

/-- What a split that succeeds has read and written. -/
theorem splitRow_ok {rowId : String} {parts : Option (List (Option SplitPart))}
    {result : List StatementRowRecord}
    (ok : A.run (splitRow P userId importId rowId parts draw) w = (.ok result, w')) :
    ∃ s current, w.statements.find userId importId = some s ∧ s.status = .ready ∧
      Table.lookup StatementRowRecord.id rowId (A.read w userId importId) = some current ∧
      planSplit P current parts draw.now = .ok result ∧ A.Fresh w userId result ∧
      w'.rowsOf userId importId = Table.modify StatementRowRecord.id rowId
        (StoredStatement.superseded "split_parent" draw.now) s.rows ++ result := by
  rw [splitRow] at ok
  obtain ⟨current, w₁, read, ok⟩ := Adapter.run_bind_ok ok
  obtain ⟨looked, same⟩ := findRow_ok read
  obtain ⟨new, planned, ok⟩ := Adapter.run_check_ok ok
  obtain ⟨reply, w₂, called, ok⟩ := Adapter.run_call_ok ok
  obtain ⟨rfl, rfl⟩ := Prod.mk.inj called
  obtain ⟨updated, replied, ok⟩ := Adapter.run_check_ok ok
  obtain ⟨answered, rfl⟩ := Adapter.run_last_ok ok
  rw [orThrow_ok answered] at replied
  have written := mapError_ok replied
  obtain ⟨s, t, found, changed, after⟩ := rowsOf_written
    (fun s r t h => by rw [(StoredStatement.splitRow_some h).2.2.2]; rfl) written
  obtain ⟨ready, -, rfl, rfl⟩ := StoredStatement.splitRow_some changed
  have fresh := (Adapter.fresh_of_reviseRows written).of_unchanged same
  refine ⟨s, current, same.find.symm.trans found, ready, looked, planned, fresh, ?_⟩
  exact rowsOf_find (w := (A.exec (.splitRow userId importId rowId result draw.now) w₁).2) after

theorem planMerge_ok {rows : List StatementRowRecord} {ids : List String}
    {merged : StatementRowRecord} (ok : planMerge P rows ids draw = .ok merged) :
    ∃ first rest, (rows.filter fun row => row.id ∈ ids) = first :: rest ∧
      (∀ row ∈ first :: rest, row.amount ≠ none) ∧
      merged = mergedRow P first (first :: rest) draw := by
  rw [planMerge] at ok
  split at ok
  · cases ok
  · rename_i first rest wanted
    split at ok
    · cases ok
    · rename_i usable
      obtain rfl := Except.ok.inj ok
      refine ⟨first, rest, wanted, ?_, by rw [wanted]⟩
      intro row stored missing
      exact usable (.inr ⟨row, by rw [wanted]; exact stored, missing⟩)

/-- What a merge that succeeds has read and written. -/
theorem mergeRows_ok {input : Option (List Scalar)} {result : StatementRowRecord}
    (ok : A.run (mergeRows P userId importId input draw) w = (.ok result, w')) :
    ∃ s ids, w.statements.find userId importId = some s ∧ s.status = .ready ∧
      rowIdsOf input 2 10 = some ids ∧
      planMerge P (A.read w userId importId) ids draw = .ok result ∧ A.Fresh w userId [result] ∧
      w'.rowsOf userId importId =
        (s.rows.map fun row => if row.id ∈ ids then
          StoredStatement.superseded "merged_parent" draw.now row else row) ++ [result] := by
  rw [mergeRows] at ok
  obtain ⟨ids, given, ok⟩ := Adapter.run_check_ok ok
  obtain ⟨read, w₁, called, ok⟩ := Adapter.run_call_ok ok
  obtain ⟨rfl, same⟩ := exec_rows A called
  obtain ⟨merged, planned, ok⟩ := Adapter.run_check_ok ok
  obtain ⟨reply, w₂, called, ok⟩ := Adapter.run_call_ok ok
  obtain ⟨rfl, rfl⟩ := Prod.mk.inj called
  obtain ⟨updated, replied, ok⟩ := Adapter.run_check_ok ok
  obtain ⟨answered, rfl⟩ := Adapter.run_last_ok ok
  rw [orThrow_ok answered] at replied
  have written := mapError_ok replied
  obtain ⟨s, t, found, changed, after⟩ := rowsOf_written
    (fun s r t h => by rw [(StoredStatement.mergeRows_some h).2.2]; rfl) written
  obtain ⟨ready, rfl, rfl⟩ := StoredStatement.mergeRows_some changed
  have fresh := (Adapter.fresh_of_reviseRows written).of_unchanged same
  refine ⟨s, ids, same.find.symm.trans found, ready, orThrow_ok given, planned, fresh, ?_⟩
  exact rowsOf_find (w := (A.exec (.mergeRows userId importId ids result draw.now) w₁).2) after

end Calls

/-! ### Runs -/

inductive Reshape
  | split (rowId : String) (parts : Option (List (Option SplitPart)))
  | merge (rowIds : Option (List Scalar))

section Runs

variable (P) (A : Adapter) (userId importId : String)

/-- Whether the call succeeds, and what it leaves behind. -/
def reshape (call : Reshape × Draw) (w : Imports) : Bool × Imports :=
  match call.1 with
  | .split rowId parts =>
    let (result, w) := A.run (splitRow P userId importId rowId parts call.2) w
    (result.isOk, w)
  | .merge rowIds =>
    let (result, w) := A.run (mergeRows P userId importId rowIds call.2) w
    (result.isOk, w)

/-- No row is taken apart that no longer counts (unless it is worth nothing), and no new row takes
the id of another. -/
def Sound (call : Reshape × Draw) (w : Imports) : Prop :=
  let stored := rowIds (w.rowsOf userId importId)
  match call.1 with
  | .split rowId parts => ∀ current new,
      Table.lookup StatementRowRecord.id rowId (A.read w userId importId) = some current →
      planSplit P current parts call.2.now = .ok new →
      (current.decision ≠ .exclude ∨ amountOf current = 0) ∧ ∀ row ∈ new, row.id ∉ stored
  | .merge input => ∀ ids merged, rowIdsOf input 2 10 = some ids →
      planMerge P (A.read w userId importId) ids call.2 = .ok merged →
      (((w.rowsOf userId importId).filter fun row =>
          row.id ∈ ids ∧ row.decision = .exclude).map amountOf).sum = 0 ∧
        merged.id ∉ stored

/-- The property of every call, as long as the calls succeed. -/
def Throughout (property : Reshape × Draw → Imports → Prop) : List (Reshape × Draw) → Imports → Prop
  | [], _ => True
  | call :: calls, w =>
    let (ok, w') := reshape P A userId importId call w
    ok = true → property call w ∧ Throughout property calls w'

/-- What the calls are to keep. -/
def Conserved (call : Reshape × Draw) (w : Imports) : Prop :=
  Conserves (w.rowsOf userId importId) ((reshape P A userId importId call w).2.rowsOf userId importId)

end Runs

section Runs

variable {A : Adapter} {userId importId : String} {w : Imports}

theorem split_conserved_iff {rowId : String} {parts : Option (List (Option SplitPart))}
    {draw : Draw} (distinct : (rowIds (w.rowsOf userId importId)).Nodup)
    (ok : (reshape P A userId importId (.split rowId parts, draw) w).1 = true) :
    Conserved P A userId importId (.split rowId parts, draw) w ↔
      Sound P A userId importId (.split rowId parts, draw) w := by
  rcases run : A.run (splitRow P userId importId rowId parts draw) w with ⟨e | result, w'⟩
  · simp [reshape, run, Except.isOk, Except.toBool] at ok
  obtain ⟨s, current, found, ready, looked, planned, -, after⟩ := splitRow_ok run
  have kept : s.status ≠ .deleted := by simp [ready]
  have before := rowsOf_find found
  rw [before] at distinct
  have stored := lookup_perm (read_perm found kept) distinct looked
  obtain ⟨total, numbered⟩ := planSplit_rows planned
  have left_behind : (reshape P A userId importId (.split rowId parts, draw) w).2 = w' := by
    simp [reshape, run]
  rw [Conserved, left_behind, after, before,
    split_conserves_iff distinct stored total numbered, Sound, before]
  constructor
  · intro sound current' new' looked' planned'
    obtain rfl := Option.some.inj (looked.symm.trans looked')
    obtain rfl := Except.ok.inj (planned.symm.trans planned')
    exact sound
  · exact fun sound => sound current result looked planned

theorem merge_conserved_iff {input : Option (List Scalar)} {draw : Draw}
    (distinct : (rowIds (w.rowsOf userId importId)).Nodup)
    (ok : (reshape P A userId importId (.merge input, draw) w).1 = true) :
    Conserved P A userId importId (.merge input, draw) w ↔
      Sound P A userId importId (.merge input, draw) w := by
  rcases run : A.run (mergeRows P userId importId input draw) w with ⟨e | result, w'⟩
  · simp [reshape, run, Except.isOk, Except.toBool] at ok
  obtain ⟨s, ids, found, ready, given, planned, -, after⟩ := mergeRows_ok run
  have kept : s.status ≠ .deleted := by simp [ready]
  have before := rowsOf_find found
  rw [before] at distinct
  have made : result.decision = .include ∧ amountOf result =
      (((A.read w userId importId).filter fun row => row.id ∈ ids).map amountOf).sum := by
    obtain ⟨first, rest, wanted, -, rfl⟩ := planMerge_ok planned
    rw [wanted]
    exact ⟨rfl, rfl⟩
  obtain ⟨included, total⟩ := made
  have wanted := ((read_perm (A := A) found kept).filter fun row => row.id ∈ ids).map amountOf
  rw [wanted.sum_eq] at total
  have left_behind : (reshape P A userId importId (.merge input, draw) w).2 = w' := by
    simp [reshape, run]
  rw [Conserved, left_behind, after, before, merge_conserves_iff distinct included total, Sound,
    before]
  constructor
  · intro sound ids' merged' given' planned'
    obtain rfl := Option.some.inj (given.symm.trans given')
    obtain rfl := Except.ok.inj (planned.symm.trans planned')
    exact sound
  · exact fun sound => sound ids result given planned

/-- Splits and merges keep the money and the ids apart, as long as none takes apart or merges a row
that no longer counts, and all new ids are new. -/
theorem reshapes_conserve_iff (P : Primitives) (A : Adapter) (userId importId : String)
    (calls : List (Reshape × Draw)) (w : Imports)
    (distinct : (rowIds (w.rowsOf userId importId)).Nodup) :
    Throughout P A userId importId (Conserved P A userId importId) calls w ↔
      Throughout P A userId importId (Sound P A userId importId) calls w := by
  induction calls generalizing w with
  | nil => exact Iff.rfl
  | cons call calls ih =>
    rw [Throughout, Throughout]
    apply forall_congr'
    intro ok
    have step : Conserved P A userId importId call w ↔ Sound P A userId importId call w := by
      obtain ⟨reshape, draw⟩ := call
      cases reshape with
      | split rowId parts => exact split_conserved_iff distinct ok
      | merge input => exact merge_conserved_iff distinct ok
    rw [step]
    apply and_congr_right
    intro sound
    exact ih _ (step.mpr sound).2

end Runs

/-! ### Money counted twice -/

/-- Descriptors as they are, and no real hash. -/
def plain : Primitives where
  normalizeDescriptor := id
  sha256 := id
  isKnownCategory := fun _ => true
  isCalendarDate := fun _ => true
  toISOString := toString

/-- A purchase of 20.00 on a statement. -/
def purchase : StatementRowRecord where
  id := "stmt_row_1"
  importId := "stmt"
  sourceLine := 1
  postedAt := some "2026-03-14"
  description := "farm shop"
  merchant := none
  amount := some (-2000)
  currency := "EUR"
  direction := .debit
  categorySlug := "groceries"
  categorySource := .lexicon
  categoryConfidence := 1
  isRecurring := false
  flags := []
  decision := .include
  fingerprint := "1|2026-03-14|-2000|farm shop|EUR"
  editedAt := none

/-- What the service stores for a document that was read at once. -/
def readyStatement (rows : List StatementRowRecord) : StatementImport where
  id := "stmt"
  accountId := "checking"
  filename := "march.csv"
  statementHash := "march"
  status := .ready
  rowsTotal := rows.length
  rowsIncluded := decided .include rows
  rowsExcluded := decided .exclude rows
  rowsNeedsReview := decided .needsReview rows
  createdAt := 0
  processedAt := some 0
  approvedAt := none
  sourceDeletedAt := none
  error := none

/-- The statement of sam with these rows. -/
def uploaded (A : Adapter) (rows : List StatementRowRecord) : Imports :=
  (A.exec (.create "sam" (readyStatement rows) "ciphertext" rows) {}).2

def half (description : String) : Option SplitPart :=
  some { amount := some (.number (-1000)), description := some (.string description) }

/-- The purchase is split, and then split once more. -/
def splitTwice : List (Reshape × Draw) :=
  [(.split "stmt_row_1" (some [half "bread", half "cheese"]), ⟨"u1", 1⟩),
    (.split "stmt_row_1" (some [half "bread", half "cheese"]), ⟨"u2", 2⟩)]

theorem splitTwice_conserves_iff :
    (rowIds ((uploaded .memory [purchase]).rowsOf "sam" "stmt")).Nodup ∧
      (Throughout plain .memory "sam" "stmt" (Conserved plain .memory "sam" "stmt") splitTwice
          (uploaded .memory [purchase]) ↔
        Throughout plain .memory "sam" "stmt" (Sound plain .memory "sam" "stmt") splitTwice
          (uploaded .memory [purchase])) :=
  ⟨by decide +kernel, reshapes_conserve_iff plain .memory "sam" "stmt" splitTwice _ (by decide +kernel)⟩

theorem purchase_counted_twice :
    ¬Throughout plain .memory "sam" "stmt" (Conserved plain .memory "sam" "stmt") splitTwice
      (uploaded .memory [purchase]) := by
  intro conserved
  obtain ⟨-, again⟩ := conserved (by decide +kernel)
  obtain ⟨⟨money, -⟩, -⟩ := again (by decide +kernel)
  exact absurd money (by decide +kernel)

end Finverse.Statements
