import Finverse.Framework.Table

/-! A column of a keyed table: what statements that assign to it make of the rows. -/

/-- A column, and the key of its rows. -/
structure Column (α κ ν : Type) where
  key : α → κ
  get : α → ν
  put : ν → α → α
  key_put : ∀ v row, key (put v row) = key row
  get_put : ∀ v row, get (put v row) = v
  put_get : ∀ row, put (get row) row = row
  put_put : ∀ v w row, put v (put w row) = put v row

namespace Column

variable {α β κ ν : Type} (c : Column α κ ν)

/-- Every row whose key has a value takes it. -/
def assign (f : κ → Option ν) (rows : List α) : List α :=
  rows.map fun row => (f (c.key row)).elim row (c.put · row)

variable {c} {f g : κ → Option ν} {rows : List α}

@[simp] theorem keys_assign : (c.assign f rows).map c.key = rows.map c.key := by
  rw [assign, List.map_map]
  refine List.map_congr_left fun row _ => ?_
  cases h : f (c.key row) <;> simp [h, c.key_put]

/-- Assignments agree that leave the same value on every row. -/
theorem assign_congr
    (same : ∀ row ∈ rows, (f (c.key row)).getD (c.get row) = (g (c.key row)).getD (c.get row)) :
    c.assign f rows = c.assign g rows := by
  have written (v : Option ν) (row : α) :
      v.elim row (c.put · row) = c.put (v.getD (c.get row)) row := by
    cases v <;> simp [c.put_get]
  refine List.map_congr_left fun row stored => ?_
  rw [written, written, same row stored]

theorem assign_none (silent : ∀ row ∈ rows, f (c.key row) = none) : c.assign f rows = rows := by
  calc
    c.assign f rows = rows.map id := List.map_congr_left fun row stored => by
      simp [silent row stored]
    _ = rows := List.map_id rows

/-- Where the later assignment is silent, the earlier one stands. -/
theorem assign_assign :
    c.assign g (c.assign f rows) = c.assign (fun k => (g k).or (f k)) rows := by
  rw [assign, assign, List.map_map]
  refine List.map_congr_left fun row _ => ?_
  cases hf : f (c.key row) <;> cases hg : g (c.key row) <;>
    simp [hf, hg, c.key_put, c.put_put]

/-- Assigning what was there before restores every row. -/
theorem assign_restore
    (recorded : ∀ row ∈ rows, g (c.key row) = (f (c.key row)).map fun _ => c.get row) :
    c.assign g (c.assign f rows) = rows := by
  rw [assign_assign]
  calc
    c.assign (fun k => (g k).or (f k)) rows = c.assign (fun _ => none) rows := by
      refine assign_congr fun row stored => ?_
      rw [recorded row stored]
      cases f (c.key row) <;> rfl
    _ = rows := assign_none fun _ _ => rfl

variable [DecidableEq κ]

/-- What a row of a key has in the column. -/
def valueAt (c : Column α κ ν) (rows : List α) (k : κ) : Option ν :=
  (Table.lookup c.key k rows).map c.get

theorem valueAt_of_mem (unique : (rows.map c.key).Nodup) {row : α} (stored : row ∈ rows) :
    c.valueAt rows (c.key row) = some (c.get row) := by
  rw [valueAt, Table.lookup_of_mem unique stored, Option.map_some]

theorem valueAt_assign (k : κ) :
    c.valueAt (c.assign f rows) k = (c.valueAt rows k).map fun v => (f k).getD v := by
  induction rows with
  | nil => rfl
  | cons row rows ih =>
    have kept : c.key ((f (c.key row)).elim row (c.put · row)) = c.key row := by
      cases f (c.key row) <;> simp [c.key_put]
    by_cases here : c.key row = k
    · subst here
      simp only [valueAt, assign, List.map_cons, Table.lookup, List.find?_cons, kept]
      cases f (c.key row) <;> simp [c.get_put]
    · simpa [valueAt, assign, Table.lookup, kept, here] using ih

/-- A change of the first row of a key, when there is no other. -/
theorem modify_eq_assign (unique : (rows.map c.key).Nodup) (k : κ) (v : ν) :
    Table.modify c.key k (c.put v) rows = c.assign (fun j => if j = k then some v else none) rows := by
  rw [Table.modify_eq_map unique, assign]
  refine List.map_congr_left fun row _ => ?_
  split <;> rfl

/-- Changes of distinct keys, one after the other. -/
theorem foldl_modify (keyOf : β → κ) (valueOf : β → ν) {entries : List β}
    (unique : (rows.map c.key).Nodup) (distinct : (entries.map keyOf).Nodup) :
    entries.foldl (fun rows e => Table.modify c.key (keyOf e) (c.put (valueOf e)) rows) rows =
      c.assign (fun k => (Table.lookup keyOf k entries).map valueOf) rows := by
  induction entries generalizing rows with
  | nil => exact (assign_none fun _ _ => rfl).symm
  | cons entry entries ih =>
    rw [List.map_cons, List.nodup_cons] at distinct
    have later : Table.lookup keyOf (keyOf entry) entries = none :=
      Table.lookup_eq_none.mpr distinct.1
    rw [List.foldl_cons, modify_eq_assign unique, ih (by rwa [keys_assign]) distinct.2,
      assign_assign]
    congr 1
    funext k
    by_cases here : k = keyOf entry
    · rw [here, later]
      simp [Table.lookup]
    · have skipped : ¬keyOf entry = k := fun same => here same.symm
      simp [here, skipped, Table.lookup]

end Column
