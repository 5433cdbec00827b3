import Mathlib.Algebra.BigOperators.Group.List.Basic
import Mathlib.Data.List.Forall2
import Mathlib.Data.List.Nodup
import Mathlib.Tactic.Abel
import Mathlib.Tactic.Common

/-! Tables as lists of rows under a unique key, and the SQL statements that write them. -/

namespace Table

/-! Keys of two parts, by name, so that every table finds the same instance. -/

instance lawfulBEqStringPair : LawfulBEq (String × String) := inferInstance

instance lawfulBEqNatString : LawfulBEq (Nat × String) := inferInstance

variable {α β κ : Type} [DecidableEq κ]

/-- Merges the new row into the one stored under its key, or appends it. -/
def upsert (key : α → κ) (merge : α → α → α) (new : α) : List α → List α
  | [] => [new]
  | row :: rows =>
    if key row = key new then merge row new :: rows else row :: upsert key merge new rows

/-- Changes the first row of a key. -/
def modify (key : α → κ) (k : κ) (change : α → α) : List α → List α
  | [] => []
  | row :: rows => if key row = k then change row :: rows else row :: modify key k change rows

/-- The row stored under a key. -/
def lookup (key : α → κ) (k : κ) (rows : List α) : Option α := rows.find? (key · = k)

section Modify

variable {key : α → κ} {k : κ} {change : α → α} {rows : List α}

/-- A change that keeps the key moves no row away from it. -/
theorem map_key_modify (keeps : ∀ row, lookup key k rows = some row → key (change row) = key row) :
    (modify key k change rows).map key = rows.map key := by
  induction rows with
  | nil => rfl
  | cons r rs ih =>
    rw [modify]
    by_cases h : key r = k
    · rw [if_pos h, List.map_cons, List.map_cons, keeps r (by simp [lookup, h])]
    · rw [if_neg h, List.map_cons, List.map_cons]
      congr 1
      exact ih fun row found => keeps row (by simpa [lookup, h] using found)

/-- Where there is no row of the key, nothing changes. -/
theorem modify_absent (absent : lookup key k rows = none) : modify key k change rows = rows := by
  induction rows with
  | nil => rfl
  | cons r rs ih =>
    have other : key r ≠ k := by simpa using List.find?_eq_none.mp absent r List.mem_cons_self
    have rest : lookup key k rs = none := by simpa [lookup, other] using absent
    rw [modify, if_neg other, ih rest]

theorem lookup_modify (keeps : ∀ row, lookup key k rows = some row → key (change row) = k) (j : κ) :
    lookup key j (modify key k change rows) =
      if j = k then (lookup key k rows).map change else lookup key j rows := by
  induction rows with
  | nil => simp [modify, lookup]
  | cons r rs ih =>
    rw [modify]
    by_cases h : key r = k
    · have kept : key (change r) = k := keeps r (by simp [lookup, h])
      by_cases hj : j = k
      · simp [lookup, h, kept, hj]
      · simp [lookup, h, kept, hj, Ne.symm hj]
    · have later := ih fun row found => keeps row (by simpa [lookup, h] using found)
      rw [if_neg h]
      by_cases hr : key r = j
      · have hj : j ≠ k := fun same => h (hr.trans same)
        simp [lookup, hr, hj]
      · simpa [lookup, hr, h] using later

/-- Only the row found is changed. -/
theorem forall₂_modify {R : α → α → Prop} (same : ∀ row, R row row)
    (changed : ∀ row, lookup key k rows = some row → R row (change row)) :
    List.Forall₂ R rows (modify key k change rows) := by
  induction rows with
  | nil => exact .nil
  | cons r rs ih =>
    rw [modify]
    by_cases h : key r = k
    · rw [if_pos h]
      exact .cons (changed r (by simp [lookup, h])) (List.forall₂_same.mpr fun row _ => same row)
    · rw [if_neg h]
      exact .cons (same r) (ih fun row found => changed row (by simpa [lookup, h] using found))

/-- A key that only one row has. -/
theorem modify_eq_map (unique : (rows.map key).Nodup) :
    modify key k change rows = rows.map fun row => if key row = k then change row else row := by
  induction rows with
  | nil => rfl
  | cons r rs ih =>
    rw [List.map_cons, List.nodup_cons] at unique
    rw [modify, List.map_cons]
    by_cases h : key r = k
    · have rest : rs.map (fun row => if key row = k then change row else row) = rs := by
        refine (List.map_congr_left fun row stored => if_neg fun same => unique.1 ?_).trans
          (List.map_id rs)
        rw [h, ← same]
        exact List.mem_map_of_mem stored
      rw [if_pos h, if_pos h, rest]
    · rw [if_neg h, if_neg h, ih unique.2]

theorem mem_modify {row : α} (h : row ∈ modify key k change rows) :
    row ∈ rows ∨ ∃ old ∈ rows, key old = k ∧ row = change old := by
  induction rows with
  | nil => simp [modify] at h
  | cons r rs ih =>
    rw [modify] at h
    split at h
    · rename_i hr
      rcases List.mem_cons.mp h with rfl | h
      · exact .inr ⟨r, List.mem_cons_self, hr, rfl⟩
      · exact .inl (List.mem_cons_of_mem _ h)
    · rcases List.mem_cons.mp h with rfl | h
      · exact .inl List.mem_cons_self
      · refine (ih h).imp (List.mem_cons_of_mem _) ?_
        rintro ⟨old, stored, changed⟩
        exact ⟨old, List.mem_cons_of_mem _ stored, changed⟩

theorem countP_modify {p : α → Bool} (keeps : ∀ row, lookup key k rows = some row → p (change row) = p row) :
    (modify key k change rows).countP p = rows.countP p := by
  induction rows with
  | nil => rfl
  | cons r rs ih =>
    rw [modify]
    by_cases h : key r = k
    · rw [if_pos h, List.countP_cons, List.countP_cons, keeps r (by simp [lookup, h])]
    · rw [if_neg h, List.countP_cons, List.countP_cons,
        ih fun row found => keeps row (by simpa [lookup, h] using found)]

/-- What a change of one row does to a sum. -/
theorem sum_modify {M : Type} [AddCommGroup M] (g : α → M) {row : α}
    (found : lookup key k rows = some row) :
    ((modify key k change rows).map g).sum = (rows.map g).sum - g row + g (change row) := by
  induction rows with
  | nil => simp [lookup] at found
  | cons r rs ih =>
    rw [modify]
    by_cases h : key r = k
    · have same : r = row := by simpa [lookup, h] using found
      rw [if_pos h, same, List.map_cons, List.map_cons, List.sum_cons, List.sum_cons]
      abel
    · have later : lookup key k rs = some row := by simpa [lookup, h] using found
      rw [if_neg h, List.map_cons, List.map_cons, List.sum_cons, List.sum_cons, ih later]
      abel

end Modify

/-- Every row stays in its place, moved along `R`, and rows of which `N` holds come behind. -/
def Grows (R : α → α → Prop) (N : α → Prop) (rows rows' : List α) : Prop :=
  ∃ kept fresh, rows' = kept ++ fresh ∧ List.Forall₂ R rows kept ∧ ∀ row ∈ fresh, N row

section Grows

variable {R : α → α → Prop} {N : α → Prop} {rows rows' rows'' : List α}

theorem Grows.of_forall₂ (moved : List.Forall₂ R rows rows') : Grows R N rows rows' :=
  ⟨rows', [], (List.append_nil rows').symm, moved, by simp⟩

theorem Grows.refl (same : ∀ row, R row row) (rows : List α) : Grows R N rows rows :=
  .of_forall₂ (List.forall₂_same.mpr fun row _ => same row)

theorem Grows.append (same : ∀ row, R row row) {new : α} (fresh : N new) (rows : List α) :
    Grows R N rows (rows ++ [new]) :=
  ⟨rows, [new], rfl, List.forall₂_same.mpr fun row _ => same row, by simpa using fresh⟩

theorem Grows.mono {R' : α → α → Prop} {N' : α → Prop} (hR : ∀ row row', R row row' → R' row row')
    (hN : ∀ row, N row → N' row) (grows : Grows R N rows rows') : Grows R' N' rows rows' := by
  obtain ⟨kept, fresh, rfl, moved, new⟩ := grows
  exact ⟨kept, fresh, rfl, moved.imp fun row row' => hR row row', fun row stored => hN row (new row stored)⟩

theorem forall_of_forall₂ {I : α → Prop} (step : ∀ row row', R row row' → I row → I row')
    (moved : List.Forall₂ R rows rows') (holds : ∀ row ∈ rows, I row) : ∀ row ∈ rows', I row := by
  induction moved with
  | nil => simp
  | cons related _ ih =>
    rw [List.forall_mem_cons] at holds ⊢
    exact ⟨step _ _ related holds.1, ih holds.2⟩

/-- What moving and coming keep holds of every row. -/
theorem Grows.all {I : α → Prop} (step : ∀ row row', R row row' → I row → I row')
    (start : ∀ row, N row → I row) (grows : Grows R N rows rows') (holds : ∀ row ∈ rows, I row) :
    ∀ row ∈ rows', I row := by
  obtain ⟨kept, fresh, rfl, moved, new⟩ := grows
  intro row stored
  rcases List.mem_append.mp stored with old | added
  · exact forall_of_forall₂ step moved holds row old
  · exact start row (new row added)

/-- The rows that were there and those that came move on separately. -/
theorem forall₂_append_left {S : α → β → Prop} {old new : List α} {rows' : List β}
    (moved : List.Forall₂ S (old ++ new) rows') :
    ∃ old' new', rows' = old' ++ new' ∧ List.Forall₂ S old old' ∧ List.Forall₂ S new new' := by
  induction old generalizing rows' with
  | nil => exact ⟨[], rows', rfl, .nil, moved⟩
  | cons row old ih =>
    rw [List.cons_append, List.forall₂_cons_left_iff] at moved
    obtain ⟨row', rest, related, moved, rfl⟩ := moved
    obtain ⟨old', new', rfl, before, after⟩ := ih moved
    exact ⟨row' :: old', new', rfl, .cons related before, after⟩

theorem forall₂_trans (through : ∀ {a b c}, R a b → R b c → R a c)
    (first : List.Forall₂ R rows rows') (second : List.Forall₂ R rows' rows'') :
    List.Forall₂ R rows rows'' := by
  induction first generalizing rows'' with
  | nil => exact second
  | cons related _ ih =>
    obtain ⟨row'', rest, further, moved, rfl⟩ := List.forall₂_cons_left_iff.mp second
    exact .cons (through related further) (ih moved)

theorem Grows.trans (through : ∀ {a b c}, R a b → R b c → R a c)
    (keep : ∀ row row', R row row' → N row → N row') (first : Grows R N rows rows')
    (second : Grows R N rows' rows'') : Grows R N rows rows'' := by
  obtain ⟨kept, fresh, rfl, moved, new⟩ := first
  obtain ⟨both, fresh', rfl, again, new'⟩ := second
  obtain ⟨kept', older, rfl, moved', moved_new⟩ := forall₂_append_left again
  refine ⟨kept', older ++ fresh', List.append_assoc .., forall₂_trans through moved moved', ?_⟩
  intro row stored
  rcases List.mem_append.mp stored with was | added
  · exact forall_of_forall₂ keep moved_new new row was
  · exact new' row added

/-- A row that is found is found again, moved. -/
theorem Grows.lookup {key : α → κ} {k : κ} (keys : ∀ row row', R row row' → key row' = key row)
    (grows : Grows R N rows rows') {row : α} (found : lookup key k rows = some row) :
    ∃ row', lookup key k rows' = some row' ∧ R row row' := by
  obtain ⟨kept, fresh, rfl, moved, -⟩ := grows
  suffices main : ∃ row', Table.lookup key k kept = some row' ∧ R row row' by
    obtain ⟨row', found', related⟩ := main
    rw [Table.lookup] at found'
    exact ⟨row', by rw [Table.lookup, List.find?_append, found', Option.some_or], related⟩
  induction moved with
  | nil => cases found
  | @cons old old' _ _ related _ ih =>
    rw [Table.lookup, List.find?_cons] at found ⊢
    rw [keys old old' related]
    by_cases this : key old = k
    · rw [decide_eq_true this] at found ⊢
      obtain rfl := Option.some.inj found
      exact ⟨old', rfl, related⟩
    · rw [decide_eq_false this] at found ⊢
      exact ih found

end Grows

section Upsert

variable {key : α → κ} {merge : α → α → α} {new : α} {rows : List α} {k : κ}

theorem grows_upsert {R : α → α → Prop} {N : α → Prop} (same : ∀ row, R row row)
    (merged : ∀ row, key row = key new → R row (merge row new)) (fresh : N new) :
    Grows R N rows (upsert key merge new rows) := by
  induction rows with
  | nil => exact .append same fresh []
  | cons row rows ih =>
    rw [upsert]
    split
    · rename_i this
      exact .of_forall₂ (.cons (merged row this) (List.forall₂_same.mpr fun row _ => same row))
    · obtain ⟨kept, added, eq, moved, new⟩ := ih
      exact ⟨row :: kept, added, by rw [eq, List.cons_append], .cons (same row) moved, new⟩

/-- Another row may be found by the key when some were left out, but not if the first one stays. -/
theorem lookup_filter_of_pos {p : α → Bool} {row : α} (found : lookup key k rows = some row) (stays : p row = true) :
    lookup key k (rows.filter p) = some row := by
  induction rows with
  | nil => cases found
  | cons first rows ih =>
    rw [lookup, List.find?_cons] at found
    by_cases this : key first = k
    · rw [decide_eq_true this] at found
      obtain rfl := Option.some.inj found
      rw [List.filter_cons_of_pos stays, lookup, List.find?_cons, decide_eq_true this]
    · rw [decide_eq_false this] at found
      rw [List.filter_cons]
      split
      · rw [lookup, List.find?_cons, decide_eq_false this]
        exact ih found
      · exact ih found

theorem lookup_key {row : α} (h : lookup key k rows = some row) : key row = k := by
  simpa using List.find?_some h

theorem lookup_mem {row : α} (h : lookup key k rows = some row) : row ∈ rows :=
  List.mem_of_find?_eq_some h

theorem lookup_eq_none : lookup key k rows = none ↔ k ∉ rows.map key := by
  simp [lookup, List.find?_eq_none]

/-- Under a unique key, a stored row is the one found. -/
theorem lookup_of_mem (unique : (rows.map key).Nodup) {row : α} (h : row ∈ rows) :
    lookup key (key row) rows = some row := by
  induction rows with
  | nil => simp at h
  | cons r rs ih =>
    rw [List.map_cons, List.nodup_cons] at unique
    rcases List.mem_cons.mp h with rfl | h
    · simp [lookup]
    · have hne : key r ≠ key row := by
        intro he
        exact unique.1 (he ▸ List.mem_map_of_mem h)
      simpa [lookup, List.find?_cons, hne] using ih unique.2 h

theorem upsert_of_absent (h : key new ∉ rows.map key) :
    upsert key merge new rows = rows ++ [new] := by
  induction rows with
  | nil => rfl
  | cons r rs ih =>
    rw [List.map_cons, List.mem_cons, not_or] at h
    rw [upsert, if_neg (Ne.symm h.1), ih h.2, List.cons_append]

/-- Every other row is left as it is. -/
theorem upsert_of_present (unique : (rows.map key).Nodup) (h : key new ∈ rows.map key) :
    upsert key merge new rows =
      rows.map fun row => if key row = key new then merge row new else row := by
  induction rows with
  | nil => simp at h
  | cons r rs ih =>
    rw [List.map_cons, List.nodup_cons] at unique
    by_cases hr : key r = key new
    · have rest : rs.map (fun row => if key row = key new then merge row new else row) = rs := by
        refine (List.map_congr_left fun row hrow => if_neg ?_).trans (List.map_id rs)
        intro he
        rw [hr, ← he] at unique
        exact unique.1 (List.mem_map_of_mem hrow)
      rw [upsert, if_pos hr, List.map_cons, if_pos hr, rest]
    · rw [List.map_cons, List.mem_cons] at h
      have h' : key new ∈ rs.map key := h.resolve_left (Ne.symm hr)
      rw [upsert, if_neg hr, List.map_cons, if_neg hr, ih unique.2 h']

theorem mem_upsert {row : α} (h : row ∈ upsert key merge new rows) :
    row ∈ rows ∨ row = new ∨ ∃ old ∈ rows, key old = key new ∧ row = merge old new := by
  induction rows with
  | nil => exact .inr (.inl (List.mem_singleton.mp h))
  | cons r rs ih =>
    rw [upsert] at h
    split at h
    · rename_i hr
      rcases List.mem_cons.mp h with rfl | h
      · exact .inr (.inr ⟨r, List.mem_cons_self, hr, rfl⟩)
      · exact .inl (List.mem_cons_of_mem _ h)
    · rcases List.mem_cons.mp h with rfl | h
      · exact .inl List.mem_cons_self
      · refine (ih h).imp (List.mem_cons_of_mem _) (Or.imp_right ?_)
        rintro ⟨old, stored, merged⟩
        exact ⟨old, List.mem_cons_of_mem _ stored, merged⟩

/-- A stored row stays, or the new row is merged into it. -/
theorem mem_upsert_of_mem {row : α} (h : row ∈ rows) :
    row ∈ upsert key merge new rows ∨
      key row = key new ∧ merge row new ∈ upsert key merge new rows := by
  induction rows with
  | nil => simp at h
  | cons r rs ih =>
    rw [upsert]
    split
    · rename_i hr
      rcases List.mem_cons.mp h with rfl | h
      · exact .inr ⟨hr, List.mem_cons_self⟩
      · exact .inl (List.mem_cons_of_mem _ h)
    · rcases List.mem_cons.mp h with rfl | h
      · exact .inl List.mem_cons_self
      · exact (ih h).imp (List.mem_cons_of_mem _) (And.imp_right (List.mem_cons_of_mem _))

/-- The new row is stored, or merged into one. -/
theorem new_mem_upsert : new ∈ upsert key merge new rows ∨
    ∃ old ∈ rows, key old = key new ∧ merge old new ∈ upsert key merge new rows := by
  induction rows with
  | nil => exact .inl List.mem_cons_self
  | cons r rs ih =>
    rw [upsert]
    split
    · rename_i hr
      exact .inr ⟨r, List.mem_cons_self, hr, List.mem_cons_self⟩
    · refine ih.imp (List.mem_cons_of_mem _) ?_
      rintro ⟨old, stored, same, merged⟩
      exact ⟨old, List.mem_cons_of_mem _ stored, same, List.mem_cons_of_mem _ merged⟩

theorem map_key_upsert (hmerge : ∀ row, key row = key new → key (merge row new) = key new) :
    (upsert key merge new rows).map key =
      if key new ∈ rows.map key then rows.map key else rows.map key ++ [key new] := by
  induction rows with
  | nil => simp [upsert]
  | cons r rs ih =>
    by_cases hr : key r = key new
    · simp [upsert, hr, hmerge]
    · by_cases hk : key new ∈ rs.map key
      · rw [upsert, if_neg hr, List.map_cons, ih, if_pos hk, List.map_cons, if_pos (by simp [hk])]
      · have hcons : key new ∉ (r :: rs).map key := by
          rw [List.map_cons, List.mem_cons, not_or]
          exact ⟨Ne.symm hr, hk⟩
        rw [upsert, if_neg hr, List.map_cons, ih, if_neg hk, if_neg hcons]
        rfl

theorem nodup_upsert (hmerge : ∀ row, key row = key new → key (merge row new) = key new)
    (unique : (rows.map key).Nodup) : ((upsert key merge new rows).map key).Nodup := by
  rw [map_key_upsert hmerge]
  split
  · exact unique
  · rename_i h
    rw [List.nodup_append]
    refine ⟨unique, List.nodup_singleton _, ?_⟩
    intro a ha b hb
    rw [List.mem_singleton.mp hb]
    exact fun hab => h (hab ▸ ha)

theorem length_upsert : (upsert key merge new rows).length =
    rows.length + if key new ∈ rows.map key then 0 else 1 := by
  induction rows with
  | nil => rfl
  | cons r rs ih =>
    rw [upsert]
    by_cases hr : key r = key new
    · simp [hr]
    · have head : key new ≠ key r := Ne.symm hr
      simp only [if_neg hr, List.length_cons, ih, List.map_cons, List.mem_cons, head, false_or]
      omega

/-- Rows of new and distinct keys are appended. -/
theorem foldl_upsert_absent {news : List α} (distinct : (news.map key).Nodup)
    (absent : ∀ new ∈ news, key new ∉ rows.map key) :
    news.foldl (fun rows new => upsert key merge new rows) rows = rows ++ news := by
  induction news generalizing rows with
  | nil => simp
  | cons new news ih =>
    rw [List.map_cons, List.nodup_cons] at distinct
    rw [List.foldl_cons, upsert_of_absent (absent new List.mem_cons_self), ih distinct.2]
    · simp
    · intro later stored
      rw [List.map_append, List.mem_append, not_or]
      refine ⟨absent later (List.mem_cons_of_mem _ stored), fun same => distinct.1 ?_⟩
      rw [← List.mem_singleton.mp same]
      exact List.mem_map_of_mem stored

theorem length_foldl_upsert_le {news : List α} :
    (news.foldl (fun rows new => upsert key merge new rows) rows).length ≤
      rows.length + news.length := by
  induction news generalizing rows with
  | nil => simp
  | cons new news ih =>
    have grown : (upsert key merge new rows).length ≤ rows.length + 1 := by
      rw [length_upsert]
      split <;> omega
    calc
      (news.foldl _ (upsert key merge new rows)).length
          ≤ (upsert key merge new rows).length + news.length := ih
      _ ≤ rows.length + (new :: news).length := by
        rw [List.length_cons]
        omega

/-- When every row adds one, their keys are distinct. -/
theorem nodup_of_length_foldl_upsert {news : List α}
    (hmerge : ∀ new row, key row = key new → key (merge row new) = key new)
    (length : (news.foldl (fun rows new => upsert key merge new rows) rows).length =
      rows.length + news.length) :
    (news.map key).Nodup ∧ ∀ new ∈ news, key new ∉ rows.map key := by
  induction news generalizing rows with
  | nil => simp
  | cons new news ih =>
    rw [List.foldl_cons, List.length_cons] at length
    have bound : (news.foldl (fun rows new => upsert key merge new rows)
        (upsert key merge new rows)).length ≤ (upsert key merge new rows).length + news.length :=
      length_foldl_upsert_le
    have fresh : key new ∉ rows.map key := by
      intro stored
      rw [length_upsert, if_pos stored] at bound
      omega
    have grown : (upsert key merge new rows).length = rows.length + 1 := by
      rw [length_upsert, if_neg fresh]
    obtain ⟨distinct, absent⟩ := ih (by omega : (news.foldl
      (fun rows new => upsert key merge new rows) (upsert key merge new rows)).length =
        (upsert key merge new rows).length + news.length)
    rw [map_key_upsert (hmerge new), if_neg fresh] at absent
    simp only [List.mem_append, List.mem_singleton, not_or] at absent
    constructor
    · rw [List.map_cons, List.nodup_cons]
      refine ⟨fun repeated => ?_, distinct⟩
      obtain ⟨later, stored, same⟩ := List.mem_map.mp repeated
      exact (absent later stored).2 same
    · intro other stored
      rcases List.mem_cons.mp stored with rfl | later
      · exact fresh
      · exact (absent other later).1

theorem lookup_upsert_self (hmerge : ∀ row, key row = key new → key (merge row new) = key new) :
    lookup key (key new) (upsert key merge new rows) =
      some ((lookup key (key new) rows).elim new (merge · new)) := by
  induction rows with
  | nil => simp [upsert, lookup]
  | cons r rs ih =>
    by_cases hr : key r = key new
    · simp [upsert, lookup, hr, hmerge]
    · simpa [upsert, lookup, hr] using ih

theorem lookup_upsert_ne (hmerge : ∀ row, key row = key new → key (merge row new) = key new) (hk : k ≠ key new) :
    lookup key k (upsert key merge new rows) = lookup key k rows := by
  induction rows with
  | nil => simp [upsert, lookup, Ne.symm hk]
  | cons r rs ih =>
    by_cases hr : key r = key new
    · simp [upsert, lookup, hr, hmerge, Ne.symm hk]
    · simp only [upsert, if_neg hr, lookup, List.find?_cons]
      split
      · rfl
      · exact ih

/-- Rows are removed by a property of their key. -/
theorem lookup_filter {p : α → Bool} (q : κ → Bool) (h : ∀ row, p row = q (key row)) :
    lookup key k (rows.filter p) = if q k = true then lookup key k rows else none := by
  induction rows with
  | nil => simp [lookup]
  | cons r rs ih =>
    by_cases hr : key r = k
    · cases hq : q k with
      | true => simp [lookup, h r, hr, hq]
      | false =>
        rw [hq] at ih
        simpa [lookup, List.filter_cons, h r, hr, hq] using ih
    · cases hp : p r <;> simpa [lookup, List.filter_cons, hp, hr] using ih

/-- Part of a table is written as the table is, when a row's key decides whether it belongs. -/
theorem filter_upsert {p : α → Bool} (hnew : p new = true)
    (hkey : ∀ row ∈ rows, key row = key new → p row = true ∧ p (merge row new) = true) :
    (upsert key merge new rows).filter p = upsert key merge new (rows.filter p) := by
  induction rows with
  | nil => simp [upsert, hnew]
  | cons r rs ih =>
    have hrest := ih fun row hrow => hkey row (by simp [hrow])
    by_cases h : key r = key new
    · obtain ⟨h1, h2⟩ := hkey r (by simp) h
      simp [upsert, h, h1, h2]
    · by_cases hp : p r = true
      · simp [upsert, h, hp, hrest]
      · simp [upsert, h, hp, hrest]

end Upsert

/-- Rows under a unique index. -/
structure Keyed (key : α → κ) where
  rows : List α
  unique : (rows.map key).Nodup

namespace Keyed

variable {key : α → κ}

def empty : Keyed key := ⟨[], List.nodup_nil⟩

def upsert (t : Keyed key) (merge : α → α → α) (keeps : ∀ row new, key (merge row new) = key row)
    (new : α) : Keyed key :=
  ⟨Table.upsert key merge new t.rows, nodup_upsert (fun row h => (keeps row new).trans h) t.unique⟩

def lookup (t : Keyed key) (k : κ) : Option α := Table.lookup key k t.rows

theorem lookup_of_mem {t : Keyed key} {row : α} (h : row ∈ t.rows) : t.lookup (key row) = some row :=
  Table.lookup_of_mem t.unique h

/-- `UPDATE`, or what a statement makes of every row. -/
def map (t : Keyed key) (change : α → α) (keeps : ∀ row, key (change row) = key row) : Keyed key where
  rows := t.rows.map change
  unique := by
    have same : (t.rows.map change).map key = t.rows.map key := by
      rw [List.map_map]
      exact List.map_congr_left fun row _ => keeps row
    rw [same]
    exact t.unique

/-- `DELETE`: the rows of which `p` holds stay. -/
def filter (t : Keyed key) (p : α → Bool) : Keyed key :=
  ⟨t.rows.filter p, t.unique.sublist (List.filter_sublist.map key)⟩

end Keyed

end Table

namespace Sql

/-- Why a statement is refused. -/
inductive Violation
  | notNull (column : String)
  | valueTooLong (column : String)
  | outOfRange (column : String)
  | check (constraint : String)
  | unique (constraint : String)
  | foreignKey (constraint : String)
  | affectedTwice
  deriving DecidableEq, Repr

/-- What an insert does when a row is already stored under the arbiter key. -/
inductive OnConflict {α κ : Type} (arbiter : α → κ)
  | abort
  | doNothing
  | doUpdate (set : α → α → α) (keeps : ∀ row new, arbiter (set row new) = arbiter row)

inductive Outcome
  | inserted
  | updated
  | skipped
  deriving DecidableEq, Repr

/-- A table as an insert sees it: how a tuple of column values becomes a row, the unique index that
arbitrates conflicts, the primary key and the foreign key. -/
structure Target (τ α κ π : Type) where
  accept : τ → Except Violation α
  arbiter : α → κ
  primary : α → π
  primaryName : String
  references : α → Bool
  foreignName : String

section Insert

variable {τ α κ π : Type} [DecidableEq κ] [DecidableEq π]

/-- The rows, the keys this statement has written, and what became of its tuples. -/
structure Progress (arbiter : α → κ) where
  table : Table.Keyed arbiter
  written : List κ
  outcomes : List Outcome

variable (T : Target τ α κ π) (onConflict : OnConflict T.arbiter)

/-- NOT NULL and CHECK constraints come first, then the arbiter, then the other constraints. -/
def insertTuple (p : Progress T.arbiter) (tuple : τ) : Except Violation (Progress T.arbiter) := do
  let new ← T.accept tuple
  match p.table.lookup (T.arbiter new), onConflict with
  | some _, .abort => throw (.unique T.primaryName)
  | some _, .doNothing => pure { p with outcomes := p.outcomes ++ [.skipped] }
  | some _, .doUpdate set keeps =>
    if T.arbiter new ∈ p.written then throw .affectedTwice
    else pure ⟨p.table.upsert set keeps new, T.arbiter new :: p.written, p.outcomes ++ [.updated]⟩
  | none, _ =>
    if T.primary new ∈ p.table.rows.map T.primary then throw (.unique T.primaryName)
    else if T.references new then
      -- The key is absent, so the row is appended.
      pure ⟨p.table.upsert (fun row _ => row) (fun _ _ => rfl) new, T.arbiter new :: p.written,
        p.outcomes ++ [.inserted]⟩
    else throw (.foreignKey T.foreignName)

/-- `INSERT INTO .. VALUES .. ON CONFLICT ..`. -/
def insert (tuples : List τ) (table : Table.Keyed T.arbiter) :
    Except Violation (Table.Keyed T.arbiter × List Outcome) := do
  let p ← tuples.foldlM (insertTuple T onConflict) ⟨table, [], []⟩
  pure (p.table, p.outcomes)

/-- Several inserts in a row. -/
def insertBatches :
    List (List τ) → Table.Keyed T.arbiter → Except Violation (Table.Keyed T.arbiter × List Outcome)
  | [], table => pure (table, [])
  | tuples :: batches, table => do
    let (table, outcomes) ← insert T onConflict tuples table
    let (table, rest) ← insertBatches batches table
    pure (table, outcomes ++ rest)

/-- The inserts of single tuples, one after the other. -/
def insertEach :
    List τ → Table.Keyed T.arbiter → Except Violation (Table.Keyed T.arbiter)
  | [], table => .ok table
  | tuple :: tuples, table => do
    let (table, _) ← insert T onConflict [tuple] table
    insertEach tuples table

variable {T onConflict}

/-- A tuple that cannot be a row fails the statement, whatever is stored. -/
theorem insert_refused {tuple : τ} {tuples : List τ} {violation : Violation}
    {table : Table.Keyed T.arbiter} (h : T.accept tuple = .error violation) :
    insert T onConflict (tuple :: tuples) table = .error violation := by
  simp only [insert, List.foldlM_cons, insertTuple, h]
  rfl

theorem insert_update {set : α → α → α} {keeps : ∀ row new, T.arbiter (set row new) = T.arbiter row}
    {tuple : τ} {new row : α} {table : Table.Keyed T.arbiter} (h : T.accept tuple = .ok new)
    (stored : table.lookup (T.arbiter new) = some row) :
    insert T (.doUpdate set keeps) [tuple] table =
      .ok (table.upsert set keeps new, [.updated]) := by
  simp only [insert, List.foldlM_cons, List.foldlM_nil, insertTuple, h]
  simp [bind, Except.bind, stored, pure, Except.pure]

theorem insertBatches_refused {tuple : τ} {tuples : List τ} {batches : List (List τ)}
    {violation : Violation} {table : Table.Keyed T.arbiter} (h : T.accept tuple = .error violation) :
    insertBatches T onConflict ((tuple :: tuples) :: batches) table = .error violation := by
  rw [insertBatches, insert_refused h]
  rfl

theorem insertBatches_single {tuples : List τ} {table : Table.Keyed T.arbiter} :
    insertBatches T onConflict [tuples] table = insert T onConflict tuples table := by
  cases h : insert T onConflict tuples table with
  | error violation => simp [insertBatches, h, bind, Except.bind]
  | ok done => simp [insertBatches, h, bind, Except.bind, pure, Except.pure]

/-- Rows of new keys are appended. -/
theorem insert_absent {tuples : List τ} {news : List α} {table : Table.Keyed T.arbiter}
    (accepted : List.Forall₂ (fun tuple new => T.accept tuple = .ok new) tuples news)
    (distinct : (news.map T.arbiter).Nodup) (distinct' : (news.map T.primary).Nodup)
    (absent : ∀ new ∈ news, T.arbiter new ∉ table.rows.map T.arbiter)
    (absent' : ∀ new ∈ news, T.primary new ∉ table.rows.map T.primary)
    (referring : ∀ new ∈ news, T.references new = true) :
    ∃ table' outcomes, insert T onConflict tuples table = .ok (table', outcomes) ∧
      table'.rows = table.rows ++ news := by
  suffices run : ∀ (p : Progress T.arbiter), p.table = table → ∃ p' : Progress T.arbiter,
      tuples.foldlM (insertTuple T onConflict) p = .ok p' ∧ p'.table.rows = table.rows ++ news by
    obtain ⟨p, done, rows⟩ := run ⟨table, [], []⟩ rfl
    refine ⟨p.table, p.outcomes, ?_, rows⟩
    rw [insert, done]
    rfl
  induction accepted generalizing table with
  | nil => exact fun p same => ⟨p, rfl, by rw [same, List.append_nil]⟩
  | @cons tuple new tuples news taken _ ih =>
    rintro p rfl
    rw [List.forall_mem_cons] at absent absent' referring
    rw [List.map_cons, List.nodup_cons] at distinct distinct'
    have missing : p.table.lookup (T.arbiter new) = none := Table.lookup_eq_none.mpr absent.1
    obtain ⟨table', rows, next⟩ : ∃ table' : Table.Keyed T.arbiter,
        table'.rows = p.table.rows ++ [new] ∧ insertTuple T onConflict p tuple =
          .ok ⟨table', T.arbiter new :: p.written, p.outcomes ++ [.inserted]⟩ := by
      refine ⟨p.table.upsert (fun row _ => row) (fun _ _ => rfl) new,
        Table.upsert_of_absent absent.1, ?_⟩
      simp only [insertTuple, taken, bind, Except.bind, missing, if_neg absent'.1,
        if_pos referring.1]
      rfl
    have unlisted {ρ : Type} [DecidableEq ρ] (f : α → ρ) (apart : f new ∉ news.map f)
        (away : ∀ later ∈ news, f later ∉ p.table.rows.map f) :
        ∀ later ∈ news, f later ∉ table'.rows.map f := by
      intro later stored
      rw [rows, List.map_append, List.mem_append, not_or]
      refine ⟨away later stored, fun same => apart ?_⟩
      rw [← List.mem_singleton.mp same]
      exact List.mem_map_of_mem stored
    obtain ⟨p', done, rows'⟩ := ih distinct.2 distinct'.2
      (unlisted T.arbiter distinct.1 absent.2) (unlisted T.primary distinct'.1 absent'.2)
      referring.2 ⟨table', T.arbiter new :: p.written, p.outcomes ++ [.inserted]⟩ rfl
    refine ⟨p', ?_, by rw [rows', rows, List.append_assoc, List.singleton_append]⟩
    rw [List.foldlM_cons, next]
    exact done

/-- A tuple whose key the statement has not written fares as in a statement of its own. -/
theorem insertTuple_alone {p : Progress T.arbiter} {tuple : τ} {new : α}
    {table : Table.Keyed T.arbiter} {outcomes : List Outcome} (taken : T.accept tuple = .ok new)
    (unwritten : T.arbiter new ∉ p.written)
    (alone : insert T onConflict [tuple] p.table = .ok (table, outcomes)) :
    ∃ p' : Progress T.arbiter, insertTuple T onConflict p tuple = .ok p' ∧ p'.table = table ∧
      ∀ k ∈ p'.written, k = T.arbiter new ∨ k ∈ p.written := by
  have written (k : κ) (h : k ∈ T.arbiter new :: p.written) :
      k = T.arbiter new ∨ k ∈ p.written := List.mem_cons.mp h
  simp only [insert, List.foldlM_cons, List.foldlM_nil, insertTuple, taken, bind, Except.bind,
    pure, Except.pure] at alone ⊢
  cases found : p.table.lookup (T.arbiter new) with
  | some row =>
    simp only [found] at alone ⊢
    cases onConflict with
    | abort => cases alone
    | doNothing =>
      obtain ⟨rfl, -⟩ := Prod.mk.inj (Except.ok.inj alone)
      exact ⟨_, rfl, rfl, fun k h => .inr h⟩
    | doUpdate set keeps =>
      obtain ⟨rfl, -⟩ := Prod.mk.inj (Except.ok.inj alone)
      exact ⟨_, if_neg unwritten, rfl, written⟩
  | none =>
    simp only [found] at alone ⊢
    by_cases fresh : T.primary new ∈ p.table.rows.map T.primary
    · rw [if_pos fresh] at alone
      cases alone
    · by_cases refers : T.references new = true
      · rw [if_neg fresh, if_pos refers] at alone
        obtain ⟨rfl, -⟩ := Prod.mk.inj (Except.ok.inj alone)
        exact ⟨_, (if_neg fresh).trans (if_pos refers), rfl, written⟩
      · rw [if_neg fresh, if_neg refers] at alone
        cases alone

/-- A statement that writes no key twice does what its tuples do alone. -/
theorem insert_each {tuples : List τ} {news : List α} {table table' : Table.Keyed T.arbiter}
    (taken : List.Forall₂ (fun tuple new => T.accept tuple = .ok new) tuples news)
    (distinct : (news.map T.arbiter).Nodup)
    (each : insertEach T onConflict tuples table = .ok table') :
    ∃ outcomes, insert T onConflict tuples table = .ok (table', outcomes) := by
  suffices run : ∀ p : Progress T.arbiter, p.table = table →
      (∀ new ∈ news, T.arbiter new ∉ p.written) → ∃ p' : Progress T.arbiter,
        tuples.foldlM (insertTuple T onConflict) p = .ok p' ∧ p'.table = table' by
    obtain ⟨p, done, rfl⟩ := run ⟨table, [], []⟩ rfl (by simp)
    refine ⟨p.outcomes, ?_⟩
    rw [insert, done]
    rfl
  induction taken generalizing table with
  | nil => exact fun p same _ => ⟨p, rfl, same.trans (Except.ok.inj each)⟩
  | @cons tuple new tuples news accepted _ ih =>
    rintro p rfl unwritten
    rw [List.map_cons, List.nodup_cons] at distinct
    rw [List.forall_mem_cons] at unwritten
    rw [insertEach] at each
    cases alone : insert T onConflict [tuple] p.table with
    | error violation =>
      rw [alone] at each
      cases each
    | ok next =>
    rw [alone] at each
    obtain ⟨p', step, kept, written⟩ := insertTuple_alone accepted unwritten.1 alone
    obtain ⟨p'', done, same⟩ := ih distinct.2 each p' kept fun later stored listed => by
      rcases written _ listed with repeated | before
      · exact distinct.1 (repeated ▸ List.mem_map_of_mem stored)
      · exact unwritten.2 later stored before
    refine ⟨p'', ?_, same⟩
    rw [List.foldlM_cons, step]
    exact done

theorem insertEach_append {tuples tuples' : List τ} {table table' : Table.Keyed T.arbiter}
    (each : insertEach T onConflict (tuples ++ tuples') table = .ok table') :
    ∃ between, insertEach T onConflict tuples table = .ok between ∧
      insertEach T onConflict tuples' between = .ok table' := by
  induction tuples generalizing table with
  | nil => exact ⟨table, rfl, each⟩
  | cons tuple tuples ih =>
    rw [List.cons_append, insertEach] at each
    rw [insertEach]
    cases alone : insert T onConflict [tuple] table with
    | error violation =>
      rw [alone] at each
      cases each
    | ok next =>
      rw [alone] at each
      exact ih each

/-- However the tuples are cut into batches. -/
theorem insertBatches_each {batches : List (List τ)} {news : List α}
    {table table' : Table.Keyed T.arbiter}
    (taken : List.Forall₂ (fun tuple new => T.accept tuple = .ok new) batches.flatten news)
    (distinct : (news.map T.arbiter).Nodup)
    (each : insertEach T onConflict batches.flatten table = .ok table') :
    ∃ outcomes, insertBatches T onConflict batches table = .ok (table', outcomes) := by
  induction batches generalizing news table with
  | nil => exact ⟨[], congrArg (fun t => Except.ok (t, [])) (Except.ok.inj each)⟩
  | cons tuples batches ih =>
    rw [List.flatten_cons] at taken each
    obtain ⟨news, news', rfl, taken, taken'⟩ := Table.forall₂_append_left taken
    rw [List.map_append, List.nodup_append] at distinct
    obtain ⟨between, first, rest⟩ := insertEach_append each
    obtain ⟨outcomes, written⟩ := insert_each taken distinct.1 first
    obtain ⟨outcomes', written'⟩ := ih taken' distinct.2.1 rest
    refine ⟨outcomes ++ outcomes', ?_⟩
    rw [insertBatches, written]
    change insertBatches T onConflict batches between >>= _ = _
    rw [written']
    rfl

end Insert

/-- `BEGIN .. COMMIT`, or `ROLLBACK` when a statement is refused. -/
def withTransaction {σ α : Type} (body : σ → Except Violation (α × σ)) (s : σ) :
    Except Violation α × σ :=
  match body s with
  | .ok (result, s') => (.ok result, s')
  | .error violation => (.error violation, s)

theorem withTransaction_ok {σ α : Type} {body : σ → Except Violation (α × σ)} {s s' : σ}
    {result : α} (h : body s = .ok (result, s')) : withTransaction body s = (.ok result, s') := by
  simp [withTransaction, h]

theorem withTransaction_error {σ α : Type} {body : σ → Except Violation (α × σ)} {s : σ}
    {violation : Violation} (h : body s = .error violation) :
    withTransaction body s = (.error violation, s) := by
  simp [withTransaction, h]

end Sql
