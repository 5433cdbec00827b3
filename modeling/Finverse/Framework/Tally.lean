import Finverse.Framework.OrderedMap
import Mathlib.Algebra.BigOperators.Group.List.Basic
import Mathlib.Data.List.Induction
import Mathlib.Tactic.Abel

/-! Rows by key, in the order in which the keys first came up: tallies, where each row goes into the value
of its key, and groups. -/

namespace Tally

variable {α κ ν A : Type} [DecidableEq κ] {key : α → κ} {into : α → Option ν → ν} {rows : List α}
  {tallies : OrdMap κ ν} {k : κ}

def add (key : α → κ) (into : α → Option ν → ν) (tallies : OrdMap κ ν) (row : α) : OrdMap κ ν :=
  tallies.set (key row) (into row (tallies.get? (key row)))

def tally (key : α → κ) (into : α → Option ν → ν) (tallies : OrdMap κ ν) (rows : List α) : OrdMap κ ν :=
  rows.foldl (add key into) tallies

theorem tally_snoc (row : α) :
    tally key into tallies (rows ++ [row]) = add key into (tally key into tallies rows) row := by
  rw [tally, List.foldl_append]
  rfl

/-- The value of a key comes of its rows. -/
theorem get?_tally : (tally key into tallies rows).get? k =
    (rows.filter (key · = k)).foldl (fun value row => some (into row value)) (tallies.get? k) := by
  induction rows using List.reverseRecOn with
  | nil => rfl
  | append_singleton rows row ih =>
    rw [tally_snoc, add, OrdMap.get?_set, List.filter_append, List.foldl_append]
    by_cases same : key row = k
    · subst same
      rw [if_pos rfl, ih]
      simp
    · rw [if_neg same, ih]
      simp [same]

/-- Rows that are the entries of a map, in any order, make the same map. -/
theorem get?_tally_entries {μ : Type} {m : OrdMap κ μ} {g : κ × μ → α} {f : α → ν}
    (keyed : ∀ e, key (g e) = e.1) (perm : rows.Perm (m.entries.map g)) :
    (tally key (fun row _ => f row) ∅ rows).get? k = (m.get? k).map fun v => f (g (k, v)) := by
  have those : (m.entries.map g).filter (key · = k) = ((m.get? k).map fun v => g (k, v)).toList := by
    have keys : (fun row => decide (key row = k)) ∘ g = fun e => decide (e.1 = k) := by
      funext e
      exact congrArg (fun j => decide (j = k)) (keyed e)
    rw [List.filter_map, keys, OrdMap.filter_key]
    cases m.get? k <;> rfl
  have hit := perm.filter (key · = k)
  rw [those] at hit
  rw [get?_tally]
  cases found : m.get? k with
  | none =>
    rw [found] at hit
    rw [hit.eq_nil]
    rfl
  | some v =>
    rw [found] at hit
    rw [List.perm_singleton.mp hit]
    rfl

theorem mem_tally_keys {j : κ} (there : j ∈ (tally key into tallies rows).entries.map Prod.fst) :
    j ∈ tallies.entries.map Prod.fst ∨ ∃ row ∈ rows, key row = j := by
  induction rows using List.reverseRecOn with
  | nil => exact .inl there
  | append_singleton rows row ih =>
    rw [tally_snoc, add, OrdMap.set, OrdMap.mem_keys_replace] at there
    rcases there with rfl | there
    · exact .inr ⟨row, by simp, rfl⟩
    · refine (ih there).imp_right fun ⟨other, listed, same⟩ => ⟨other, ?_, same⟩
      exact List.mem_append_left _ listed

/-- Where the keys are there already, no key is added. -/
theorem keys_tally (there : ∀ row ∈ rows, key row ∈ tallies.entries.map Prod.fst) :
    (tally key into tallies rows).entries.map Prod.fst = tallies.entries.map Prod.fst := by
  induction rows using List.reverseRecOn with
  | nil => rfl
  | append_singleton rows row ih =>
    have earlier := ih fun other listed => there other (List.mem_append_left _ listed)
    have known : key row ∈ (tally key into tallies rows).entries.map Prod.fst := by
      rw [earlier]
      exact there row (by simp)
    rw [tally_snoc, add, OrdMap.keys_set known, earlier]

/-- Rows of different keys are the entries. -/
theorem entries_tally {f : α → ν} (nodup : (rows.map key).Nodup) :
    (tally key (fun row _ => f row) ∅ rows).entries = rows.map fun row => (key row, f row) := by
  induction rows using List.reverseRecOn with
  | nil => rfl
  | append_singleton rows row ih =>
    rw [List.map_append, List.map_cons, List.map_nil, List.nodup_append] at nodup
    obtain ⟨earlier, -, apart⟩ := nodup
    have keys : (tally key (fun row _ => f row) ∅ rows).entries.map Prod.fst = rows.map key := by
      rw [ih earlier, List.map_map]
      rfl
    have new : key row ∉ (tally key (fun row _ => f row) ∅ rows).entries.map Prod.fst := by
      rw [keys]
      exact fun there => apart _ there _ (List.mem_singleton.mpr rfl) rfl
    rw [tally_snoc, add, OrdMap.entries_set_new new, ih earlier, List.map_append]
    rfl

/-- What holds of the values, and of every value that a row goes into. -/
theorem forall_tally {P : κ → ν → Prop} (first : ∀ e ∈ tallies.entries, P e.1 e.2)
    (more : ∀ row value, (∀ v, value = some v → P (key row) v) → P (key row) (into row value)) :
    ∀ e ∈ (tally key into tallies rows).entries, P e.1 e.2 := by
  induction rows using List.reverseRecOn with
  | nil => exact first
  | append_singleton rows row ih =>
    rintro ⟨j, v⟩ there
    rw [tally_snoc, add, ← OrdMap.get?_eq_some, OrdMap.get?_set] at there
    split at there
    · rename_i same
      obtain rfl := Option.some.inj there
      subst same
      exact more row _ fun v found => ih (key row, v) (OrdMap.get?_eq_some.mp found)
    · exact ih (j, v) (OrdMap.get?_eq_some.mp there)

/-! ### Sums -/

variable [AddCommGroup A] {measure : ν → A} {amount : α → A}

theorem sum_filter (amount : α → A) (p : α → Bool) (rows : List α) :
    ((rows.filter p).map amount).sum = (rows.map fun row => if p row then amount row else 0).sum := by
  induction rows with
  | nil => rfl
  | cons row rows ih =>
    rw [List.map_cons, List.sum_cons, List.filter_cons]
    split
    · rw [List.map_cons, List.sum_cons, ih]
    · rw [ih, zero_add]

theorem sum_set (tallies : OrdMap κ ν) (k : κ) (value : ν) (measure : ν → A) :
    ((tallies.set k value).values.map measure).sum =
      (tallies.values.map measure).sum + (measure value - ((tallies.get? k).map measure).getD 0) := by
  have entries : ∀ es : List (κ × ν), (((OrdMap.replace k value es).map Prod.snd).map measure).sum =
      ((es.map Prod.snd).map measure).sum + (measure value - ((OrdMap.lookup k es).map measure).getD 0) := by
    intro es
    induction es with
    | nil => simp [OrdMap.replace, OrdMap.lookup]
    | cons e es ih =>
      rw [OrdMap.replace, OrdMap.lookup]
      by_cases same : e.1 = k
      · simp only [if_pos same, List.map_cons, List.sum_cons, Option.map_some, Option.getD_some]
        abel
      · simp only [if_neg same, List.map_cons, List.sum_cons, ih]
        abel
  exact entries tallies.entries

/-- All values together grow by what the rows amount to. -/
theorem sum_tally (grows : ∀ row value, measure (into row value) = (value.map measure).getD 0 + amount row) :
    ((tally key into tallies rows).values.map measure).sum =
      (tallies.values.map measure).sum + (rows.map amount).sum := by
  induction rows using List.reverseRecOn with
  | nil => simp [tally]
  | append_singleton rows row ih =>
    rw [tally_snoc, add, sum_set, ih, grows, List.map_append, List.sum_append]
    simp only [List.map_cons, List.map_nil, List.sum_cons, List.sum_nil]
    abel

/-- The value of one key grows by what its rows amount to. -/
theorem measure_tally (grows : ∀ row value, measure (into row value) = (value.map measure).getD 0 + amount row) :
    (((tally key into tallies rows).get? k).map measure).getD 0 =
      ((tallies.get? k).map measure).getD 0 + ((rows.filter (key · = k)).map amount).sum := by
  rw [get?_tally]
  induction rows.filter (key · = k) using List.reverseRecOn with
  | nil => simp
  | append_singleton rows row ih =>
    rw [List.foldl_append, List.map_append, List.sum_append, ← add_assoc, ← ih]
    simp [grows]

end Tally

namespace Grouping

variable {α κ : Type} [DecidableEq κ] {key : α → κ} {rows : List α} {k : κ}

def push (key : α → κ) (groups : OrdMap κ (List α)) (row : α) : OrdMap κ (List α) :=
  groups.set (key row) ((groups.get? (key row)).getD [] ++ [row])

def group (key : α → κ) (rows : List α) : OrdMap κ (List α) := rows.foldl (push key) ∅

theorem group_snoc (row : α) : group key (rows ++ [row]) = push key (group key rows) row := by
  rw [group, List.foldl_append]
  rfl

/-- A group has the rows of its key. -/
theorem get?_group : (group key rows).get? k =
    if rows.filter (key · = k) = [] then none else some (rows.filter (key · = k)) := by
  induction rows using List.reverseRecOn with
  | nil => rfl
  | append_singleton rows row ih =>
    rw [group_snoc, push, OrdMap.get?_set, List.filter_append]
    by_cases same : key row = k
    · subst same
      rw [ih, if_pos rfl]
      by_cases first : rows.filter (key · = key row) = []
      · simp [first]
      · simp [first]
    · rw [if_neg same, ih]
      simp [same]

theorem mem_group {group_ : List α} (found : (group key rows).get? k = some group_) :
    group_ = rows.filter (key · = k) ∧ group_ ≠ [] := by
  rw [get?_group] at found
  split at found
  · cases found
  · rename_i some_
    obtain rfl := Option.some.inj found
    exact ⟨rfl, some_⟩

/-- The groups of some keys are those of the rows with these keys. -/
theorem filter_group (p : κ → Bool) :
    (group key rows).filter (fun j _ => p j) = group key (rows.filter fun row => p (key row)) := by
  induction rows using List.reverseRecOn with
  | nil => rfl
  | append_singleton rows row ih =>
    rw [group_snoc, push, OrdMap.filter_set, List.filter_append]
    by_cases hit : p (key row) = true
    · have kept : ((group key rows).filter fun j _ => p j).get? (key row) =
          (group key rows).get? (key row) := by
        rw [OrdMap.get?_filter]
        cases (group key rows).get? (key row) with
        | none => rfl
        | some group_ => simp [hit]
      have last : [row].filter (fun row => p (key row)) = [row] := by simp [hit]
      rw [if_pos hit, last, group_snoc, push, ← kept, ih]
    · have last : [row].filter (fun row => p (key row)) = [] := by simp [hit]
      rw [if_neg hit, last, List.append_nil, ih]

end Grouping
