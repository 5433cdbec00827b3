import Mathlib.Data.List.Basic
import Mathlib.Data.List.Nodup
import Mathlib.Tactic.Common

/-! A map that lists its entries in the order their keys were first set. -/

/-- Setting an existing key keeps its place; a new key goes to the end. -/
structure OrdMap (κ ν : Type) where
  entries : List (κ × ν)
  nodup : (entries.map Prod.fst).Nodup

namespace OrdMap

variable {κ ν : Type}

@[ext] theorem ext {m n : OrdMap κ ν} (h : m.entries = n.entries) : m = n := by
  cases m; cases n; simpa using h

def empty : OrdMap κ ν := ⟨[], List.nodup_nil⟩

instance : EmptyCollection (OrdMap κ ν) := ⟨empty⟩

def values (m : OrdMap κ ν) : List ν := m.entries.map Prod.snd

variable [DecidableEq κ]

/-! ### Lists of entries -/

def lookup (k : κ) : List (κ × ν) → Option ν
  | [] => none
  | e :: es => if e.1 = k then some e.2 else lookup k es

def replace (k : κ) (v : ν) : List (κ × ν) → List (κ × ν)
  | [] => [(k, v)]
  | e :: es => if e.1 = k then (k, v) :: es else e :: replace k v es

theorem lookup_replace (k j : κ) (v : ν) (es : List (κ × ν)) :
    lookup j (replace k v es) = if k = j then some v else lookup j es := by
  induction es with
  | nil => rfl
  | cons e es ih =>
    by_cases he : e.1 = k
    · by_cases hj : k = j
      · simp [replace, lookup, he, hj]
      · simp [replace, lookup, he, hj]
    · simp only [replace, if_neg he, lookup, ih]
      by_cases hj : e.1 = j
      · have hk : k ≠ j := fun h => he (hj.trans h.symm)
        simp [hj, hk]
      · simp [hj]

theorem mem_keys_replace (k j : κ) (v : ν) (es : List (κ × ν)) :
    j ∈ (replace k v es).map Prod.fst ↔ j = k ∨ j ∈ es.map Prod.fst := by
  induction es with
  | nil => simp [replace]
  | cons e es ih =>
    by_cases he : e.1 = k
    · simp [replace, he]
    · simp only [replace, if_neg he, List.map_cons, List.mem_cons, ih]
      tauto

theorem nodup_replace (k : κ) (v : ν) {es : List (κ × ν)} (h : (es.map Prod.fst).Nodup) :
    ((replace k v es).map Prod.fst).Nodup := by
  induction es with
  | nil => simp [replace]
  | cons e es ih =>
    simp only [List.map_cons, List.nodup_cons] at h
    by_cases he : e.1 = k
    · rw [he] at h
      simp only [replace, if_pos he, List.map_cons, List.nodup_cons]
      exact h
    · simp only [replace, if_neg he, List.map_cons, List.nodup_cons]
      refine ⟨?_, ih h.2⟩
      rw [mem_keys_replace]
      exact fun hk => hk.elim he h.1

theorem mem_of_lookup {k : κ} {v : ν} {es : List (κ × ν)} (h : lookup k es = some v) :
    (k, v) ∈ es := by
  induction es with
  | nil => simp [lookup] at h
  | cons e es ih =>
    by_cases he : e.1 = k
    · simp only [lookup, if_pos he, Option.some.injEq] at h
      rw [← he, ← h]
      exact List.mem_cons_self
    · simp only [lookup, if_neg he] at h
      exact List.mem_cons_of_mem _ (ih h)

theorem lookup_of_mem {k : κ} {v : ν} {es : List (κ × ν)} (hn : (es.map Prod.fst).Nodup)
    (h : (k, v) ∈ es) : lookup k es = some v := by
  induction es with
  | nil => simp at h
  | cons e es ih =>
    simp only [List.map_cons, List.nodup_cons] at hn
    rcases List.mem_cons.mp h with rfl | h
    · simp [lookup]
    · have hk : e.1 ≠ k := fun he => hn.1 (he ▸ List.mem_map_of_mem h)
      simp only [lookup, if_neg hk]
      exact ih hn.2 h

/-! ### The map -/

def get? (m : OrdMap κ ν) (k : κ) : Option ν := lookup k m.entries

def set (m : OrdMap κ ν) (k : κ) (v : ν) : OrdMap κ ν :=
  ⟨replace k v m.entries, nodup_replace k v m.nodup⟩

/-- Removes every entry of which `p` does not hold. -/
def filter (m : OrdMap κ ν) (p : κ → ν → Bool) : OrdMap κ ν :=
  ⟨m.entries.filter fun e => p e.1 e.2, (List.filter_sublist.map _).nodup m.nodup⟩

def erase (m : OrdMap κ ν) (k : κ) : OrdMap κ ν := m.filter fun j _ => decide (j ≠ k)

/-- Changes every value in place. -/
def map (m : OrdMap κ ν) (f : ν → ν) : OrdMap κ ν :=
  ⟨m.entries.map fun e => (e.1, f e.2), by
    rw [List.map_map]
    exact m.nodup⟩

/-- Changes every value in place, by its key. -/
def mapWithKey (m : OrdMap κ ν) (f : κ → ν → ν) : OrdMap κ ν :=
  ⟨m.entries.map fun e => (e.1, f e.1 e.2), by
    rw [List.map_map]
    exact m.nodup⟩

@[simp] theorem get?_empty (k : κ) : (∅ : OrdMap κ ν).get? k = none := rfl

theorem get?_set (m : OrdMap κ ν) (k j : κ) (v : ν) :
    (m.set k v).get? j = if k = j then some v else m.get? j := lookup_replace k j v m.entries

@[simp] theorem get?_set_self (m : OrdMap κ ν) (k : κ) (v : ν) : (m.set k v).get? k = some v := by
  simp [get?_set]

theorem get?_set_ne (m : OrdMap κ ν) {k j : κ} (v : ν) (h : k ≠ j) :
    (m.set k v).get? j = m.get? j := by
  simp [get?_set, h]

/-- The keys stay as they are when a known one is set. -/
theorem keys_set {m : OrdMap κ ν} {k : κ} {v : ν} (known : k ∈ m.entries.map Prod.fst) :
    (m.set k v).entries.map Prod.fst = m.entries.map Prod.fst := by
  have entries : ∀ es : List (κ × ν), k ∈ es.map Prod.fst →
      (replace k v es).map Prod.fst = es.map Prod.fst := by
    intro es known
    induction es with
    | nil => cases known
    | cons e es ih =>
      rw [replace]
      by_cases same : e.1 = k
      · rw [if_pos same, List.map_cons, List.map_cons, same]
      · rw [if_neg same, List.map_cons, List.map_cons, ih]
        exact (List.mem_cons.mp known).resolve_left (Ne.symm same)
  exact entries m.entries known

theorem get?_eq_some {m : OrdMap κ ν} {k : κ} {v : ν} :
    m.get? k = some v ↔ (k, v) ∈ m.entries :=
  ⟨mem_of_lookup, lookup_of_mem m.nodup⟩

/-- A new key goes to the end. -/
theorem entries_set_new {m : OrdMap κ ν} {k : κ} {v : ν} (new : k ∉ m.entries.map Prod.fst) :
    (m.set k v).entries = m.entries ++ [(k, v)] := by
  have entries : ∀ es : List (κ × ν), k ∉ es.map Prod.fst → replace k v es = es ++ [(k, v)] := by
    intro es new
    induction es with
    | nil => rfl
    | cons e es ih =>
      rw [List.map_cons, List.mem_cons, not_or] at new
      rw [replace, if_neg (Ne.symm new.1), ih new.2, List.cons_append]
  exact entries m.entries new

/-- Every entry of the other map is set. -/
def addAll (m n : OrdMap κ ν) : OrdMap κ ν := n.entries.foldl (fun m e => m.set e.1 e.2) m

theorem get?_addAll (m n : OrdMap κ ν) (k : κ) : (m.addAll n).get? k = (n.get? k).or (m.get? k) := by
  have entries : ∀ (es : List (κ × ν)) (m : OrdMap κ ν), (es.map Prod.fst).Nodup →
      (es.foldl (fun m e => m.set e.1 e.2) m).get? k = (lookup k es).or (m.get? k) := by
    intro es
    induction es with
    | nil => exact fun m _ => rfl
    | cons e es ih =>
      intro m distinct
      obtain ⟨new, distinct⟩ := List.nodup_cons.mp distinct
      rw [List.foldl_cons, ih _ distinct, get?_set, lookup]
      by_cases same : e.1 = k
      · have nothing : lookup k es = none := by
          cases found : lookup k es with
          | none => rfl
          | some v => exact absurd (List.mem_map_of_mem (f := Prod.fst) (mem_of_lookup found)) (same ▸ new)
        rw [if_pos same, if_pos same, nothing]
        rfl
      · rw [if_neg same, if_neg same]
  exact entries n.entries m n.nodup

theorem filter_key (m : OrdMap κ ν) (k : κ) :
    m.entries.filter (fun e => e.1 = k) = ((m.get? k).map fun v => (k, v)).toList := by
  have entries : ∀ es : List (κ × ν), (es.map Prod.fst).Nodup →
      es.filter (fun e => e.1 = k) = ((lookup k es).map fun v => (k, v)).toList := by
    intro es nodup
    induction es with
    | nil => rfl
    | cons e es ih =>
      obtain ⟨fresh, nodup⟩ := List.nodup_cons.mp nodup
      rw [List.filter_cons, lookup]
      by_cases same : e.1 = k
      · have none_ : es.filter (fun e => e.1 = k) = [] := by
          rw [List.filter_eq_nil_iff]
          intro other there also
          exact fresh (same ▸ of_decide_eq_true also ▸ List.mem_map_of_mem there)
        rw [if_pos (decide_eq_true same), if_pos same, none_, ← same]
        rfl
      · rw [if_neg (by simpa using same), if_neg same, ih nodup]
  exact entries m.entries m.nodup

theorem mem_values {m : OrdMap κ ν} {v : ν} : v ∈ m.values ↔ ∃ k, m.get? k = some v := by
  simp only [values, List.mem_map, get?_eq_some]
  constructor
  · rintro ⟨⟨k, w⟩, he, rfl⟩
    exact ⟨k, he⟩
  · rintro ⟨k, he⟩
    exact ⟨(k, v), he, rfl⟩

theorem get?_mapWithKey (m : OrdMap κ ν) (f : κ → ν → ν) (k : κ) :
    (m.mapWithKey f).get? k = (m.get? k).map (f k) := by
  have entries : ∀ es : List (κ × ν),
      lookup k (es.map fun e => (e.1, f e.1 e.2)) = (lookup k es).map (f k) := by
    intro es
    induction es with
    | nil => rfl
    | cons e es ih =>
      by_cases he : e.1 = k
      · simp [lookup, he]
      · simp only [List.map_cons, lookup, if_neg he, ih]
  exact entries m.entries

theorem get?_map (m : OrdMap κ ν) (f : ν → ν) (k : κ) : (m.map f).get? k = (m.get? k).map f :=
  get?_mapWithKey m (fun _ => f) k

theorem get?_filter (m : OrdMap κ ν) (p : κ → ν → Bool) (k : κ) :
    (m.filter p).get? k = (m.get? k).filter (p k) := by
  ext v
  rw [get?_eq_some, Option.filter_eq_some_iff, get?_eq_some]
  simp [filter]

/-- Choosing entries by their keys, before or after setting one. -/
theorem filter_set (m : OrdMap κ ν) (k : κ) (v : ν) (p : κ → Bool) :
    (m.set k v).filter (fun j _ => p j) =
      if p k = true then (m.filter fun j _ => p j).set k v else m.filter fun j _ => p j := by
  have main (es : List (κ × ν)) : (replace k v es).filter (fun e => p e.1) =
      if p k = true then replace k v (es.filter fun e => p e.1) else es.filter fun e => p e.1 := by
    induction es with
    | nil => by_cases hit : p k = true <;> simp [replace, hit]
    | cons e es ih =>
      rw [replace]
      by_cases same : e.1 = k
      · rw [if_pos same, List.filter_cons, List.filter_cons, same]
        by_cases hit : p k = true
        · simp only [hit, if_true, replace, same]
        · simp only [if_neg hit]
      · rw [if_neg same, List.filter_cons, ih, List.filter_cons]
        by_cases hit : p e.1 = true
        · simp only [hit, if_true, replace, same, if_false]
          split <;> rfl
        · simp only [if_neg hit]
  apply ext
  refine (main m.entries).trans ?_
  split <;> rfl

theorem get?_erase (m : OrdMap κ ν) (k j : κ) :
    (m.erase k).get? j = if j = k then none else m.get? j := by
  rw [erase, get?_filter]
  by_cases h : j = k
  · simp [h]
  · cases hj : m.get? j <;> simp [h, Option.filter]

@[simp] theorem get?_erase_self (m : OrdMap κ ν) (k : κ) : (m.erase k).get? k = none := by
  rw [get?_erase, if_pos rfl]

theorem get?_erase_ne (m : OrdMap κ ν) {k j : κ} (h : k ≠ j) : (m.erase k).get? j = m.get? j := by
  rw [get?_erase, if_neg (Ne.symm h)]

/-- What a map lists, entry by entry: setting a key replaces what its entry lists, if there is one. -/
theorem flatMap_set {β : Type} (m : OrdMap κ ν) (k : κ) (g : κ → ν → List β) :
    ∃ rest, List.Perm (m.entries.flatMap fun e => g e.1 e.2) (((m.get? k).map (g k)).getD [] ++ rest) ∧
      ∀ v, List.Perm ((m.set k v).entries.flatMap fun e => g e.1 e.2) (g k v ++ rest) := by
  suffices main : ∀ es : List (κ × ν), ∃ rest,
      List.Perm (es.flatMap fun e => g e.1 e.2) (((lookup k es).map (g k)).getD [] ++ rest) ∧
        ∀ v, List.Perm ((replace k v es).flatMap fun e => g e.1 e.2) (g k v ++ rest) from
    main m.entries
  intro es
  induction es with
  | nil => exact ⟨[], by simp [lookup], fun v => by simp [replace]⟩
  | cons e es ih =>
    by_cases he : e.1 = k
    · refine ⟨es.flatMap fun e => g e.1 e.2, ?_, fun v => ?_⟩
      · rw [lookup, if_pos he, List.flatMap_cons, he]
        exact .refl _
      · rw [replace, if_pos he, List.flatMap_cons]
    · obtain ⟨rest, old, new⟩ := ih
      refine ⟨g e.1 e.2 ++ rest, ?_, fun v => ?_⟩
      · rw [lookup, if_neg he, List.flatMap_cons]
        exact (old.append_left _).trans (List.perm_append_comm_assoc ..)
      · rw [replace, if_neg he, List.flatMap_cons]
        exact ((new v).append_left _).trans (List.perm_append_comm_assoc ..)

/-- What a map lists when only one key has anything to list. -/
theorem flatMap_of_others_nil {β : Type} (m : OrdMap κ ν) (k : κ) {g : κ × ν → List β}
    (others : ∀ e ∈ m.entries, e.1 ≠ k → g e = []) :
    m.entries.flatMap g = ((m.get? k).map fun v => g (k, v)).getD [] := by
  suffices main : ∀ es : List (κ × ν), (es.map Prod.fst).Nodup → (∀ e ∈ es, e.1 ≠ k → g e = []) →
      es.flatMap g = ((lookup k es).map fun v => g (k, v)).getD [] from
    main m.entries m.nodup others
  intro es distinct others
  induction es with
  | nil => rfl
  | cons e es ih =>
    rw [List.map_cons, List.nodup_cons] at distinct
    have rest := ih distinct.2 fun e' there => others e' (List.mem_cons_of_mem _ there)
    rw [lookup, List.flatMap_cons]
    by_cases here : e.1 = k
    · have nothing : es.flatMap g = [] := by
        refine List.flatMap_eq_nil_iff.mpr fun e' there => ?_
        refine others e' (List.mem_cons_of_mem _ there) ?_
        rintro rfl
        exact distinct.1 (here ▸ List.mem_map_of_mem there)
      rw [if_pos here, nothing, List.append_nil, ← here]
      rfl
    · rw [if_neg here, others e List.mem_cons_self here, rest, List.nil_append]

/-! ### Sweeps -/

/-- Goes over a snapshot of the values and sets `change v` under `key v` for each `v` that `p`
selects. -/
def sweep (key : ν → κ) (p : ν → Bool) (change : ν → ν) (m : OrdMap κ ν) : OrdMap κ ν :=
  m.values.foldl (fun acc v => if p v then acc.set (key v) (change v) else acc) m

theorem get?_foldl_sweep (key : ν → κ) (p : ν → Bool) (change : ν → ν) (k : κ) (vs : List ν)
    (acc : OrdMap κ ν) (hk : ∀ v ∈ vs, key v ≠ k) :
    (vs.foldl (fun acc v => if p v then acc.set (key v) (change v) else acc) acc).get? k =
      acc.get? k := by
  induction vs generalizing acc with
  | nil => rfl
  | cons v vs ih =>
    rw [List.foldl_cons, ih _ fun w hw => hk w (List.mem_cons_of_mem _ hw)]
    split
    · exact get?_set_ne _ _ (hk v List.mem_cons_self)
    · rfl

/-- A value that no change comes to was there before the sweep. -/
theorem get?_of_sweep {key : ν → κ} {p : ν → Bool} {change : ν → ν} {m : OrdMap κ ν} {k : κ} {v : ν}
    (found : (m.sweep key p change).get? k = some v) (other : ∀ w, change w ≠ v) : m.get? k = some v := by
  have main : ∀ (vs : List ν) (acc : OrdMap κ ν),
      (vs.foldl (fun acc v => if p v then acc.set (key v) (change v) else acc) acc).get? k = some v →
        acc.get? k = some v := by
    intro vs
    induction vs with
    | nil => exact fun _ found => found
    | cons w vs ih =>
      intro acc found
      have before := ih _ found
      dsimp only at before
      split at before
      · rw [get?_set] at before
        split at before
        · exact absurd (Option.some.inj before) (other w)
        · exact before
      · exact before
  exact main m.values m found

/-- When every value is stored under its own key, a sweep changes exactly the selected values. -/
theorem get?_sweep (key : ν → κ) (p : ν → Bool) (change : ν → ν) (m : OrdMap κ ν)
    (keyed : ∀ k v, m.get? k = some v → key v = k) (k : κ) :
    (m.sweep key p change).get? k = (m.get? k).map fun v => if p v then change v else v := by
  have main : ∀ (es : List (κ × ν)) (acc : OrdMap κ ν), (es.map Prod.fst).Nodup →
      (∀ e ∈ es, key e.2 = e.1) →
      ((es.map Prod.snd).foldl
        (fun acc v => if p v then acc.set (key v) (change v) else acc) acc).get? k =
        match lookup k es with
        | some v => if p v then some (change v) else acc.get? k
        | none => acc.get? k := by
    intro es
    induction es with
    | nil => intros; rfl
    | cons e es ih =>
      intro acc hn hkey
      simp only [List.map_cons, List.nodup_cons] at hn
      simp only [List.map_cons, List.foldl_cons]
      by_cases he : e.1 = k
      · rw [get?_foldl_sweep]
        · by_cases hp : p e.2 = true <;> simp [lookup, hkey e List.mem_cons_self, he, hp]
        · intro v hv
          obtain ⟨e', he', rfl⟩ := List.mem_map.mp hv
          rw [hkey e' (List.mem_cons_of_mem _ he')]
          exact fun h => hn.1 (he.trans h.symm ▸ List.mem_map_of_mem he')
      · rw [ih _ hn.2 fun e' he' => hkey e' (List.mem_cons_of_mem _ he')]
        have hacc : (if p e.2 = true then acc.set (key e.2) (change e.2) else acc).get? k =
            acc.get? k := by
          split
          · exact get?_set_ne _ _ (by rwa [hkey e List.mem_cons_self])
          · rfl
        simp only [lookup, if_neg he, hacc]
  rw [sweep, values, main m.entries m m.nodup fun e he =>
    keyed e.1 e.2 (get?_eq_some.mpr he)]
  change (match m.get? k with
    | some v => if p v = true then some (change v) else m.get? k
    | none => m.get? k) = _
  cases hm : m.get? k with
  | none => rfl
  | some v => by_cases hp : p v = true <;> simp [hp]

end OrdMap
