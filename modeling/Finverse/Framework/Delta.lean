import Mathlib.Data.List.Basic
import Mathlib.Tactic.Common

/-! Deltas on keyed collections: values that are written, keys that are removed. -/

namespace Delta

variable {κ α : Type} [DecidableEq κ]

/-- A collection holds at most one value under each key. -/
abbrev Collection (κ α : Type) : Type := κ → Option α

end Delta

/-- The writes come first, in order. -/
structure Delta (κ α : Type) where
  written : List α
  removed : List κ

namespace Delta

variable {κ α : Type} [DecidableEq κ] {key : α → κ}

def put (key : α → κ) (s : Collection κ α) (a : α) : Collection κ α :=
  fun k => if k = key a then some a else s k

def apply (key : α → κ) (s : Collection κ α) (d : Delta κ α) : Collection κ α :=
  fun k => if k ∈ d.removed then none else d.written.foldl (put key) s k

def applyAll (key : α → κ) (ds : List (Delta κ α)) (s : Collection κ α) : Collection κ α :=
  ds.foldl (apply key) s

/-- The delta says something about the key. -/
def Lists (key : α → κ) (d : Delta κ α) (k : κ) : Prop := k ∈ d.removed ∨ k ∈ d.written.map key

/-- Some delta says something about the key. -/
def Listed (key : α → κ) (ds : List (Delta κ α)) (k : κ) : Prop := ∃ d ∈ ds, d.Lists key k

theorem written_unlisted {as : List α} {s : Collection κ α} {k : κ} (h : k ∉ as.map key) :
    as.foldl (put key) s k = s k := by
  induction as generalizing s with
  | nil => rfl
  | cons a as ih =>
    rw [List.map_cons, List.mem_cons, not_or] at h
    rw [List.foldl_cons, ih h.2, put, if_neg h.1]

theorem written_listed {as : List α} {s t : Collection κ α} {k : κ} (h : k ∈ as.map key) :
    as.foldl (put key) s k = as.foldl (put key) t k := by
  induction as generalizing s t with
  | nil => simp at h
  | cons a as ih =>
    rw [List.foldl_cons, List.foldl_cons]
    by_cases has : k ∈ as.map key
    · exact ih has
    · have ha : k = key a := by
        rw [List.map_cons, List.mem_cons] at h
        exact h.resolve_right has
      rw [written_unlisted has, written_unlisted has, put, put, if_pos ha, if_pos ha]

theorem apply_unlisted {d : Delta κ α} {s : Collection κ α} {k : κ} (h : ¬d.Lists key k) :
    apply key s d k = s k := by
  rw [Lists, not_or] at h
  rw [apply, if_neg h.1, written_unlisted h.2]

/-- What a delta says of a key does not depend on what was there. -/
theorem apply_listed {d : Delta κ α} {s t : Collection κ α} {k : κ} (h : d.Lists key k) :
    apply key s d k = apply key t d k := by
  rw [apply, apply]
  by_cases hr : k ∈ d.removed
  · rw [if_pos hr, if_pos hr]
  · rw [if_neg hr, if_neg hr, written_listed (h.resolve_left hr)]

theorem apply_congr {d : Delta κ α} {s t : Collection κ α} {k : κ} (h : s k = t k) :
    apply key s d k = apply key t d k := by
  by_cases hl : d.Lists key k
  · exact apply_listed hl
  · rw [apply_unlisted hl, apply_unlisted hl, h]

theorem applyAll_append (ds es : List (Delta κ α)) (s : Collection κ α) :
    applyAll key (ds ++ es) s = applyAll key es (applyAll key ds s) :=
  List.foldl_append

theorem applyAll_unlisted {ds : List (Delta κ α)} {s : Collection κ α} {k : κ}
    (h : ¬Listed key ds k) : applyAll key ds s k = s k := by
  induction ds generalizing s with
  | nil => rfl
  | cons d ds ih =>
    have hd : ¬d.Lists key k := fun hd => h ⟨d, by simp, hd⟩
    have hds : ¬Listed key ds k := fun ⟨e, he, hl⟩ => h ⟨e, by simp [he], hl⟩
    calc applyAll key (d :: ds) s k = applyAll key ds (apply key s d) k := rfl
      _ = apply key s d k := ih hds
      _ = s k := apply_unlisted hd

theorem applyAll_congr {ds : List (Delta κ α)} {s t : Collection κ α} {k : κ} (h : s k = t k) :
    applyAll key ds s k = applyAll key ds t k := by
  induction ds generalizing s t with
  | nil => exact h
  | cons d ds ih => exact ih (apply_congr h)

theorem applyAll_listed {ds : List (Delta κ α)} {s t : Collection κ α} {k : κ}
    (h : Listed key ds k) : applyAll key ds s k = applyAll key ds t k := by
  induction ds generalizing s t with
  | nil =>
    obtain ⟨d, hd, -⟩ := h
    simp at hd
  | cons d ds ih =>
    by_cases hd : d.Lists key k
    · have step : apply key s d k = apply key t d k := apply_listed hd
      change applyAll key ds (apply key s d) k = applyAll key ds (apply key t d) k
      exact applyAll_congr step
    · obtain ⟨e, he, hl⟩ := h
      rcases List.mem_cons.mp he with rfl | he
      · exact absurd hl hd
      · exact ih ⟨e, he, hl⟩

/-- Every value lies under its own key. -/
def KeyedBy (key : α → κ) (s : Collection κ α) : Prop := ∀ k a, s k = some a → key a = k

theorem KeyedBy.put {s : Collection κ α} (h : KeyedBy key s) (a : α) :
    KeyedBy key (put key s a) := by
  intro k b hb
  rw [Delta.put] at hb
  split at hb
  · rename_i hk
    rw [← Option.some.inj hb, hk]
  · exact h k b hb

theorem KeyedBy.applyAll {ds : List (Delta κ α)} {s : Collection κ α} (h : KeyedBy key s) :
    KeyedBy key (applyAll key ds s) := by
  induction ds generalizing s with
  | nil => exact h
  | cons d ds ih =>
    apply ih
    have written : ∀ (as : List α) (t : Collection κ α),
        KeyedBy key t → KeyedBy key (as.foldl (Delta.put key) t) := by
      intro as
      induction as with
      | nil => exact fun _ ht => ht
      | cons a as ih => exact fun t ht => ih _ (ht.put a)
    intro k a ha
    rw [Delta.apply] at ha
    split at ha
    · cases ha
    · exact written _ _ h k a ha

/-- The same deltas lead to the same collection exactly when the starts agree wherever the deltas
are silent. -/
theorem applyAll_eq_iff {ds : List (Delta κ α)} {s t : Collection κ α} :
    applyAll key ds s = applyAll key ds t ↔ ∀ k, ¬Listed key ds k → s k = t k := by
  constructor
  · intro h k hk
    calc s k = applyAll key ds s k := (applyAll_unlisted hk).symm
      _ = applyAll key ds t k := by rw [h]
      _ = t k := applyAll_unlisted hk
  · intro h
    funext k
    by_cases hk : Listed key ds k
    · exact applyAll_listed hk
    · rw [applyAll_unlisted hk, applyAll_unlisted hk, h k hk]

end Delta
