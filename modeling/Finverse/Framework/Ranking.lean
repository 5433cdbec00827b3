import Mathlib.Data.List.Sort

/-! The first match in a sorted list: the least of the matches, and the first of equal ones. And the
value at a place of a sorted list, by counting. -/

namespace Ranking

variable {α : Type} {r : α → α → Prop} {p : α → Bool} {rows : List α} {x y : α}

/-- `x` matches and ranks before every other match. -/
def Foremost (r : α → α → Prop) (p : α → Bool) (rows : List α) (x : α) : Prop :=
  ∃ earlier later, rows = earlier ++ x :: later ∧ p x = true ∧
    (∀ y ∈ earlier, p y = true → ¬r y x) ∧ ∀ y ∈ later, p y = true → r x y

theorem Foremost.mem (foremost : Foremost r p rows x) : x ∈ rows ∧ p x = true := by
  obtain ⟨earlier, later, rfl, hit, -⟩ := foremost
  exact ⟨by simp, hit⟩

theorem Foremost.le [Std.Total r] (foremost : Foremost r p rows x) (stored : y ∈ rows)
    (hit : p y = true) : r x y := by
  obtain ⟨earlier, later, rfl, -, before, after⟩ := foremost
  rcases List.mem_append.mp stored with first | second
  · exact (Std.Total.total x y).resolve_right (before y first hit)
  · rcases List.mem_cons.mp second with rfl | behind
    · exact (Std.Total.total y y).elim id id
    · exact after y behind hit

theorem foremost_cons {row : α} : Foremost r p (row :: rows) x ↔
    (x = row ∧ p row = true ∧ ∀ y ∈ rows, p y = true → r row y) ∨
      Foremost r p rows x ∧ (p row = true → ¬r row x) := by
  constructor
  · rintro ⟨earlier, later, split, hit, before, after⟩
    cases earlier with
    | nil =>
      obtain ⟨rfl, rfl⟩ := List.cons.inj split
      exact .inl ⟨rfl, hit, after⟩
    | cons first earlier =>
      obtain ⟨rfl, rfl⟩ := List.cons.inj split
      rw [List.forall_mem_cons] at before
      exact .inr ⟨⟨earlier, later, rfl, hit, before.2, after⟩, before.1⟩
  · rintro (⟨rfl, hit, after⟩ | ⟨⟨earlier, later, rfl, hit, before, after⟩, first⟩)
    · exact ⟨[], rows, rfl, hit, by simp, after⟩
    · exact ⟨row :: earlier, later, rfl, hit, List.forall_mem_cons.mpr ⟨first, before⟩, after⟩

section Sorting

variable [DecidableRel r] [IsTrans α r]

theorem find?_orderedInsert {row : α} (sorted : rows.Pairwise r) :
    (rows.orderedInsert r row).find? p =
      if p row = true then
        match rows.find? p with
        | none => some row
        | some y => if r row y then some row else some y
      else rows.find? p := by
  induction rows with
  | nil =>
    rw [List.orderedInsert_nil]
    by_cases hit : p row = true <;> simp [hit]
  | cons first rows ih =>
    have rest := ih (List.pairwise_cons.mp sorted).2
    by_cases front : r row first
    · rw [List.orderedInsert_cons_of_le _ _ front]
      by_cases hit : p row = true
      · rw [List.find?_cons_of_pos hit, if_pos hit]
        cases found : (first :: rows).find? p with
        | none => rfl
        | some y =>
          have stored := List.mem_of_find?_eq_some found
          have ranks : r row y := by
            rcases List.mem_cons.mp stored with rfl | later
            · exact front
            · exact IsTrans.trans _ _ _ front ((List.pairwise_cons.mp sorted).1 y later)
          exact (if_pos ranks).symm
      · rw [List.find?_cons_of_neg hit, if_neg hit]
    · rw [List.orderedInsert_of_not_le _ _ front]
      by_cases earlier : p first = true
      · rw [List.find?_cons_of_pos earlier, List.find?_cons_of_pos earlier]
        by_cases hit : p row = true <;> simp [hit, front]
      · rw [List.find?_cons_of_neg earlier, List.find?_cons_of_neg earlier, rest]

/-- The first match of a sorted list is the match that ranks before all others. -/
theorem find?_insertionSort_iff [Std.Total r] :
    (rows.insertionSort r).find? p = some x ↔ Foremost r p rows x := by
  induction rows generalizing x with
  | nil =>
    rw [List.insertionSort_nil, List.find?_nil]
    refine ⟨fun found => (by cases found), fun foremost => ?_⟩
    exact absurd foremost.mem.1 (List.not_mem_nil)
  | cons row rows ih =>
    rw [List.insertionSort_cons, find?_orderedInsert (List.pairwise_insertionSort r rows),
      foremost_cons]
    by_cases hit : p row = true
    · rw [if_pos hit]
      cases found : (rows.insertionSort r).find? p with
      | none =>
        have missed : ∀ y ∈ rows, p y = true → False := by
          intro y stored match_
          have none_matches := List.find?_eq_none.mp found y ((List.mem_insertionSort r).mpr stored)
          exact none_matches match_
        constructor
        · intro same
          obtain rfl := Option.some.inj same
          exact .inl ⟨rfl, hit, fun y stored match_ => (missed y stored match_).elim⟩
        · rintro (⟨rfl, -⟩ | ⟨foremost, -⟩)
          · rfl
          · exact (missed x foremost.mem.1 foremost.mem.2).elim
      | some y =>
        dsimp only
        have best := ih.mp found
        have only : ∀ z, Foremost r p rows z → z = y := fun z other =>
          Option.some.inj ((ih.mpr other).symm.trans found)
        by_cases ranks : r row y
        · rw [if_pos ranks]
          constructor
          · intro same
            obtain rfl := Option.some.inj same
            exact .inl ⟨rfl, hit, fun z stored match_ =>
              IsTrans.trans _ _ _ ranks (best.le stored match_)⟩
          · rintro (⟨rfl, -⟩ | ⟨other, before⟩)
            · rfl
            · obtain rfl := only x other
              exact absurd ranks (before hit)
        · rw [if_neg ranks]
          constructor
          · intro same
            obtain rfl := Option.some.inj same
            exact .inr ⟨best, fun _ => ranks⟩
          · rintro (⟨rfl, -, least⟩ | ⟨other, -⟩)
            · exact absurd (least y best.mem.1 best.mem.2) ranks
            · rw [only x other]
    · rw [if_neg hit, ih]
      simp [hit]

omit [IsTrans α r] in
theorem orderedInsert_least {row : α} (least : ∀ y ∈ rows, r row y) :
    rows.orderedInsert r row = row :: rows := by
  cases rows with
  | nil => rfl
  | cons first rows => rw [List.orderedInsert, if_pos (least first List.mem_cons_self)]

theorem filter_orderedInsert {row : α} (sorted : rows.Pairwise r) :
    (rows.orderedInsert r row).filter p =
      if p row = true then (rows.filter p).orderedInsert r row else rows.filter p := by
  induction rows with
  | nil => by_cases hit : p row = true <;> simp [hit]
  | cons first rows ih =>
    obtain ⟨least, rest⟩ := List.pairwise_cons.mp sorted
    rw [List.orderedInsert]
    by_cases ranks : r row first
    · rw [if_pos ranks, List.filter_cons]
      by_cases hit : p row = true
      · have before : ∀ y ∈ (first :: rows).filter p, r row y := by
          intro y stored
          rcases List.mem_cons.mp (List.mem_filter.mp stored).1 with rfl | later
          · exact ranks
          · exact IsTrans.trans _ _ _ ranks (least y later)
        rw [if_pos hit, if_pos hit, orderedInsert_least before]
      · rw [if_neg hit, if_neg hit]
    · rw [if_neg ranks, List.filter_cons, ih rest, List.filter_cons]
      by_cases hit : p first = true
      · rw [if_pos hit, if_pos hit, List.orderedInsert, if_neg ranks]
        split <;> rfl
      · rw [if_neg hit, if_neg hit]

/-- A stable sort and a choice of rows may change places. -/
theorem filter_insertionSort [Std.Total r] (rows : List α) :
    (rows.insertionSort r).filter p = (rows.filter p).insertionSort r := by
  induction rows with
  | nil => rfl
  | cons row rows ih =>
    rw [List.insertionSort_cons, filter_orderedInsert (List.pairwise_insertionSort r rows), ih,
      List.filter_cons]
    split <;> rfl

theorem pairwise_orderedInsert_iff {P : α → α → Prop} {row : α} (sorted : rows.Pairwise r) :
    (rows.orderedInsert r row).Pairwise P ↔
      (∀ y ∈ rows, if r row y then P row y else P y row) ∧ rows.Pairwise P := by
  induction rows with
  | nil => simp
  | cons first rows ih =>
    obtain ⟨least, rest⟩ := List.pairwise_cons.mp sorted
    rw [List.orderedInsert]
    by_cases ranks : r row first
    · have before : ∀ y ∈ first :: rows, r row y := by
        intro y stored
        rcases List.mem_cons.mp stored with rfl | later
        · exact ranks
        · exact IsTrans.trans _ _ _ ranks (least y later)
      rw [if_pos ranks, List.pairwise_cons]
      apply and_congr_left
      intro _
      apply forall₂_congr
      intro y stored
      rw [if_pos (before y stored)]
    · have members : ∀ y, y ∈ rows.orderedInsert r row ↔ y = row ∨ y ∈ rows := fun y => by
        rw [(List.perm_orderedInsert r row rows).mem_iff, List.mem_cons]
      rw [if_neg ranks, List.pairwise_cons, ih rest, List.forall_mem_cons, if_neg ranks,
        List.pairwise_cons]
      simp only [members, forall_eq_or_imp]
      tauto

/-- What holds from row to row of a sorted list, of the rows as they come. -/
theorem pairwise_insertionSort_iff [Std.Total r] {P : α → α → Prop} (rows : List α) :
    (rows.insertionSort r).Pairwise P ↔
      rows.Pairwise fun x y => if r x y then P x y else P y x := by
  induction rows with
  | nil => simp
  | cons row rows ih =>
    rw [List.insertionSort_cons,
      pairwise_orderedInsert_iff (List.pairwise_insertionSort r rows), ih, List.pairwise_cons]
    simp only [List.mem_insertionSort]

end Sorting

/-- There is one order only in which `r` puts the rows. -/
structure Orders (r : α → α → Prop) (rows : List α) : Prop where
  total : ∀ x ∈ rows, ∀ y ∈ rows, r x y ∨ r y x
  trans : ∀ x ∈ rows, ∀ y ∈ rows, ∀ z ∈ rows, r x y → r y z → r x z
  antisymm : ∀ x ∈ rows, ∀ y ∈ rows, r x y → r y x → x = y

namespace Orders

variable {rows' : List α}

theorem subset (h : Orders r rows) (sub : rows' ⊆ rows) : Orders r rows' where
  total x hx y hy := h.total x (sub hx) y (sub hy)
  trans x hx y hy z hz := h.trans x (sub hx) y (sub hy) z (sub hz)
  antisymm x hx y hy := h.antisymm x (sub hx) y (sub hy)

variable [DecidableRel r]

theorem pairwise_insertionSort (h : Orders r rows) : (rows.insertionSort r).Pairwise r := by
  let within : {x // x ∈ rows} → {x // x ∈ rows} → Prop := fun x y => r x y
  have total : Std.Total within := ⟨fun x y => h.total x x.2 y y.2⟩
  have trans : IsTrans _ within := ⟨fun x y z => h.trans x x.2 y y.2 z z.2⟩
  have sorted : (rows.attach.insertionSort within).map Subtype.val = rows.insertionSort r := by
    rw [List.map_insertionSort within r Subtype.val rows.attach fun _ _ _ _ => Iff.rfl,
      List.attach_map_subtype_val]
  rw [← sorted]
  exact List.pairwise_map.mpr (List.pairwise_insertionSort within rows.attach)

theorem insertionSort_eq (h : Orders r rows) (perm : rows.Perm rows') :
    rows.insertionSort r = rows'.insertionSort r := by
  have h' : Orders r rows' := h.subset perm.symm.subset
  have sorted : (rows.insertionSort r).Perm (rows'.insertionSort r) :=
    ((List.perm_insertionSort r rows).trans perm).trans (List.perm_insertionSort r rows').symm
  apply List.Perm.eq_of_pairwise _ h.pairwise_insertionSort h'.pairwise_insertionSort sorted
  intro x y hx hy
  exact h.antisymm x ((List.mem_insertionSort r).mp hx) y
    (perm.symm.subset ((List.mem_insertionSort r).mp hy))

end Orders

section Contest

variable {κ β : Type} [DecidableEq κ] [LinearOrder β] (score : α → β) (side : α → κ)

/-- The best first, and of equal ones as they come. -/
def ranked (rows : List α) : List α := rows.insertionSort fun x y => score y ≤ score x

variable {score side} {near : β → β → Prop} {c : κ}

theorem score_le_head {best : α} (first : (ranked score rows).head? = some best) (stored : x ∈ rows) :
    score x ≤ score best := by
  have total : Std.Total fun x y => score y ≤ score x := ⟨fun x y => le_total _ _⟩
  have trans : IsTrans α fun x y => score y ≤ score x := ⟨fun _ _ _ h h' => h'.trans h⟩
  obtain ⟨rest, split⟩ : ∃ rest, ranked score rows = best :: rest := List.head?_eq_some_iff.mp first
  have sorted := List.pairwise_insertionSort (fun x y => score y ≤ score x) rows
  have listed : x ∈ ranked score rows := (List.mem_insertionSort _).mpr stored
  rw [ranked] at split listed
  rw [split] at sorted listed
  rcases List.mem_cons.mp listed with rfl | later
  · exact le_rfl
  · exact (List.pairwise_cons.mp sorted).1 x later

/-- The best is on a side and the first of another side is not near it, if and only if one of the side
has none of another side near it or above. -/
theorem contest_iff (above : ∀ s s', s ≤ s' → near s s') (lower : ∀ s₁ s₂ s', s₁ ≤ s₂ → near s₂ s' → near s₁ s')
    (higher : ∀ s s₁ s₂, s₁ ≤ s₂ → near s s₁ → near s s₂) :
    (∃ best, (ranked score rows).head? = some best ∧ side best = c ∧
      ∀ y, (ranked score rows).find? (fun z => side z ≠ side best) = some y → ¬near (score best) (score y)) ↔
      ∃ x ∈ rows, side x = c ∧ ∀ y ∈ rows, side y ≠ c → ¬near (score x) (score y) := by
  have total : Std.Total fun x y => score y ≤ score x := ⟨fun x y => le_total _ _⟩
  have trans : IsTrans α fun x y => score y ≤ score x := ⟨fun _ _ _ h h' => h'.trans h⟩
  constructor
  · rintro ⟨best, first, rfl, clear⟩
    refine ⟨best, (List.mem_insertionSort _).mp (List.mem_of_head? first), rfl, fun y stored other close => ?_⟩
    cases found : (ranked score rows).find? fun z => side z ≠ side best with
    | none =>
      have missed := List.find?_eq_none.mp found y ((List.mem_insertionSort _).mpr stored)
      exact missed (by simpa using other)
    | some rival =>
      have foremost := find?_insertionSort_iff.mp found
      exact clear rival found (higher _ _ _ (foremost.le stored (by simpa using other)) close)
  · rintro ⟨x, stored, rfl, clear⟩
    cases first : (ranked score rows).head? with
    | none =>
      have listed : x ∈ ranked score rows := (List.mem_insertionSort _).mpr stored
      rw [List.head?_eq_none_iff.mp first] at listed
      cases listed
    | some best =>
      have bestStored : best ∈ rows := (List.mem_insertionSort _).mp (List.mem_of_head? first)
      have same : side best = side x := by
        by_contra other
        exact clear best bestStored other (above _ _ (score_le_head first stored))
      refine ⟨best, rfl, same, fun y found close => ?_⟩
      obtain ⟨rivalStored, other⟩ := (find?_insertionSort_iff.mp found).mem
      exact clear y rivalStored (by simpa [same] using other)
        (lower _ _ _ (score_le_head first stored) close)

end Contest

section OrderStatistics

variable {β : Type} [LinearOrder β] {sorted rows : List β} {k : Nat} {x : β}

/-- In a falling list the values above `x` stand before `x`, and those below behind. -/
theorem getElem?_falling_iff (falling : sorted.Pairwise (· ≥ ·)) :
    sorted[k]? = some x ↔ sorted.countP (x < ·) ≤ k ∧ k < sorted.countP (x ≤ ·) := by
  induction sorted generalizing k with
  | nil => simp
  | cons a sorted ih =>
    obtain ⟨first, rest⟩ := List.pairwise_cons.mp falling
    rcases lt_trichotomy x a with above | rfl | below
    · rw [List.countP_cons_of_pos (by simpa using above),
        List.countP_cons_of_pos (by simpa using above.le)]
      cases k with
      | zero => simpa using above.ne'
      | succ k =>
        rw [List.getElem?_cons_succ, ih rest]
        omega
    · have none_above : sorted.countP (x < ·) = 0 :=
        List.countP_eq_zero.mpr fun y stored => by simpa using first y stored
      rw [List.countP_cons_of_neg (by simp), List.countP_cons_of_pos (by simp)]
      cases k with
      | zero => simp [none_above]
      | succ k =>
        rw [List.getElem?_cons_succ, ih rest]
        omega
    · have none_reach : sorted.countP (x ≤ ·) = 0 :=
        List.countP_eq_zero.mpr fun y stored => by simpa using (first y stored).trans_lt below
      rw [List.countP_cons_of_neg (by simpa using below.le),
        List.countP_cons_of_neg (by simpa using below)]
      cases k with
      | zero => simpa [none_reach] using below.ne
      | succ k =>
        rw [List.getElem?_cons_succ, ih rest]
        omega

/-- The value at a place from the top, by counting. -/
theorem getElem?_insertionSort_iff : (rows.insertionSort (· ≥ ·))[k]? = some x ↔
    rows.countP (x < ·) ≤ k ∧ k < rows.countP (x ≤ ·) := by
  rw [getElem?_falling_iff (List.pairwise_insertionSort _ rows),
    (List.perm_insertionSort _ rows).countP_eq, (List.perm_insertionSort _ rows).countP_eq]

end OrderStatistics
end Ranking
