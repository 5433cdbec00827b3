import Finverse.Framework.Ranking

/-! Listing page by page: a page starts behind the last row of the one before. -/

namespace Paging

variable {α κ : Type} (r : α → α → Prop) [DecidableRel r] (key : α → κ) (behind : κ → α → Bool)
  (accepted : κ → Bool)

/-- At most `n` rows behind the cursor. -/
def page (rows : List α) (n : Nat) (cursor : Option κ) : List α :=
  ((rows.filter fun x => cursor.all (behind · x)).insertionSort r).take n

/-- Where the next page starts, if the page is full. -/
def next (n : Nat) (page : List α) : Option κ :=
  if 0 < page.length ∧ page.length = n then page.getLast?.map key else none

/-- All pages from the cursor on, unless the number of requests does not suffice or a cursor is not
accepted. -/
def follow (rows : List α) (n : Nat) : Nat → Option κ → Option (List α)
  | 0, _ => none
  | fuel + 1, cursor =>
    let rows' := page r behind rows n cursor
    match next key n rows' with
    | none => some rows'
    | some cursor' =>
      if accepted cursor' then (follow rows n fuel (some cursor')).map (rows' ++ ·) else none

/-- Every row is visited once, in the order of the list. -/
def Visits (rows : List α) (n : Nat) : Prop :=
  ∃ fuel, follow r key behind accepted rows n fuel none = some (rows.insertionSort r)

variable {r key behind accepted} {rows front back : List α} {n fuel : Nat} {cursor : Option κ} {x : α}

theorem next_eq_some {page : List α} {c : κ} (h : next key n page = some c) :
    page.length = n ∧ 0 < n ∧ ∃ x, page.getLast? = some x ∧ key x = c := by
  unfold next at h
  split at h
  · next full => exact ⟨full.2, full.2 ▸ full.1, Option.map_eq_some_iff.mp h⟩
  · cases h

theorem next_eq_none {page : List α} (h : next key n page = none) : page.length = 0 ∨ page.length ≠ n := by
  unfold next at h
  split at h
  · next full =>
    have some_ : page.getLast? ≠ none := by simpa [List.getLast?_eq_none_iff, ← List.length_pos_iff] using full.1
    exact absurd (Option.map_eq_none_iff.mp h) some_
  · next open_ => omega

/-! ### Orders that the cursors follow -/

section Sorted

variable [IsTrans α r] [Std.Total r] (irrefl : ∀ x, behind (key x) x = false)
  (trans : ∀ c x y, behind c x = true → behind (key x) y = true → behind c y = true)

theorem page_eq (rows : List α) (n : Nat) (cursor : Option κ) : page r behind rows n cursor =
    ((rows.insertionSort r).filter fun x => cursor.all (behind · x)).take n := by
  rw [page, Ranking.filter_insertionSort]

include irrefl trans in
omit [IsTrans α r] [Std.Total r] [DecidableRel r] in
/-- What is behind a row comes after it. -/
theorem filter_behind (agrees : (front ++ x :: back).Pairwise fun x y => behind (key x) y = true) :
    (front ++ x :: back).filter (behind (key x)) = back := by
  rw [List.pairwise_append, List.pairwise_cons] at agrees
  obtain ⟨-, ⟨after, -⟩, before⟩ := agrees
  have none_before : front.filter (behind (key x)) = [] := by
    apply List.filter_eq_nil_iff.mpr
    intro y stored again
    have own := trans _ _ _ again (before y stored x List.mem_cons_self)
    rw [irrefl] at own
    cases own
  rw [List.filter_append, none_before, List.filter_cons_of_neg (by simp [irrefl]),
    List.filter_eq_self.mpr after, List.nil_append]

include irrefl trans in
theorem follow_of_agrees (agrees : (rows.insertionSort r).Pairwise fun x y => behind (key x) y = true)
    (accepts : ∀ x ∈ rows, accepted (key x) = true) (size : 0 < n)
    (split : rows.insertionSort r = front ++ back)
    (rest : ((rows.insertionSort r).filter fun x => cursor.all (behind · x)) = back)
    (enough : back.length < fuel) :
    follow r key behind accepted rows n fuel cursor = some back := by
  induction fuel generalizing front back cursor with
  | zero => omega
  | succ fuel ih =>
    have current : page r behind rows n cursor = back.take n := by rw [page_eq, rest]
    rw [follow, current]
    cases h : next key n (back.take n) with
    | none =>
      have short := next_eq_none h
      rw [List.length_take] at short
      rw [List.take_of_length_le (by omega)]
    | some c =>
      obtain ⟨full, -, x, last, rfl⟩ := next_eq_some h
      rw [List.length_take] at full
      obtain ⟨earlier, shown⟩ := List.getLast?_eq_some_iff.mp last
      have split' : rows.insertionSort r = (front ++ earlier) ++ x :: back.drop n := by
        rw [split, List.append_assoc]
        conv_lhs => rw [← List.take_append_drop n back, shown, List.append_assoc]
        rfl
      have stored : x ∈ rows := by
        rw [← List.mem_insertionSort r, split']
        simp
      have later : ((rows.insertionSort r).filter fun y => (some (key x)).all (behind · y)) =
          back.drop n := by
        rw [split'] at agrees ⊢
        exact filter_behind irrefl trans agrees
      have shorter : (back.drop n).length < fuel := by
        rw [List.length_drop]
        omega
      have split'' : rows.insertionSort r = (front ++ earlier ++ [x]) ++ back.drop n := by simp [split']
      dsimp only
      rw [if_pos (accepts x stored), ih split'' later shorter, Option.map_some, List.take_append_drop]

include irrefl trans in
/-- Where the cursors follow the order of the list, pages of any size visit every row once. -/
theorem visits_of_agrees
    (agrees : (rows.insertionSort r).Pairwise fun x y => behind (key x) y = true)
    (accepts : ∀ x ∈ rows, accepted (key x) = true) (size : 0 < n) :
    Visits r key behind accepted rows n :=
  ⟨_, follow_of_agrees irrefl trans agrees accepts size (List.nil_append _).symm (by simp)
    (Nat.lt_succ_self _)⟩

end Sorted

/-! ### Pages of one row -/

theorem follow_one (trans : ∀ c x y, behind c x = true → behind (key x) y = true → behind c y = true)
    {visited : List α} (h : follow r key behind accepted rows 1 fuel cursor = some visited) :
    (visited.Pairwise fun x y => behind (key x) y = true) ∧
      ∀ x ∈ visited, cursor.all (behind · x) = true ∧ accepted (key x) = true := by
  induction fuel generalizing cursor visited with
  | zero => cases h
  | succ fuel ih =>
    rw [follow] at h
    cases current : page r behind rows 1 cursor with
    | nil =>
      rw [current] at h
      obtain rfl : [] = visited := Option.some.inj h
      simp
    | cons x more =>
      have one : more = [] := by
        have length : (page r behind rows 1 cursor).length ≤ 1 := List.length_take_le 1 _
        rw [current, List.length_cons] at length
        exact List.length_eq_zero_iff.mp (by omega)
      have shown : cursor.all (behind · x) = true := by
        have stored : x ∈ page r behind rows 1 cursor := by simp [current]
        have listed := (List.mem_insertionSort r).mp (List.mem_of_mem_take stored)
        exact (List.mem_filter.mp listed).2
      have following : next key 1 [x] = some (key x) := by simp [next]
      rw [current, one, following] at h
      dsimp only at h
      split at h
      · next accepts =>
        obtain ⟨later, found, rfl⟩ := Option.map_eq_some_iff.mp h
        obtain ⟨ordered, members⟩ := ih found
        refine ⟨List.pairwise_cons.mpr ⟨fun y stored => by simpa using (members y stored).1, ordered⟩, ?_⟩
        intro y stored
        rcases List.mem_cons.mp stored with rfl | stored
        · exact ⟨shown, accepts⟩
        · refine ⟨?_, (members y stored).2⟩
          cases cursor with
          | none => rfl
          | some c => exact trans c x y shown (by simpa using (members y stored).1)
      · cases h

/-- Pages of one row visit every row once only where the cursors follow the order of the list. -/
theorem agrees_of_visits
    (trans : ∀ c x y, behind c x = true → behind (key x) y = true → behind c y = true)
    (visits : Visits r key behind accepted rows 1) :
    ((rows.insertionSort r).Pairwise fun x y => behind (key x) y = true) ∧
      ∀ x ∈ rows, accepted (key x) = true := by
  obtain ⟨fuel, found⟩ := visits
  obtain ⟨agrees, members⟩ := follow_one trans found
  exact ⟨agrees, fun x stored => (members x ((List.mem_insertionSort r).mpr stored)).2⟩

end Paging
