import Mathlib.Algebra.BigOperators.Group.Finset.Piecewise
import Mathlib.Algebra.Order.Group.Defs
import Mathlib.Data.Finset.Card
import Mathlib.Tactic.Abel

/-! Transfers between members, and how many of them it takes to clear every balance. -/

namespace Netting

variable {α A : Type} [DecidableEq α]

/-! ### Labels -/

/-- How many groups the labels divide the members into. -/
def groups (members : Finset α) (g : α → α) : ℕ := (members.image g).card

/-- Puts the group of `z` into the group of `y`. -/
def join (g : α → α) (y z : α) : α → α := fun x => if g x = g z then g y else g x

theorem join_linked (g : α → α) (y z : α) : join g y z y = join g y z z := by
  simp [join]

theorem join_congr {g : α → α} {x x' : α} (h : g x = g x') (y z : α) :
    join g y z x = join g y z x' := by
  rw [join, join, h]

theorem groups_join (members : Finset α) (g : α → α) (y z : α) :
    groups members g ≤ groups members (join g y z) + 1 := by
  have covered : members.image g ⊆ insert (g z) (members.image (join g y z)) := by
    intro i hi
    obtain ⟨x, hx, rfl⟩ := Finset.mem_image.mp hi
    by_cases merged : g x = g z
    · exact Finset.mem_insert.mpr (Or.inl merged)
    · apply Finset.mem_insert_of_mem
      exact Finset.mem_image.mpr ⟨x, hx, if_neg merged⟩
  exact (Finset.card_le_card covered).trans (Finset.card_insert_le _ _)

theorem groups_erase {members : Finset α} {g : α → α} {x y : α} (mem : y ∈ members)
    (other : y ≠ x) (same : g y = g x) : groups (members.erase x) g = groups members g := by
  rw [groups, groups]
  congr 1
  apply Finset.Subset.antisymm (Finset.image_subset_image (Finset.erase_subset _ _))
  intro i hi
  obtain ⟨z, hz, rfl⟩ := Finset.mem_image.mp hi
  by_cases removed : z = x
  · rw [removed, ← same]
    exact Finset.mem_image_of_mem g (Finset.mem_erase.mpr ⟨other, mem⟩)
  · exact Finset.mem_image_of_mem g (Finset.mem_erase.mpr ⟨removed, hz⟩)

theorem groups_erase_le (members : Finset α) (g : α → α) (x : α) :
    groups members g ≤ groups (members.erase x) g + 1 := by
  have covered : members.image g ⊆ insert (g x) ((members.erase x).image g) := by
    rw [← Finset.image_insert]
    exact Finset.image_subset_image (Finset.insert_erase_subset x members)
  exact (Finset.card_le_card covered).trans (Finset.card_insert_le _ _)

/-! ### Transfers -/

structure Transfer (α A : Type) where
  payer : α
  payee : α
  amount : A
  deriving DecidableEq, Repr

variable [AddCommGroup A]

/-- The balances after a transfer. It counts for the payer and against the payee. -/
def Transfer.apply (t : Transfer α A) (b : α → A) : α → A := fun x =>
  b x + (if x = t.payer then t.amount else 0) - (if x = t.payee then t.amount else 0)

def settle (ts : List (Transfer α A)) (b : α → A) : α → A := ts.foldl (fun b t => t.apply b) b

def Clears (ts : List (Transfer α A)) (b : α → A) : Prop := ∀ x, settle ts b x = 0

/-- Members of one label form a group, and every group adds up to nothing. -/
def ZeroSum (members : Finset α) (b : α → A) (g : α → α) : Prop :=
  ∀ i, ∑ x ∈ members with g x = i, b x = 0

/-- No division of the members into groups that add up to nothing has more groups. -/
def Finest (members : Finset α) (b : α → A) (g : α → α) : Prop :=
  ZeroSum members b g ∧ ∀ g', ZeroSum members b g' → groups members g' ≤ groups members g

/-- Some finest division has both ends of the transfer in one group. -/
def Together (members : Finset α) (b : α → A) (t : Transfer α A) : Prop :=
  ∃ g, Finest members b g ∧ g t.payer = g t.payee

variable {members : Finset α} {b : α → A} {g : α → α} {t : Transfer α A}
  {ts : List (Transfer α A)}

/-! ### Groups and transfers -/

theorem ZeroSum.union (zero : ZeroSum members b g) (p : α → Prop) [DecidablePred p] :
    ∑ x ∈ members with p (g x), b x = 0 := by
  have maps : ∀ x ∈ {x ∈ members | p (g x)}, g x ∈ members.image g := by
    intro x hx
    exact Finset.mem_image_of_mem g (Finset.mem_filter.mp hx).1
  rw [← Finset.sum_fiberwise_of_maps_to maps]
  apply Finset.sum_eq_zero
  intro i _
  by_cases kept : p i
  · rw [← zero i, Finset.filter_filter]
    congr 1
    apply Finset.filter_congr
    intro x _
    constructor
    · exact And.right
    · rintro rfl
      exact ⟨kept, rfl⟩
  · rw [Finset.filter_filter]
    apply Finset.sum_eq_zero
    intro x hx
    obtain ⟨-, met, rfl⟩ := Finset.mem_filter.mp hx
    exact absurd met kept

theorem apply_outside {x : α} (payer : x ≠ t.payer) (payee : x ≠ t.payee) :
    t.apply b x = b x := by
  simp [Transfer.apply, payer, payee]

/-- A transfer inside a part of the members leaves what the part holds together. -/
theorem sum_apply (part : Finset α) (same : t.payer ∈ part ↔ t.payee ∈ part) :
    ∑ x ∈ part, t.apply b x = ∑ x ∈ part, b x := by
  simp only [Transfer.apply, Finset.sum_sub_distrib, Finset.sum_add_distrib,
    Finset.sum_ite_eq']
  by_cases inside : t.payer ∈ part
  · rw [if_pos inside, if_pos (same.mp inside)]
    abel
  · rw [if_neg inside, if_neg (fun h => inside (same.mpr h))]
    abel

theorem zeroSum_apply (payer : t.payer ∈ members) (payee : t.payee ∈ members)
    (linked : g t.payer = g t.payee) :
    ZeroSum members (t.apply b) g ↔ ZeroSum members b g := by
  have same : ∀ i, t.payer ∈ {x ∈ members | g x = i} ↔ t.payee ∈ {x ∈ members | g x = i} := by
    intro i
    rw [Finset.mem_filter, Finset.mem_filter, linked]
    exact ⟨fun h => ⟨payee, h.2⟩, fun h => ⟨payer, h.2⟩⟩
  exact forall_congr' fun i => by rw [sum_apply _ (same i)]

theorem outside_erase {x : α} (outside : ∀ y ∉ members, b y = 0) (settled : b x = 0) :
    ∀ y ∉ members.erase x, b y = 0 := by
  intro y hy
  by_cases same : y = x
  · rw [same, settled]
  · exact outside y fun mem => hy (Finset.mem_erase.mpr ⟨same, mem⟩)

theorem apply_outside_members (outside : ∀ x ∉ members, b x = 0) (payer : t.payer ∈ members)
    (payee : t.payee ∈ members) : ∀ x ∉ members, t.apply b x = 0 := by
  intro x hx
  have not_payer : x ≠ t.payer := fun h => hx (h ▸ payer)
  have not_payee : x ≠ t.payee := fun h => hx (h ▸ payee)
  rw [apply_outside not_payer not_payee, outside x hx]

/-- Members without a balance change no group's sum. -/
theorem zeroSum_subset {inner outer : Finset α} (sub : inner ⊆ outer)
    (rest : ∀ x ∈ outer, x ∉ inner → b x = 0) : ZeroSum inner b g ↔ ZeroSum outer b g := by
  apply forall_congr'
  intro i
  rw [Finset.sum_subset (Finset.filter_subset_filter _ sub)]
  intro x hx out
  obtain ⟨mem, label⟩ := Finset.mem_filter.mp hx
  exact rest x mem fun inside => out (Finset.mem_filter.mpr ⟨inside, label⟩)

theorem ZeroSum.partner (zero : ZeroSum members b g) {x : α} (mem : x ∈ members)
    (owes : b x ≠ 0) : ∃ y ∈ members, y ≠ x ∧ g y = g x := by
  by_contra alone
  push Not at alone
  apply owes
  rw [← zero (g x)]
  refine (Finset.sum_eq_single x (fun y hy other => ?_) (fun out => ?_)).symm
  · obtain ⟨inside, label⟩ := Finset.mem_filter.mp hy
    exact absurd label (alone y inside other)
  · have inside : x ∈ members.filter fun y => g y = g x := by simp [mem]
    exact absurd inside out

theorem ZeroSum.erase (zero : ZeroSum members b g) {x : α} (settled : b x = 0) :
    ZeroSum (members.erase x) b g := by
  refine (zeroSum_subset (Finset.erase_subset x members) fun y hy out => ?_).mpr zero
  have same : y = x := by simpa [hy] using out
  rw [same, settled]

/-! ### Every way to clear the balances divides the members into groups -/

theorem zeroSum_join (zero : ZeroSum members b g) (y z : α) : ZeroSum members b (join g y z) :=
  fun i => zero.union fun j => (if j = g z then g y else j) = i

theorem exists_linked (inside : ∀ t ∈ ts, t.payer ∈ members ∧ t.payee ∈ members)
    (clears : Clears ts b) :
    ∃ g, ZeroSum members b g ∧ (∀ t ∈ ts, g t.payer = g t.payee) ∧
      members.card ≤ ts.length + groups members g := by
  induction ts generalizing b with
  | nil =>
    refine ⟨id, fun i => Finset.sum_eq_zero fun x _ => clears x, by simp, ?_⟩
    simp [groups]
  | cons t ts ih =>
    obtain ⟨g, zero, linked, count⟩ := ih (fun t ht => inside t (List.mem_cons_of_mem _ ht)) clears
    obtain ⟨payer, payee⟩ := inside t List.mem_cons_self
    have joined := zeroSum_join zero t.payer t.payee
    refine ⟨join g t.payer t.payee, (zeroSum_apply payer payee (join_linked g _ _)).mp joined,
      ?_, ?_⟩
    · intro t' ht'
      rcases List.mem_cons.mp ht' with rfl | ht'
      · exact join_linked g _ _
      · exact join_congr (linked t' ht') _ _
    · have lost := groups_join members g t.payer t.payee
      rw [List.length_cons]
      omega

/-- It takes a transfer for every member but one of each group. -/
theorem Clears.grouping (outside : ∀ x ∉ members, b x = 0) (clears : Clears ts b) :
    ∃ g, ZeroSum members b g ∧ (∀ t ∈ ts, g t.payer = g t.payee) ∧
      members.card ≤ ts.length + groups members g := by
  let ends := ts.map (·.payer) ++ ts.map (·.payee)
  let everyone := members ∪ ends.toFinset
  have inside : ∀ t ∈ ts, t.payer ∈ everyone ∧ t.payee ∈ everyone := by
    intro t ht
    have payer : t.payer ∈ ends := List.mem_append_left _ (List.mem_map_of_mem ht)
    have payee : t.payee ∈ ends := List.mem_append_right _ (List.mem_map_of_mem ht)
    exact ⟨Finset.mem_union_right _ (List.mem_toFinset.mpr payer),
      Finset.mem_union_right _ (List.mem_toFinset.mpr payee)⟩
  obtain ⟨g, zero, linked, count⟩ := exists_linked inside clears
  have sub : members ⊆ everyone := Finset.subset_union_left
  refine ⟨g, (zeroSum_subset sub fun x _ out => outside x out).mpr zero, linked, ?_⟩
  have labels : everyone.image g ⊆ members.image g ∪ (everyone \ members).image g := by
    rw [← Finset.image_union, Finset.union_sdiff_of_subset sub]
  have few : (everyone.image g).card ≤ groups members g + (everyone \ members).card :=
    (Finset.card_le_card labels).trans
      ((Finset.card_union_le _ _).trans (Nat.add_le_add_left Finset.card_image_le _))
  have parts := Finset.card_sdiff_add_card_eq_card sub
  rw [groups] at count
  omega

/-! ### Every division into groups is a way to clear the balances -/

variable [LinearOrder A]

/-- A transfer of something, from one member to another. -/
def Transfer.Proper (t : Transfer α A) : Prop := t.payer ≠ t.payee ∧ 0 < t.amount

/-- The transfer that clears the balance of `x` against `y`. -/
def clearing (b : α → A) (x y : α) : Transfer α A :=
  if b x < 0 then ⟨x, y, -b x⟩ else ⟨y, x, b x⟩

omit [DecidableEq α] in
theorem clearing_ends (b : α → A) (x y : α) :
    (clearing b x y).payer = x ∧ (clearing b x y).payee = y ∨
      (clearing b x y).payer = y ∧ (clearing b x y).payee = x := by
  rw [clearing]
  split
  · exact Or.inl ⟨rfl, rfl⟩
  · exact Or.inr ⟨rfl, rfl⟩

theorem clearing_apply {x y : α} (other : y ≠ x) : (clearing b x y).apply b x = 0 := by
  rw [clearing]
  split
  · simp [Transfer.apply, Ne.symm other]
  · simp [Transfer.apply, Ne.symm other]

variable [IsOrderedAddMonoid A]

omit [DecidableEq α] in
theorem clearing_proper {x y : α} (other : y ≠ x) (owes : b x ≠ 0) : (clearing b x y).Proper := by
  rw [clearing]
  split
  · rename_i negative
    exact ⟨Ne.symm other, neg_pos.mpr negative⟩
  · rename_i positive
    exact ⟨other, lt_of_le_of_ne (not_lt.mp positive) (Ne.symm owes)⟩

/-- Each group is cleared by as many transfers as it has members but one. -/
theorem ZeroSum.clears (zero : ZeroSum members b g) (outside : ∀ x ∉ members, b x = 0) :
    ∃ ts, Clears ts b ∧ (∀ t ∈ ts, t.Proper) ∧ ts.length + groups members g ≤ members.card := by
  induction members using Finset.strongInduction generalizing b with
  | H members ih =>
    by_cases empty : members = ∅
    · subst empty
      exact ⟨[], fun x => outside x (Finset.notMem_empty x), by simp, by simp [groups]⟩
    obtain ⟨x, hx⟩ := Finset.nonempty_iff_ne_empty.mpr empty
    have fewer := Finset.card_erase_of_mem hx
    have some_member := Finset.card_pos.mpr ⟨x, hx⟩
    have smaller := Finset.erase_ssubset hx
    by_cases settled : b x = 0
    · obtain ⟨ts, clears, proper, length⟩ :=
        ih _ smaller (zero.erase settled) (outside_erase outside settled)
      have lost := groups_erase_le members g x
      exact ⟨ts, clears, proper, by omega⟩
    · obtain ⟨y, hy, other, same⟩ := zero.partner hx settled
      let t := clearing b x y
      have ends : t.payer ∈ members ∧ t.payee ∈ members ∧ g t.payer = g t.payee := by
        rcases clearing_ends b x y with ⟨payer, payee⟩ | ⟨payer, payee⟩
        · exact ⟨payer ▸ hx, payee ▸ hy, by rw [payer, payee, same]⟩
        · exact ⟨payer ▸ hy, payee ▸ hx, by rw [payer, payee, same]⟩
      have zero' := (zeroSum_apply ends.1 ends.2.1 ends.2.2).mpr zero
      have cleared : t.apply b x = 0 := clearing_apply other
      obtain ⟨ts, clears, proper, length⟩ := ih _ smaller (zero'.erase cleared)
        (outside_erase (apply_outside_members outside ends.1 ends.2.1) cleared)
      rw [groups_erase hy other same] at length
      refine ⟨t :: ts, clears, ?_, ?_⟩
      · exact List.forall_mem_cons.mpr ⟨clearing_proper other settled, proper⟩
      · rw [List.length_cons]
        omega

/-! ### Fewest transfers -/

/-- It takes at least so many transfers to clear the balances. -/
def Takes (b : α → A) (count : ℕ) : Prop :=
  ∀ ts : List (Transfer α A), (∀ t ∈ ts, t.Proper) → Clears ts b → count ≤ ts.length

/-- A transfer that leaves one of its ends with nothing begins a shortest way to clear the balances
just when it keeps to the groups of a finest division. -/
theorem takes_succ_iff (outside : ∀ x ∉ members, b x = 0) (proper : t.Proper)
    (payer : t.payer ∈ members) (payee : t.payee ∈ members)
    (exhausts : t.apply b t.payer = 0 ∨ t.apply b t.payee = 0)
    (clears : Clears ts (t.apply b)) :
    Takes b (ts.length + 1) ↔ Together members b t ∧ Takes (t.apply b) ts.length := by
  constructor
  · intro takes
    constructor
    · have all : Clears (t :: ts) b := clears
      obtain ⟨g, zero, linked, count⟩ := all.grouping outside
      refine ⟨g, ⟨zero, fun g' zero' => ?_⟩, linked t List.mem_cons_self⟩
      obtain ⟨ts', clears', proper', length'⟩ := zero'.clears outside
      have least := takes ts' proper' clears'
      rw [List.length_cons] at count
      omega
    · intro ts' proper' clears'
      have least := takes (t :: ts') (List.forall_mem_cons.mpr ⟨proper, proper'⟩) clears'
      rw [List.length_cons] at least
      omega
  · rintro ⟨⟨g, ⟨zero, finest⟩, linked⟩, takes⟩ ts' proper' clears'
    obtain ⟨g', zero', -, count⟩ := clears'.grouping outside
    have more := finest g' zero'
    have zero_rest := (zeroSum_apply payer payee linked).mpr zero
    have outside_rest := apply_outside_members outside payer payee
    have some_member := Finset.card_pos.mpr ⟨t.payer, payer⟩
    rcases exhausts with done | done
    · obtain ⟨ts'', clears'', proper'', length''⟩ :=
        (zero_rest.erase done).clears (outside_erase outside_rest done)
      rw [groups_erase payee (Ne.symm proper.1) linked.symm, Finset.card_erase_of_mem payer]
        at length''
      have least := takes ts'' proper'' clears''
      omega
    · obtain ⟨ts'', clears'', proper'', length''⟩ :=
        (zero_rest.erase done).clears (outside_erase outside_rest done)
      rw [groups_erase payer proper.1 linked, Finset.card_erase_of_mem payee] at length''
      have least := takes ts'' proper'' clears''
      omega

end Netting
