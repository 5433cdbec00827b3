import Finverse.Split.Service

/-! Equal splits, and whether their shares would be taken as explicit ones. -/

namespace Finverse.Split

theorem deal_userIds (base remainder : Int) (memberIds : List String) :
    (deal base remainder memberIds).map (·.userId) = memberIds := by
  induction memberIds generalizing remainder with
  | nil => rfl
  | cons userId memberIds ih =>
    rw [deal, List.map_cons, ih]

theorem deal_base_le (base remainder : Int) (memberIds : List String) :
    ∀ share ∈ deal base remainder memberIds, base ≤ share.amount := by
  induction memberIds generalizing remainder with
  | nil => simp [deal]
  | cons userId memberIds ih =>
    refine List.forall_mem_cons.mpr ⟨?_, ih _⟩
    dsimp only
    split <;> omega

/-- There is less to deal out than there are members, so that the last one gets nothing of it. -/
theorem exists_base (base : Int) {remainder : Int} {memberIds : List String} (low : 0 ≤ remainder)
    (high : remainder < memberIds.length) :
    ∃ share ∈ deal base remainder memberIds, share.amount = base := by
  induction memberIds generalizing remainder with
  | nil => exact absurd high (not_lt.mpr low)
  | cons userId memberIds ih =>
    rw [List.length_cons, Nat.cast_succ] at high
    by_cases dealt : remainder > 0
    · obtain ⟨share, mem, amount⟩ := @ih (remainder - 1) (by omega) (by omega)
      refine ⟨share, ?_, amount⟩
      rw [deal, if_pos dealt]
      exact List.mem_cons_of_mem _ mem
    · refine ⟨⟨userId, base + 0⟩, ?_, by simp⟩
      rw [deal, if_neg dealt]
      exact List.mem_cons_self

theorem reconcileShares_ok_iff {amount total : Int} {seen : List String} {shares : List Share} :
    reconcileShares amount seen total shares = .ok () ↔
      (∀ share ∈ shares, 0 < share.amount) ∧ (shares.map (·.userId)).Nodup ∧
        (∀ share ∈ shares, share.userId ∉ seen) ∧
        total + (shares.map (·.amount)).sum = amount := by
  induction shares generalizing seen total with
  | nil => simp [reconcileShares]
  | cons share shares ih =>
    rw [reconcileShares]
    by_cases positive : share.amount ≤ 0
    · rw [if_pos positive]
      simp [not_lt.mpr positive]
    rw [if_neg positive]
    by_cases repeated : share.userId ∈ seen
    · rw [if_pos repeated]
      simp [repeated]
    rw [if_neg repeated, ih]
    simp only [forall_eq_or_imp, List.map_cons, List.nodup_cons, List.sum_cons, List.mem_cons,
      List.mem_map, not_or, not_exists, not_and]
    constructor
    · rintro ⟨others, distinct, unseen, sum⟩
      exact ⟨⟨not_le.mp positive, others⟩, ⟨fun s hs => (unseen s hs).1, distinct⟩,
        ⟨repeated, fun s hs => (unseen s hs).2⟩, by omega⟩
    · rintro ⟨⟨-, others⟩, ⟨fresh, distinct⟩, ⟨-, unseen⟩, sum⟩
      exact ⟨others, distinct, fun s hs => ⟨fresh s hs, unseen s hs⟩, by omega⟩

theorem splitEqually_ok {amount : Int} {memberIds : List String} (positive : 0 < amount)
    (some_member : memberIds ≠ []) :
    splitEqually amount memberIds = .ok (deal (amount / memberIds.length)
      (amount - amount / memberIds.length * memberIds.length) memberIds) := by
  rw [splitEqually, if_neg (not_le.mpr positive), if_neg some_member]

theorem splitEqually_userIds {amount : Int} {memberIds : List String} {shares : List Share}
    (split : splitEqually amount memberIds = .ok shares) :
    shares.map (·.userId) = memberIds := by
  rw [splitEqually] at split
  split at split
  · cases split
  split at split
  · cases split
  rw [← Except.ok.inj split, deal_userIds]

theorem assertSharesReconcile_equal {amount : Int} {memberIds : List String} {shares : List Share}
    (distinct : memberIds.Nodup) (split : splitEqually amount memberIds = .ok shares) :
    assertSharesReconcile amount shares = .ok () ↔ (memberIds.length : Int) ≤ amount := by
  obtain ⟨sum, -⟩ := splitEqually_sum split
  rw [splitEqually] at split
  split at split
  · cases split
  rename_i positive
  split at split
  · cases split
  rename_i some_member
  obtain rfl := Except.ok.inj split
  have members : (0 : Int) < memberIds.length := by
    exact_mod_cast List.length_pos_iff.mpr some_member
  have division := Int.emod_add_mul_ediv amount memberIds.length
  have low := Int.emod_nonneg amount (by omega : (memberIds.length : Int) ≠ 0)
  have high := Int.emod_lt_of_pos amount members
  have commuted := mul_comm (memberIds.length : Int) (amount / memberIds.length)
  have enough : 0 < amount / memberIds.length ↔ (memberIds.length : Int) ≤ amount := by
    rw [Int.lt_iff_add_one_le, zero_add, Int.le_ediv_iff_mul_le members, one_mul]
  rw [assertSharesReconcile, reconcileShares_ok_iff, deal_userIds, ← enough, zero_add]
  constructor
  · rintro ⟨all, -⟩
    have below : amount - amount / memberIds.length * memberIds.length < memberIds.length := by
      omega
    obtain ⟨share, mem, last⟩ := exists_base (amount / memberIds.length) (by omega) below
    exact last ▸ all share mem
  · intro base
    exact ⟨fun share mem => base.trans_le (deal_base_le _ _ _ share mem), distinct, by simp, sum⟩

/-! ### Sent again as an explicit split -/

def SplitExpense.shares (e : SplitExpense) : List Share :=
  e.participants.map fun p => ⟨p.userId, p.amount⟩

/-- The same expense with its shares spelt out. -/
def AddSplitExpenseInput.explicitly (input : AddSplitExpenseInput) (shares : List Share) :
    AddSplitExpenseInput :=
  { input with splitMethod := some .shares, shares := some shares }

variable {X : SplitContext} {st st' : InMemorySplitStore} {stamp : Stamp} {groupId : String}
  {amount : Int} {input : AddSplitExpenseInput} {shares : List Share}

theorem nodup_eraseDups : ∀ ids : List String, ids.eraseDups.Nodup
  | [] => List.nodup_nil
  | id :: ids => by
    rw [List.eraseDups_cons]
    refine List.nodup_cons.mpr ⟨fun again => ?_, nodup_eraseDups _⟩
    rw [List.mem_eraseDups] at again
    simpa using (List.mem_filter.mp again).2
termination_by ids => ids.length
decreasing_by exact Nat.lt_succ_of_le (List.length_filter_le _ _)

theorem explicitly_shares {again : List Share}
    (accepted : SplitService.sharesOf X st groupId amount (input.explicitly shares) = .ok again) :
    again = shares := by
  rw [SplitService.sharesOf] at accepted
  obtain ⟨_, -, accepted⟩ := bind_ok accepted
  obtain ⟨_, -, accepted⟩ := bind_ok accepted
  exact (Except.ok.inj accepted).symm

theorem sharesOf_explicitly (method : input.splitMethod.getD .equal = .equal)
    (split : SplitService.sharesOf X st groupId amount input = .ok shares) :
    SplitService.sharesOf X st groupId amount (input.explicitly shares) = .ok shares ↔
      (shares.length : Int) ≤ amount := by
  rw [SplitService.sharesOf, method] at split
  obtain ⟨_, members, split⟩ := bind_ok split
  have equal := mapError_ok split
  have userIds := splitEqually_userIds equal
  have length : shares.length = (shares.map (·.userId)).length := (List.length_map _).symm
  have agrees := assertSharesReconcile_equal (nodup_eraseDups _) equal
  rw [← userIds, ← length] at agrees
  have known : ¬∃ share ∈ shares,
      share.userId ∉ (SplitService.listMembers X st groupId).map (·.userId) := by
    rintro ⟨share, mem, stranger⟩
    have id_mem : share.userId ∈ shares.map (·.userId) := List.mem_map_of_mem mem
    rw [userIds, List.mem_eraseDups] at id_mem
    exact throwIf_ok members ⟨share.userId, id_mem, stranger⟩
  have again : SplitService.sharesOf X st groupId amount (input.explicitly shares) =
      ((assertSharesReconcile amount shares).mapError fun _ =>
        .badRequest "Shares must be positive and sum exactly to the amount.") >>= fun _ =>
          .ok shares := by
    rw [SplitService.sharesOf]
    dsimp only [AddSplitExpenseInput.explicitly, Option.getD_some]
    rw [throwIf, if_neg known]
    rfl
  rw [again, ← agrees]
  cases assertSharesReconcile amount shares with
  | error e =>
    exact iff_of_false (fun h => by cases h) (fun h => by cases h)
  | ok u => exact iff_of_true rfl rfl

theorem bind_mk {ε α β : Type} {x : Except ε α} {f : α → Except ε β} {a : α} {b : β}
    (first : x = .ok a) (rest : f a = .ok b) : x >>= f = .ok b := by
  rw [first]
  exact rest

theorem stored_again {userId : String} {e : SplitExpense}
    (stored : st.addExpense userId e = .ok st') (method : SplitMethod) :
    ∃ st'', st.addExpense userId { e with splitMethod := method } = .ok st'' := by
  rw [InMemorySplitStore.addExpense] at stored
  rw [InMemorySplitStore.addExpense]
  cases found : st.getGroup userId e.groupId with
  | none =>
    rw [found] at stored
    cases stored
  | some group => exact ⟨_, rfl⟩

/-- What an accepted equal split stores, and whether the same expense is accepted with the stored
shares spelt out. -/
theorem addExpense_explicitly {userId : String} (method : input.splitMethod.getD .equal = .equal)
    (added : SplitService.addExpense X st userId groupId input stamp = .ok st') :
    ∃ expense, st.addExpense userId expense = .ok st' ∧
      ((∃ again, SplitService.addExpense X st userId groupId
          (input.explicitly expense.shares) stamp = .ok again) ↔
        (expense.participants.length : Int) ≤ expense.amount) := by
  unfold SplitService.addExpense at added
  obtain ⟨group, active, added⟩ := bind_ok added
  obtain ⟨_, described, added⟩ := bind_ok added
  obtain ⟨_, positive, added⟩ := bind_ok added
  obtain ⟨_, claimed, added⟩ := bind_ok added
  obtain ⟨shares, split, stored⟩ := bind_ok added
  refine ⟨_, stored, ?_⟩
  rw [SplitExpense.shares, List.map_map, List.length_map]
  change (∃ again, SplitService.addExpense X st userId groupId
    (input.explicitly (shares.map id)) stamp = .ok again) ↔ _
  rw [List.map_id, ← sharesOf_explicitly method split]
  constructor
  · rintro ⟨_, accepted⟩
    unfold SplitService.addExpense at accepted
    obtain ⟨_, -, accepted⟩ := bind_ok accepted
    obtain ⟨_, -, accepted⟩ := bind_ok accepted
    obtain ⟨_, -, accepted⟩ := bind_ok accepted
    obtain ⟨_, -, accepted⟩ := bind_ok accepted
    obtain ⟨again, shared, -⟩ := bind_ok accepted
    rwa [explicitly_shares shared] at shared
  · intro shared
    obtain ⟨st'', stored'⟩ := stored_again stored .shares
    exact ⟨st'', bind_mk active (bind_mk described (bind_mk positive (bind_mk claimed
      (bind_mk shared stored'))))⟩

/-- The shares of an equal split pass for explicit ones just when there is a minor unit for every
member: as the function returns them, and as a request has them stored. -/
theorem equal_split_accepted_iff {amount : Int} {memberIds : List String} (positive : 0 < amount)
    (some_member : memberIds ≠ []) (distinct : memberIds.Nodup) :
    ((∃ shares, splitEqually amount memberIds = .ok shares ∧
      assertSharesReconcile amount shares = .ok ()) ↔ (memberIds.length : Int) ≤ amount) ∧
    ∀ (X : SplitContext) (st st' : InMemorySplitStore) (userId groupId : String)
      (input : AddSplitExpenseInput) (stamp : Stamp), input.splitMethod.getD .equal = .equal →
      SplitService.addExpense X st userId groupId input stamp = .ok st' →
      ∃ expense, st.addExpense userId expense = .ok st' ∧
        ((∃ again, SplitService.addExpense X st userId groupId
            (input.explicitly expense.shares) stamp = .ok again) ↔
          (expense.participants.length : Int) ≤ expense.amount) := by
  refine ⟨?_, fun X st st' userId groupId input stamp method added =>
    addExpense_explicitly method added⟩
  have split := splitEqually_ok positive some_member
  rw [← assertSharesReconcile_equal distinct split]
  constructor
  · rintro ⟨shares, same, accepted⟩
    obtain rfl := Except.ok.inj (split.symm.trans same)
    exact accepted
  · exact fun accepted => ⟨_, split, accepted⟩

/-- One cent between two members leaves the second a share of nothing. -/
theorem cent_for_two : splitEqually 1 ["ana", "ben"] = .ok [⟨"ana", 1⟩, ⟨"ben", 0⟩] ∧
    assertSharesReconcile 1 [⟨"ana", 1⟩, ⟨"ben", 0⟩] =
      .error "every share must be a positive integer" := by
  decide

theorem equal_split_not_accepted : ¬ ∀ (amount : Int) (memberIds : List String), 0 < amount →
    memberIds ≠ [] → memberIds.Nodup → ∀ shares, splitEqually amount memberIds = .ok shares →
      assertSharesReconcile amount shares = .ok () := by
  intro all
  have accepted := all 1 ["ana", "ben"] (by decide) (by decide) (by decide) _ cent_for_two.1
  rw [cent_for_two.2] at accepted
  cases accepted

theorem two_cents_for_two : ∃ shares, splitEqually 2 ["ana", "ben"] = .ok shares ∧
    assertSharesReconcile 2 shares = .ok () :=
  (@equal_split_accepted_iff 2 ["ana", "ben"] (by decide) (by decide) (by decide)).1.mpr (by decide)

end Finverse.Split
