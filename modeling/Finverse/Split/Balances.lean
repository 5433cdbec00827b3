import Finverse.Split.Service
import Mathlib.Algebra.Order.BigOperators.Group.List

/-! Balances add up to zero as long as every stored expense is shared out in full. -/

namespace Finverse.Split

/-- Every expense is shared out exactly, and nobody owes a negative share. -/
def Reconciled (e : SplitExpense) : Prop := e.shared = e.amount ∧ ∀ p ∈ e.participants, 0 ≤ p.amount

/-- The balances of a group, in a currency. -/
def InMemorySplitStore.balances (st : InMemorySplitStore) (groupId currency : String) :
    OrdMap String Int :=
  computeNetBalances (st.expensesOf groupId) (st.settlementsOf groupId) currency

/-- In every group all balances add up to zero, and the shares of every expense to its amount. -/
def Balanced (st : InMemorySplitStore) : Prop :=
  ∀ groupId, (∀ currency, total (st.balances groupId currency) = 0) ∧
    ∀ e ∈ st.expensesOf groupId, e.shared = e.amount

/-- What every state keeps. -/
def StoreReconciled (st : InMemorySplitStore) : Prop :=
  ∀ groupId, ∀ e ∈ st.expensesOf groupId, Reconciled e

/-- Nobody else paid for the user: an expense of another member gives the user no share. -/
def PaidForNobody (st : InMemorySplitStore) (userId : String) : Prop :=
  ∀ groupId, ∀ e ∈ st.expensesOf groupId, e.paidByUserId ≠ userId →
    ∀ p ∈ e.participants, p.userId = userId → p.amount = 0

def Request.Guarded (st : InMemorySplitStore) : Request → Prop
  | .purgeUser userId => PaidForNobody st userId
  | _ => True

/-- The stores that requests lead to from the empty one, every erasure meeting its condition. -/
inductive GuardedRun (X : SplitContext) : InMemorySplitStore → Prop
  | empty : GuardedRun X {}
  | request {st : InMemorySplitStore} (stamp : Stamp) (r : Request) :
      GuardedRun X st → r.Guarded st → GuardedRun X (after X stamp st r)

variable {X : SplitContext} {st st' : InMemorySplitStore} {stamp : Stamp}

theorem StoreReconciled.balanced (h : StoreReconciled st) : Balanced st := by
  intro groupId
  refine ⟨fun currency => ?_, fun e he => (h groupId e he).1⟩
  rw [InMemorySplitStore.balances, total_computeNetBalances]
  apply List.sum_eq_zero
  intro left hleft
  obtain ⟨e, he, rfl⟩ := List.mem_map.mp hleft
  have shared := (h groupId e he).1
  split <;> omega

/-! ### Requests that store no expense -/

theorem StoreReconciled.of_same (h : StoreReconciled st) (same : st'.expenses = st.expenses) :
    StoreReconciled st' := by
  intro groupId e he
  rw [InMemorySplitStore.expensesOf, same] at he
  exact h groupId e he

theorem orNotFound_ok {message : String} {r : Bool × InMemorySplitStore}
    (h : SplitService.orNotFound message r = .ok st') : r.2 = st' := by
  obtain ⟨found, st⟩ := r
  cases found with
  | true => exact Except.ok.inj h
  | false => cases h

theorem acceptInvitation_expenses (userId invitationId now : String) :
    (st.acceptInvitation userId invitationId now).2.expenses = st.expenses := by
  rw [InMemorySplitStore.acceptInvitation]
  split
  · rfl
  · split <;> rfl

theorem declineInvitation_expenses (userId invitationId now : String) :
    (st.declineInvitation userId invitationId now).2.expenses = st.expenses := by
  rw [InMemorySplitStore.declineInvitation]
  split <;> rfl

theorem revokeInvitation_expenses (userId groupId invitationId now : String) :
    (st.revokeInvitation userId groupId invitationId now).2.expenses = st.expenses := by
  rw [InMemorySplitStore.revokeInvitation]
  split
  · split <;> rfl
  · rfl

theorem archiveGroup_expenses (userId groupId now : String) :
    (st.archiveGroup userId groupId now).2.expenses = st.expenses := by
  rw [InMemorySplitStore.archiveGroup]
  split
  · rfl
  · split <;> rfl

theorem removeMember_expenses (userId groupId targetUserId now : String) :
    (st.removeMember userId groupId targetUserId now).2.expenses = st.expenses := by
  rw [InMemorySplitStore.removeMember]
  split
  · rfl
  · repeat' split
    all_goals rfl

theorem createInvitation_expenses {userId : String} {invitation : SplitGroupInvitation}
    (h : st.createInvitation userId invitation = .ok st') : st'.expenses = st.expenses := by
  rw [InMemorySplitStore.createInvitation] at h
  repeat' split at h
  all_goals cases h
  rfl

theorem addSettlement_expenses {userId : String} {settlement : SplitSettlement}
    (h : st.addSettlement userId settlement = .ok st') : st'.expenses = st.expenses := by
  rw [InMemorySplitStore.addSettlement] at h
  split at h
  · cases h
  · rw [← Except.ok.inj h]

/-! ### Expenses -/

theorem sharesOf_sum {groupId : String} {amount : Int} {input : AddSplitExpenseInput}
    {shares : List Share} (h : SplitService.sharesOf X st groupId amount input = .ok shares) :
    (shares.map (·.amount)).sum = amount ∧ ∀ share ∈ shares, 0 ≤ share.amount := by
  rw [SplitService.sharesOf] at h
  dsimp only at h
  split at h
  · obtain ⟨_, -, h⟩ := bind_ok h
    obtain ⟨_, reconciled, h⟩ := bind_ok h
    rw [← Except.ok.inj h]
    simpa using reconcileShares_sum (mapError_ok reconciled)
  · obtain ⟨_, -, h⟩ := bind_ok h
    exact splitEqually_sum (mapError_ok h)

/-- What a request that adds an expense stores. -/
theorem addExpense_ok {userId groupId : String} {input : AddSplitExpenseInput}
    (h : SplitService.addExpense X st userId groupId input stamp = .ok st') :
    ∃ e, Reconciled e ∧ st.addExpense userId e = .ok st' := by
  unfold SplitService.addExpense at h
  obtain ⟨group, -, h⟩ := bind_ok h
  obtain ⟨_, -, h⟩ := bind_ok h
  obtain ⟨_, -, h⟩ := bind_ok h
  obtain ⟨_, -, h⟩ := bind_ok h
  obtain ⟨shares, shared, stored⟩ := bind_ok h
  obtain ⟨sum, nonneg⟩ := sharesOf_sum shared
  refine ⟨_, ⟨?_, ?_⟩, stored⟩
  · rw [SplitExpense.shared, List.map_map]
    exact sum
  · intro p hp
    obtain ⟨share, hshare, rfl⟩ := List.mem_map.mp hp
    exact nonneg share hshare

theorem StoreReconciled.addExpense (h : StoreReconciled st) {userId : String} {e : SplitExpense}
    (reconciled : Reconciled e) (added : st.addExpense userId e = .ok st') :
    StoreReconciled st' := by
  rw [InMemorySplitStore.addExpense] at added
  split at added
  · cases added
  rw [← Except.ok.inj added]
  intro groupId other hother
  rw [InMemorySplitStore.expensesOf, OrdMap.get?_set] at hother
  split at hother
  · rename_i same
    rw [Option.getD_some, List.mem_append, List.mem_singleton] at hother
    rcases hother with hother | rfl
    · exact h e.groupId other hother
    · exact reconciled
  · exact h groupId other hother

/-! ### Erasure -/

theorem purgeUser_expenses (userId groupId : String) :
    (st.purgeUser userId).expensesOf groupId =
      InMemorySplitStore.purgedExpenses userId (st.expensesOf groupId) := by
  rw [InMemorySplitStore.expensesOf, InMemorySplitStore.purgeUser, OrdMap.get?_map,
    InMemorySplitStore.expensesOf]
  cases st.expenses.get? groupId <;> rfl

/-- What is left of an expense's shares when a participant is erased. -/
theorem shared_filter (userId : String) (participants : List SplitParticipant) :
    ((participants.filter (·.userId != userId)).map (·.amount)).sum =
      (participants.map (·.amount)).sum -
        ((participants.filter (·.userId == userId)).map (·.amount)).sum := by
  induction participants with
  | nil => rfl
  | cons p participants ih =>
    by_cases hp : p.userId = userId
    · simp only [List.filter_cons, hp, bne_self_eq_false, BEq.rfl, List.map_cons, List.sum_cons,
        if_true, Bool.false_eq_true, if_false, ih]
      omega
    · have beq : (p.userId == userId) = false := by simpa using hp
      have bne : (p.userId != userId) = true := by simpa using hp
      simp only [List.filter_cons, beq, bne, List.map_cons, List.sum_cons, if_true,
        Bool.false_eq_true, if_false, ih]
      omega

theorem zero_of_sum_zero {amounts : List Int} (nonneg : ∀ a ∈ amounts, 0 ≤ a)
    (sum : amounts.sum = 0) : ∀ a ∈ amounts, a = 0 := by
  induction amounts with
  | nil => simp
  | cons b amounts ih =>
    have hb : 0 ≤ b := nonneg b List.mem_cons_self
    have rest : ∀ a ∈ amounts, 0 ≤ a := fun a ha => nonneg a (List.mem_cons_of_mem _ ha)
    have hsum : 0 ≤ amounts.sum := List.sum_nonneg rest
    rw [List.sum_cons] at sum
    intro a ha
    rcases List.mem_cons.mp ha with rfl | ha
    · omega
    · exact ih rest (by omega) a ha

theorem StoreReconciled.purge (h : StoreReconciled st) {userId : String}
    (alone : PaidForNobody st userId) : StoreReconciled (st.purgeUser userId) := by
  intro groupId e he
  rw [purgeUser_expenses] at he
  obtain ⟨e, kept, rfl⟩ := List.mem_map.mp he
  obtain ⟨stored, paid⟩ := List.mem_filter.mp kept
  obtain ⟨shared, nonneg⟩ := h groupId e stored
  constructor
  · rw [SplitExpense.shared, shared_filter]
    have nothing : ((e.participants.filter (·.userId == userId)).map (·.amount)).sum = 0 := by
      apply List.sum_eq_zero
      intro amount hamount
      obtain ⟨p, hp, rfl⟩ := List.mem_map.mp hamount
      obtain ⟨hp, mine⟩ := List.mem_filter.mp hp
      exact alone groupId e stored (by simpa using paid) p hp (by simpa using mine)
    rw [nothing, sub_zero]
    exact shared
  · intro p hp
    exact nonneg p (List.mem_filter.mp hp).1

/-- Erasing a user keeps the balances exactly when nobody else paid for the user. -/
theorem purge_balanced_iff (h : StoreReconciled st) (userId : String) :
    Balanced (st.purgeUser userId) ↔ PaidForNobody st userId := by
  constructor
  · intro balanced groupId e he paid p hp mine
    obtain ⟨shared, nonneg⟩ := h groupId e he
    have left := (balanced groupId).2 { e with participants := e.participants.filter (·.userId != userId) }
      (by
        rw [purgeUser_expenses]
        exact List.mem_map.mpr ⟨e, List.mem_filter.mpr ⟨he, by simpa using paid⟩, rfl⟩)
    rw [SplitExpense.shared] at left shared
    rw [shared_filter, shared] at left
    have nothing : ((e.participants.filter (·.userId == userId)).map (·.amount)).sum = 0 := by
      dsimp only at left
      omega
    refine zero_of_sum_zero ?_ nothing p.amount ?_
    · intro amount hamount
      obtain ⟨q, hq, rfl⟩ := List.mem_map.mp hamount
      exact nonneg q (List.mem_filter.mp hq).1
    · exact List.mem_map_of_mem (List.mem_filter.mpr ⟨hp, by simpa using mine⟩)
  · exact fun alone => (h.purge alone).balanced

/-! ### Runs -/

theorem serve_reconciled (h : StoreReconciled st) {r : Request} (guarded : r.Guarded st)
    (ok : serve X stamp st r = .ok st') : StoreReconciled st' := by
  cases r with
  | createGroup userId input =>
    obtain ⟨_, -, ok⟩ := bind_ok ok
    obtain ⟨_, -, ok⟩ := bind_ok ok
    exact h.of_same (by rw [← Except.ok.inj ok]; rfl)
  | createInvitation userId groupId email =>
    obtain ⟨_, -, ok⟩ := bind_ok ok
    obtain ⟨_, -, ok⟩ := bind_ok ok
    obtain ⟨_, -, ok⟩ := bind_ok ok
    obtain ⟨_, -, ok⟩ := bind_ok ok
    exact h.of_same (createInvitation_expenses ok)
  | acceptInvitation userId invitationId =>
    exact h.of_same (orNotFound_ok ok ▸ acceptInvitation_expenses _ _ _)
  | declineInvitation userId invitationId =>
    exact h.of_same (orNotFound_ok ok ▸ declineInvitation_expenses _ _ _)
  | revokeInvitation userId groupId invitationId =>
    obtain ⟨_, -, ok⟩ := bind_ok ok
    exact h.of_same (orNotFound_ok ok ▸ revokeInvitation_expenses _ _ _ _)
  | removeMember userId groupId targetUserId =>
    obtain ⟨_, -, ok⟩ := bind_ok ok
    have same : (st.removeMember userId groupId targetUserId stamp.now).2.expenses = st.expenses :=
      removeMember_expenses userId groupId targetUserId stamp.now
    split at ok
    · rename_i removed
      rw [removed] at same
      exact h.of_same (Except.ok.inj ok ▸ same)
    all_goals cases ok
  | addExpense userId groupId input =>
    obtain ⟨e, reconciled, added⟩ := addExpense_ok ok
    exact h.addExpense reconciled added
  | addSettlement userId groupId input =>
    obtain ⟨_, -, ok⟩ := bind_ok ok
    obtain ⟨_, -, ok⟩ := bind_ok ok
    obtain ⟨_, -, ok⟩ := bind_ok ok
    obtain ⟨_, -, ok⟩ := bind_ok ok
    obtain ⟨_, -, ok⟩ := bind_ok ok
    exact h.of_same (addSettlement_expenses ok)
  | archiveGroup userId groupId =>
    obtain ⟨_, -, ok⟩ := bind_ok ok
    obtain ⟨_, -, ok⟩ := bind_ok ok
    exact h.of_same (orNotFound_ok ok ▸ archiveGroup_expenses _ _ _)
  | purgeUser userId =>
    rw [← Except.ok.inj ok]
    exact h.purge guarded

theorem after_reconciled (h : StoreReconciled st) {r : Request} (guarded : r.Guarded st) :
    StoreReconciled (after X stamp st r) := by
  rw [after]
  split
  · rename_i ok
    exact serve_reconciled h guarded ok
  · exact h

theorem GuardedRun.reconciled (run : GuardedRun X st) : StoreReconciled st := by
  induction run with
  | empty => exact fun _ _ he => nomatch he
  | request stamp r run guarded ih => exact after_reconciled ih guarded

theorem GuardedRun.without_erasure (run : GuardedRun X st) {requests : List (Stamp × Request)}
    (h : ∀ r ∈ requests, ∀ userId, r.2 ≠ .purgeUser userId) :
    GuardedRun X (afterAll X requests st) := by
  induction requests generalizing st with
  | nil => exact run
  | cons r requests ih =>
    have guarded : r.2.Guarded st := by
      have kept := h r List.mem_cons_self
      generalize r.2 = request at kept
      cases request with
      | purgeUser userId => exact absurd rfl (kept userId)
      | _ => trivial
    exact ih (run.request r.1 r.2 guarded) fun q hq => h q (List.mem_cons_of_mem _ hq)

/-- Along a run whose erasures meet their condition every state is balanced, and the next request
leaves a balanced state exactly when it meets its own. -/
theorem balanced_iff (run : GuardedRun X st) :
    Balanced st ∧ ∀ stamp r, Balanced (after X stamp st r) ↔ r.Guarded st := by
  refine ⟨run.reconciled.balanced, fun stamp r => ?_⟩
  cases r with
  | purgeUser userId => exact purge_balanced_iff run.reconciled userId
  | _ => exact ⟨fun _ => trivial, fun guarded => (after_reconciled run.reconciled guarded).balanced⟩

/-! ### Two flatmates -/

def flat : SplitContext :=
  ⟨fun email => if email = "kim@example.com" then some "kim" else none, id, id, compare⟩

/-- Sam founds a group, Kim joins, and Sam pays for both. -/
def sharedRent : List (Stamp × Request) :=
  [(⟨"g1", "2026-05-30", "1"⟩, .createGroup "sam" ⟨some "Flat", some "EUR"⟩),
    (⟨"i1", "2026-05-30", "2"⟩, .createInvitation "sam" "g1" (some "kim@example.com")),
    (⟨"", "2026-05-30", "3"⟩, .acceptInvitation "kim" "i1"),
    (⟨"e1", "2026-05-30", "4"⟩, .addExpense "sam" "g1"
      { description := some "rent", amount := some 1001 })]

def rentShared : InMemorySplitStore := afterAll flat sharedRent {}

theorem sharedRent_guarded : GuardedRun flat rentShared :=
  GuardedRun.empty.without_erasure (by simp [sharedRent])

/-- The payer's own account may be erased. -/
theorem balanced_after_payer_leaves :
    Balanced (after flat ⟨"", "2026-06-01", "5"⟩ rentShared (.purgeUser "sam")) := by
  refine ((balanced_iff sharedRent_guarded).2 _ (.purgeUser "sam")).mpr ?_
  intro groupId e he other
  have paid : ∀ rows ∈ rentShared.expenses.values, ∀ e ∈ rows, e.paidByUserId = "sam" := by
    decide +kernel
  rw [InMemorySplitStore.expensesOf] at he
  cases found : rentShared.expenses.get? groupId with
  | none =>
    rw [found] at he
    cases he
  | some rows =>
    rw [found] at he
    exact absurd (paid rows (OrdMap.mem_values.mpr ⟨groupId, found⟩) e he) other

/-- Kim's erasure leaves Sam's payment with Sam's share only. -/
theorem kim_erased :
    let st := after flat ⟨"", "2026-06-01", "5"⟩ rentShared (.purgeUser "kim")
    total (st.balances "g1" "EUR") = 500 ∧ (st.expensesOf "g1").map (·.shared) = [501] ∧
      (st.expensesOf "g1").map (·.amount) = [1001] := by
  decide +kernel

end Finverse.Split
