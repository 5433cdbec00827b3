import Finverse.Framework.OrderedMap
import Mathlib.Algebra.Order.Ring.Int
import Mathlib.Tactic.Ring

/-! Shared expenses: the types and the split arithmetic. Money is in integer minor units. -/

namespace Finverse.Split

inductive SplitRole
  | admin
  | member
  deriving DecidableEq, Repr

inductive SplitMethod
  | equal
  | shares
  deriving DecidableEq, Repr

inductive SplitInvitationStatus
  | pending
  | accepted
  | declined
  | revoked
  | left
  | removed
  deriving DecidableEq, Repr

structure SplitGroup where
  id : String
  name : String
  currency : String
  createdBy : Option String
  createdAt : String
  archivedAt : Option String
  deriving DecidableEq, Repr

structure SplitGroupMember where
  groupId : String
  userId : String
  role : SplitRole
  joinedAt : String
  deriving DecidableEq, Repr

structure SplitGroupInvitation where
  id : String
  groupId : String
  inviteeUserId : String
  invitedByUserId : Option String
  status : SplitInvitationStatus
  createdAt : String
  decidedAt : Option String
  deriving DecidableEq, Repr

structure SplitParticipant where
  expenseId : String
  userId : String
  amount : Int
  deriving DecidableEq, Repr

structure SplitExpense where
  id : String
  groupId : String
  description : String
  category : String
  amount : Int
  currency : String
  paidByUserId : String
  splitMethod : SplitMethod
  date : String
  createdAt : String
  participants : List SplitParticipant
  deriving DecidableEq, Repr

structure SplitSettlement where
  id : String
  groupId : String
  fromUserId : String
  toUserId : String
  amount : Int
  currency : String
  note : String
  createdAt : String
  deriving DecidableEq, Repr

structure Share where
  userId : String
  amount : Int
  deriving DecidableEq, Repr

/-- What the participants owe together. -/
def SplitExpense.shared (e : SplitExpense) : Int := (e.participants.map (·.amount)).sum

/-! ### Splitting an amount -/

/-- Deals the remainder out, one unit to each of the leading members. -/
def deal (base : Int) : Int → List String → List Share
  | _, [] => []
  | remainder, userId :: memberIds =>
    let extra := if remainder > 0 then 1 else 0
    ⟨userId, base + extra⟩ :: deal base (remainder - extra) memberIds

def splitEqually (amount : Int) (memberIds : List String) : Except String (List Share) :=
  if amount ≤ 0 then .error "amount must be a positive integer"
  else if memberIds = [] then .error "at least one member is required"
  else
    let base := amount / memberIds.length
    .ok (deal base (amount - base * memberIds.length) memberIds)

/-- The loop of `assertSharesReconcile`: the members seen, and the total so far. -/
def reconcileShares (amount : Int) : List String → Int → List Share → Except String Unit
  | _, total, [] =>
    if total = amount then .ok ()
    else .error ("shares total " ++ toString total ++ ", expected " ++ toString amount)
  | seen, total, share :: shares =>
    if share.amount ≤ 0 then .error "every share must be a positive integer"
    else if share.userId ∈ seen then .error "duplicate share for a member"
    else reconcileShares amount (share.userId :: seen) (total + share.amount) shares

def assertSharesReconcile (amount : Int) (shares : List Share) : Except String Unit :=
  reconcileShares amount [] 0 shares

theorem deal_sum (base : Int) {remainder : Int} {memberIds : List String} (low : 0 ≤ remainder)
    (high : remainder ≤ memberIds.length) :
    ((deal base remainder memberIds).map (·.amount)).sum = base * memberIds.length + remainder := by
  induction memberIds generalizing remainder with
  | nil =>
    have none_left : remainder = 0 := by simpa using le_antisymm high low
    simp [deal, none_left]
  | cons userId memberIds ih =>
    rw [List.length_cons, Nat.cast_succ] at high
    have low' : 0 ≤ remainder - if remainder > 0 then 1 else 0 := by split <;> omega
    have rest := ih low' (by split <;> omega)
    simp only [deal, List.map_cons, List.sum_cons, List.length_cons, Nat.cast_succ, rest]
    rw [mul_add, mul_one]
    omega

theorem deal_nonneg {base remainder : Int} {memberIds : List String} (h : 0 ≤ base) :
    ∀ share ∈ deal base remainder memberIds, 0 ≤ share.amount := by
  induction memberIds generalizing remainder with
  | nil => simp [deal]
  | cons userId memberIds ih =>
    intro share hshare
    rcases List.mem_cons.mp hshare with rfl | hshare
    · dsimp only
      split <;> omega
    · exact ih share hshare

/-- An equal split gives away exactly the amount, and nobody's share is negative. -/
theorem splitEqually_sum {amount : Int} {memberIds : List String} {shares : List Share}
    (h : splitEqually amount memberIds = .ok shares) :
    (shares.map (·.amount)).sum = amount ∧ ∀ share ∈ shares, 0 ≤ share.amount := by
  rw [splitEqually] at h
  split at h
  · cases h
  rename_i positive
  split at h
  · cases h
  rename_i nonempty
  obtain rfl := Except.ok.inj h
  have members : (0 : Int) < memberIds.length := by
    exact_mod_cast List.length_pos_iff.mpr nonempty
  have division := Int.emod_add_mul_ediv amount memberIds.length
  have low := Int.emod_nonneg amount (by omega : (memberIds.length : Int) ≠ 0)
  have high := Int.emod_lt_of_pos amount members
  have commuted := mul_comm (memberIds.length : Int) (amount / memberIds.length)
  constructor
  · rw [deal_sum _ (by omega) (by omega)]
    omega
  · exact deal_nonneg (Int.ediv_nonneg (by omega) (by omega))

theorem reconcileShares_sum {amount total : Int} {seen : List String} {shares : List Share}
    (h : reconcileShares amount seen total shares = .ok ()) :
    total + (shares.map (·.amount)).sum = amount ∧ ∀ share ∈ shares, 0 ≤ share.amount := by
  induction shares generalizing seen total with
  | nil =>
    rw [reconcileShares] at h
    split at h
    · simp_all
    · cases h
  | cons share shares ih =>
    rw [reconcileShares] at h
    split at h
    · cases h
    split at h
    · cases h
    obtain ⟨sum, nonneg⟩ := ih h
    refine ⟨?_, ?_⟩
    · rw [List.map_cons, List.sum_cons]
      omega
    · intro other hother
      rcases List.mem_cons.mp hother with rfl | hother
      · omega
      · exact nonneg other hother

/-! ### Net balances -/

/-- Adds to a member's balance. -/
def bump (balances : OrdMap String Int) (userId : String) (delta : Int) : OrdMap String Int :=
  balances.set userId ((balances.get? userId).getD 0 + delta)

def bumpExpense (currency : String) (balances : OrdMap String Int) (expense : SplitExpense) :
    OrdMap String Int :=
  if expense.currency ≠ currency then balances
  else
    expense.participants.foldl (fun balances participant =>
      bump balances participant.userId (-participant.amount))
      (bump balances expense.paidByUserId expense.amount)

def bumpSettlement (currency : String) (balances : OrdMap String Int)
    (settlement : SplitSettlement) : OrdMap String Int :=
  if settlement.currency ≠ currency then balances
  else
    bump (bump balances settlement.fromUserId settlement.amount) settlement.toUserId
      (-settlement.amount)

/-- What the group owes each member, less what the member owes the others. -/
def computeNetBalances (expenses : List SplitExpense) (settlements : List SplitSettlement)
    (currency : String) : OrdMap String Int :=
  settlements.foldl (bumpSettlement currency) (expenses.foldl (bumpExpense currency) ∅)

def total (balances : OrdMap String Int) : Int := balances.values.sum

theorem total_bump (balances : OrdMap String Int) (userId : String) (delta : Int) :
    total (bump balances userId delta) = total balances + delta := by
  have entries : ∀ es : List (String × Int),
      ((OrdMap.replace userId ((OrdMap.lookup userId es).getD 0 + delta) es).map Prod.snd).sum =
        (es.map Prod.snd).sum + delta := by
    intro es
    induction es with
    | nil => simp [OrdMap.replace, OrdMap.lookup]
    | cons e es ih =>
      by_cases he : e.1 = userId
      · simp only [OrdMap.replace, OrdMap.lookup, if_pos he, List.map_cons, List.sum_cons,
          Option.getD_some]
        omega
      · simp only [OrdMap.replace, OrdMap.lookup, if_neg he, List.map_cons, List.sum_cons, ih]
        omega
  exact entries balances.entries

theorem total_bumpExpense (currency : String) (balances : OrdMap String Int)
    (expense : SplitExpense) :
    total (bumpExpense currency balances expense) =
      total balances + if expense.currency = currency then expense.amount - expense.shared else 0 := by
  have debits : ∀ (participants : List SplitParticipant) (balances : OrdMap String Int),
      total (participants.foldl (fun balances participant =>
        bump balances participant.userId (-participant.amount)) balances) =
        total balances - (participants.map (·.amount)).sum := by
    intro participants
    induction participants with
    | nil => simp
    | cons participant participants ih =>
      intro balances
      rw [List.foldl_cons, ih, total_bump, List.map_cons, List.sum_cons]
      omega
  rw [bumpExpense]
  by_cases h : expense.currency = currency
  · rw [if_neg (not_not.mpr h), if_pos h, debits, total_bump, SplitExpense.shared]
    omega
  · rw [if_pos h, if_neg h, add_zero]

theorem total_bumpSettlement (currency : String) (balances : OrdMap String Int)
    (settlement : SplitSettlement) :
    total (bumpSettlement currency balances settlement) = total balances := by
  rw [bumpSettlement]
  split
  · rfl
  · rw [total_bump, total_bump]
    omega

/-- The balances add up to what the expenses leave unshared, whatever was settled. -/
theorem total_computeNetBalances (expenses : List SplitExpense)
    (settlements : List SplitSettlement) (currency : String) :
    total (computeNetBalances expenses settlements currency) =
      (expenses.map fun e => if e.currency = currency then e.amount - e.shared else 0).sum := by
  have settled : ∀ (settlements : List SplitSettlement) (balances : OrdMap String Int),
      total (settlements.foldl (bumpSettlement currency) balances) = total balances := by
    intro settlements
    induction settlements with
    | nil => exact fun _ => rfl
    | cons settlement settlements ih =>
      intro balances
      rw [List.foldl_cons, ih, total_bumpSettlement]
  have spent : ∀ (expenses : List SplitExpense) (balances : OrdMap String Int),
      total (expenses.foldl (bumpExpense currency) balances) = total balances +
        (expenses.map fun e => if e.currency = currency then e.amount - e.shared else 0).sum := by
    intro expenses
    induction expenses with
    | nil => simp
    | cons expense expenses ih =>
      intro balances
      rw [List.foldl_cons, ih, total_bumpExpense, List.map_cons, List.sum_cons, add_assoc]
  rw [computeNetBalances, settled, spent]
  exact zero_add _

end Finverse.Split
