import Finverse.Http
import Finverse.Split.Domain

/-! The in-memory split store. Each operation reads the clock at most once. -/

namespace Finverse.Split

structure InMemorySplitStore where
  groups : OrdMap String SplitGroup := ∅
  members : OrdMap String (List SplitGroupMember) := ∅
  expenses : OrdMap String (List SplitExpense) := ∅
  settlements : OrdMap String (List SplitSettlement) := ∅
  invitations : OrdMap String SplitGroupInvitation := ∅

inductive Removal
  | removed
  | notFound
  | creator
  | balanceNonzero
  | forbidden
  deriving DecidableEq, Repr

namespace InMemorySplitStore

variable (st : InMemorySplitStore)

def membersOf (groupId : String) : List SplitGroupMember := (st.members.get? groupId).getD []

def expensesOf (groupId : String) : List SplitExpense := (st.expenses.get? groupId).getD []

def settlementsOf (groupId : String) : List SplitSettlement :=
  (st.settlements.get? groupId).getD []

def isMember (groupId userId : String) : Bool :=
  (st.membersOf groupId).any fun member => member.userId == userId

def isAdmin (groupId userId : String) : Bool :=
  (st.membersOf groupId).any fun member => member.userId == userId && member.role == .admin

def getGroup (userId groupId : String) : Option SplitGroup :=
  (st.groups.get? groupId).filter fun _ => st.isMember groupId userId

def createGroup (group : SplitGroup) (membership : SplitGroupMember) : InMemorySplitStore :=
  { st with
    groups := st.groups.set group.id group
    members := st.members.set group.id [membership] }

def archiveGroup (userId groupId now : String) : Bool × InMemorySplitStore :=
  match st.getGroup userId groupId with
  | none => (false, st)
  | some group =>
    if group.archivedAt.isSome then (false, st)
    else
      (true, { st with groups := st.groups.set groupId { group with archivedAt := some now } })

def createInvitation (userId : String) (invitation : SplitGroupInvitation) :
    Except HttpError InMemorySplitStore :=
  match st.getGroup userId invitation.groupId with
  | none => .error (.internal "Not an active member of this group.")
  | some group =>
    if group.archivedAt.isSome then .error (.internal "Not an active member of this group.")
    else if st.isAdmin invitation.groupId userId = false then
      .error (.internal "Only a group administrator can invite members.")
    else if st.isMember invitation.groupId invitation.inviteeUserId then
      .error (.internal "Unable to add that account.")
    else if st.invitations.values.any fun existing =>
        existing.groupId == invitation.groupId &&
          existing.inviteeUserId == invitation.inviteeUserId && existing.status == .pending then
      .error (.internal "An invitation is already pending.")
    else .ok { st with invitations := st.invitations.set invitation.id invitation }

def decideInvitation (invitation : SplitGroupInvitation) (status : SplitInvitationStatus) (now : String) :
    InMemorySplitStore :=
  { st with
    invitations := st.invitations.set invitation.id
      { invitation with status, decidedAt := some now } }

/-- The invitee's pending invitation. -/
def pendingFor (userId invitationId : String) : Option SplitGroupInvitation :=
  (st.invitations.get? invitationId).filter fun invitation =>
    invitation.inviteeUserId == userId && invitation.status == .pending

def acceptInvitation (userId invitationId now : String) : Bool × InMemorySplitStore :=
  match st.pendingFor userId invitationId with
  | none => (false, st)
  | some invitation =>
    match (st.groups.get? invitation.groupId).filter fun group => group.archivedAt.isNone with
    | none => (false, st)
    | some _ =>
      let rows := st.membersOf invitation.groupId
      let rows := if st.isMember invitation.groupId userId then rows
        else rows ++ [⟨invitation.groupId, userId, .member, now⟩]
      (true, { st with members := st.members.set invitation.groupId rows }.decideInvitation invitation
        .accepted now)

def declineInvitation (userId invitationId now : String) : Bool × InMemorySplitStore :=
  match st.pendingFor userId invitationId with
  | none => (false, st)
  | some invitation => (true, st.decideInvitation invitation .declined now)

def revokeInvitation (userId groupId invitationId now : String) : Bool × InMemorySplitStore :=
  let pending := (st.invitations.get? invitationId).filter fun invitation =>
    invitation.groupId == groupId && invitation.status == .pending
  match st.getGroup userId groupId, pending with
  | some _, some invitation =>
    if st.isAdmin groupId userId then (true, st.decideInvitation invitation .revoked now) else (false, st)
  | _, _ => (false, st)

/-- A member's net position in the currency. -/
def netOf (groupId currency userId : String) : Int :=
  let spent := (st.expensesOf groupId).filter (·.currency == currency)
  let settled := (st.settlementsOf groupId).filter (·.currency == currency)
  (spent.map fun e => (if e.paidByUserId = userId then e.amount else 0) -
      ((e.participants.filter (·.userId == userId)).map (·.amount)).sum).sum +
    (settled.map fun s => (if s.fromUserId = userId then s.amount else 0) -
      (if s.toUserId = userId then s.amount else 0)).sum

def removeMember (userId groupId targetUserId now : String) : Removal × InMemorySplitStore :=
  match (st.getGroup userId groupId).filter fun group => group.archivedAt.isNone with
  | none => (.notFound, st)
  | some group =>
    if st.isMember groupId targetUserId = false then (.notFound, st)
    else if group.createdBy = some targetUserId then (.creator, st)
    else if userId ≠ targetUserId ∧ st.isAdmin groupId userId = false then (.forbidden, st)
    else if st.netOf groupId group.currency targetUserId ≠ 0 then (.balanceNonzero, st)
    else
      let status := if userId = targetUserId then .left else .removed
      (.removed, { st with
        members := st.members.set groupId
          ((st.membersOf groupId).filter (·.userId != targetUserId))
        invitations := st.invitations.sweep (·.id)
          (fun invitation => invitation.groupId == groupId &&
            invitation.inviteeUserId == targetUserId && invitation.status == .accepted)
          (fun invitation => { invitation with status, decidedAt := some now }) })

def addExpense (userId : String) (expense : SplitExpense) :
    Except HttpError InMemorySplitStore :=
  match st.getGroup userId expense.groupId with
  | none => .error (.internal "Not a member of this group.")
  | some _ => .ok { st with
      expenses := st.expenses.set expense.groupId (st.expensesOf expense.groupId ++ [expense]) }

def addSettlement (userId : String) (settlement : SplitSettlement) :
    Except HttpError InMemorySplitStore :=
  match st.getGroup userId settlement.groupId with
  | none => .error (.internal "Not a member of this group.")
  | some _ => .ok { st with
      settlements := st.settlements.set settlement.groupId
        (st.settlementsOf settlement.groupId ++ [settlement]) }

/-- The expenses that others paid, without the user's share of them. -/
def purgedExpenses (userId : String) (expenses : List SplitExpense) : List SplitExpense :=
  (expenses.filter (·.paidByUserId != userId)).map fun expense =>
    { expense with participants := expense.participants.filter (·.userId != userId) }

/-- Erases the user's memberships, payments, shares and settlements. -/
def purgeUser (userId : String) : InMemorySplitStore :=
  { st with
    members := st.members.map fun rows => rows.filter (·.userId != userId)
    expenses := st.expenses.map (purgedExpenses userId)
    settlements := st.settlements.map fun rows =>
      rows.filter fun s => s.fromUserId != userId && s.toUserId != userId }

end InMemorySplitStore

end Finverse.Split
