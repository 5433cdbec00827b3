import Finverse.Auth.Domain
import Finverse.Split.MemoryStore

/-! The split service, and the requests it serves. -/

namespace Finverse.Split

open Auth (trim jsLength)

/-- The users that can be found by address, and the mappings and the order of strings. -/
structure SplitContext where
  findByEmail : String → Option String
  toLowerCase : String → String
  toUpperCase : String → String
  localeCompare : String → String → Ordering

structure CreateSplitGroupInput where
  name : Option String := none
  currency : Option String := none

structure AddSplitExpenseInput where
  description : Option String := none
  category : Option String := none
  amount : Option Int := none
  paidByUserId : Option String := none
  splitMethod : Option SplitMethod := none
  memberIds : Option (List String) := none
  shares : Option (List Share) := none

structure AddSplitSettlementInput where
  toUserId : Option String := none
  amount : Option Int := none
  note : Option String := none

/-- The fresh id, the date and the time of a request. -/
structure Stamp where
  id : String
  today : String
  now : String

namespace SplitService

variable (X : SplitContext) (st : InMemorySplitStore)

def assertMember (userId groupId : String) : Except HttpError SplitGroup :=
  orThrow (st.getGroup userId groupId) (.notFound "Group not found.")

def assertActiveMember (userId groupId : String) : Except HttpError SplitGroup := do
  let group ← assertMember st userId groupId
  throwIf (group.archivedAt.isSome) (.forbidden "This group is archived.")
  return group

def assertAdmin (userId groupId : String) : Except HttpError SplitGroup := do
  let group ← assertActiveMember st userId groupId
  throwIf (st.isAdmin groupId userId = false)
    (.forbidden "Only a group administrator can manage invitations.")
  return group

def isIsoCode (currency : String) : Bool :=
  currency.toList.length == 3 && currency.toList.all fun c => 'A' ≤ c && c ≤ 'Z'

def createGroup (userId : String) (input : CreateSplitGroupInput) (stamp : Stamp) :
    Except HttpError InMemorySplitStore := do
  let name := trim (input.name.getD "")
  throwIf (jsLength name < 1 ∨ jsLength name > 80)
    (.badRequest "Group name must be between 1 and 80 characters.")
  let currency := X.toUpperCase (input.currency.getD "USD")
  throwIf (isIsoCode currency = false)
    (.badRequest "currency must be a three-letter ISO code.")
  return st.createGroup ⟨stamp.id, name, currency, some userId, stamp.today, none⟩
    ⟨stamp.id, userId, .admin, stamp.now⟩

def createInvitation (userId groupId : String) (email : Option String) (stamp : Stamp) :
    Except HttpError InMemorySplitStore := do
  let _ ← assertAdmin st userId groupId
  let email := (email.map fun e => X.toLowerCase (trim e)).getD ""
  throwIf (email = "") (.badRequest "email is required.")
  let inviteeId ← orThrow (X.findByEmail email) (.badRequest "Unable to add that account.")
  throwIf (st.isMember groupId inviteeId) (.badRequest "Unable to add that account.")
  st.createInvitation userId
    ⟨stamp.id, groupId, inviteeId, some userId, .pending, stamp.now, none⟩

def orNotFound (message : String) : Bool × InMemorySplitStore → Except HttpError InMemorySplitStore
  | (true, st) => .ok st
  | (false, _) => .error (.notFound message)

def acceptInvitation (userId invitationId : String) (stamp : Stamp) :
    Except HttpError InMemorySplitStore :=
  orNotFound "Invitation not found or no longer pending."
    (st.acceptInvitation userId invitationId stamp.now)

def declineInvitation (userId invitationId : String) (stamp : Stamp) :
    Except HttpError InMemorySplitStore :=
  orNotFound "Invitation not found or no longer pending."
    (st.declineInvitation userId invitationId stamp.now)

def revokeInvitation (userId groupId invitationId : String) (stamp : Stamp) :
    Except HttpError InMemorySplitStore := do
  let _ ← assertAdmin st userId groupId
  orNotFound "Invitation not found or no longer pending."
    (st.revokeInvitation userId groupId invitationId stamp.now)

def removeMember (userId groupId targetUserId : String) (stamp : Stamp) :
    Except HttpError InMemorySplitStore := do
  let _ ← assertActiveMember st userId groupId
  match st.removeMember userId groupId targetUserId stamp.now with
  | (.removed, st) => return st
  | (.balanceNonzero, _) =>
    throw (.badRequest "The member must settle their balance before leaving.")
  | (.creator, _) => throw (.forbidden "The group creator cannot be removed.")
  | (.forbidden, _) =>
    throw (.forbidden "Only a group administrator can remove another member.")
  | (.notFound, _) => throw (.notFound "Member not found.")

/-- The members of a group, by the time they joined. -/
def listMembers (groupId : String) : List SplitGroupMember :=
  (st.membersOf groupId).insertionSort fun a b =>
    (X.localeCompare a.joinedAt b.joinedAt).then (X.localeCompare a.userId b.userId) ≠ .gt

/-- The members an equal split is between. -/
def splitBetween (memberIds : List String) : Option (List String) → List String
  | some (id :: ids) => id :: ids
  | _ => memberIds.eraseDups

/-- The shares a request asks for. -/
def sharesOf (groupId : String) (amount : Int) (input : AddSplitExpenseInput) :
    Except HttpError (List Share) :=
  let memberIds := (listMembers X st groupId).map (·.userId)
  match input.splitMethod.getD .equal with
  | .shares => do
    let shares := input.shares.getD []
    throwIf (∃ share ∈ shares, share.userId ∉ memberIds)
      (.badRequest "Every share must name a group member.")
    (assertSharesReconcile amount shares).mapError fun _ =>
      .badRequest "Shares must be positive and sum exactly to the amount."
    return shares
  | .equal => do
    let ids := splitBetween memberIds input.memberIds
    throwIf (∃ id ∈ ids, id ∉ memberIds) (.badRequest "Every member must belong to the group.")
    (splitEqually amount ids.eraseDups).mapError .internal

def addExpense (userId groupId : String) (input : AddSplitExpenseInput) (stamp : Stamp) :
    Except HttpError InMemorySplitStore := do
  let group ← assertActiveMember st userId groupId
  let description := trim (input.description.getD "")
  throwIf (jsLength description < 1 ∨ jsLength description > 200)
    (.badRequest "Description must be between 1 and 200 characters.")
  let amount := input.amount.getD 0
  throwIf (amount ≤ 0)
    (.badRequest "amount must be a positive integer in minor units.")
  throwIf (input.paidByUserId.getD userId ≠ userId)
    (.forbidden "Only the authenticated member can claim payment.")
  let shares ← sharesOf X st groupId amount input
  st.addExpense userId
    { id := stamp.id
      groupId
      description
      category := X.toLowerCase (input.category.getD "other")
      amount
      currency := group.currency
      paidByUserId := userId
      splitMethod := input.splitMethod.getD .equal
      date := stamp.today
      createdAt := stamp.now
      participants := shares.map fun share => ⟨"", share.userId, share.amount⟩ }

def addSettlement (userId groupId : String) (input : AddSplitSettlementInput) (stamp : Stamp) :
    Except HttpError InMemorySplitStore := do
  let group ← assertActiveMember st userId groupId
  let toUserId := input.toUserId.getD ""
  throwIf (toUserId = "") (.badRequest "toUserId is required.")
  throwIf (toUserId = userId) (.badRequest "You cannot settle up with yourself.")
  throwIf (st.isMember groupId toUserId = false)
    (.badRequest "toUserId must be a group member.")
  let amount := input.amount.getD 0
  throwIf (amount ≤ 0)
    (.badRequest "amount must be a positive integer in minor units.")
  st.addSettlement userId
    ⟨stamp.id, groupId, userId, toUserId, amount, group.currency, trim (input.note.getD ""),
      stamp.now⟩

def archiveGroup (userId groupId : String) (stamp : Stamp) :
    Except HttpError InMemorySplitStore := do
  let group ← assertMember st userId groupId
  throwIf (group.createdBy ≠ some userId)
    (.forbidden "Only the group creator can archive a group.")
  orNotFound "Group not found." (st.archiveGroup userId groupId stamp.now)

end SplitService

inductive Request
  | createGroup (userId : String) (input : CreateSplitGroupInput)
  | createInvitation (userId groupId : String) (email : Option String)
  | acceptInvitation (userId invitationId : String)
  | declineInvitation (userId invitationId : String)
  | revokeInvitation (userId groupId invitationId : String)
  | removeMember (userId groupId targetUserId : String)
  | addExpense (userId groupId : String) (input : AddSplitExpenseInput)
  | addSettlement (userId groupId : String) (input : AddSplitSettlementInput)
  | archiveGroup (userId groupId : String)
  | purgeUser (userId : String)

def serve (X : SplitContext) (stamp : Stamp) (st : InMemorySplitStore) :
    Request → Except HttpError InMemorySplitStore
  | .createGroup userId input => SplitService.createGroup X st userId input stamp
  | .createInvitation userId groupId email =>
    SplitService.createInvitation X st userId groupId email stamp
  | .acceptInvitation userId invitationId =>
    SplitService.acceptInvitation st userId invitationId stamp
  | .declineInvitation userId invitationId =>
    SplitService.declineInvitation st userId invitationId stamp
  | .revokeInvitation userId groupId invitationId =>
    SplitService.revokeInvitation st userId groupId invitationId stamp
  | .removeMember userId groupId targetUserId =>
    SplitService.removeMember st userId groupId targetUserId stamp
  | .addExpense userId groupId input => SplitService.addExpense X st userId groupId input stamp
  | .addSettlement userId groupId input =>
    SplitService.addSettlement st userId groupId input stamp
  | .archiveGroup userId groupId => SplitService.archiveGroup st userId groupId stamp
  | .purgeUser userId => .ok (st.purgeUser userId)

/-- The store after a request. One that is refused leaves it as it was. -/
def after (X : SplitContext) (stamp : Stamp) (st : InMemorySplitStore) (request : Request) :
    InMemorySplitStore :=
  match serve X stamp st request with
  | .ok st' => st'
  | .error _ => st

/-- The store after any number of requests. -/
def afterAll (X : SplitContext) (requests : List (Stamp × Request)) (st : InMemorySplitStore) :
    InMemorySplitStore :=
  requests.foldl (fun st r => after X r.1 st r.2) st

end Finverse.Split
