import Finverse.Framework.Steps
import Finverse.Split.MemoryStore

/-! Who the members of a group are: its founder, and those who accepted an invitation of an administrator.
Whatever the requests are, what comes of them is a sequence of operations of the store. -/

namespace Finverse.Split

/-- An operation of the store. -/
inductive StoreCall
  | createGroup (group : SplitGroup) (membership : SplitGroupMember)
  | archiveGroup (userId groupId now : String)
  | createInvitation (userId : String) (invitation : SplitGroupInvitation)
  | acceptInvitation (userId invitationId now : String)
  | declineInvitation (userId invitationId now : String)
  | revokeInvitation (userId groupId invitationId now : String)
  | removeMember (userId groupId targetUserId now : String)
  | addExpense (userId : String) (expense : SplitExpense)
  | addSettlement (userId : String) (settlement : SplitSettlement)
  | purgeUser (userId : String)

def perform (call : StoreCall) (st : InMemorySplitStore) : InMemorySplitStore :=
  match call with
  | .createGroup group membership => st.createGroup group membership
  | .archiveGroup userId groupId now => (st.archiveGroup userId groupId now).2
  | .createInvitation userId invitation => (st.createInvitation userId invitation).toOption.getD st
  | .acceptInvitation userId invitationId now => (st.acceptInvitation userId invitationId now).2
  | .declineInvitation userId invitationId now => (st.declineInvitation userId invitationId now).2
  | .revokeInvitation userId groupId invitationId now =>
    (st.revokeInvitation userId groupId invitationId now).2
  | .removeMember userId groupId targetUserId now => (st.removeMember userId groupId targetUserId now).2
  | .addExpense userId expense => (st.addExpense userId expense).toOption.getD st
  | .addSettlement userId settlement => (st.addSettlement userId settlement).toOption.getD st
  | .purgeUser userId => st.purgeUser userId

variable {st : InMemorySplitStore} {call : StoreCall} {groupId userId invitationId : String}
  {invitation : SplitGroupInvitation}

/-! ### What the operations leave as it is -/

theorem archiveGroup_same (userId groupId now : String) :
    (st.archiveGroup userId groupId now).2.members = st.members ∧
      (st.archiveGroup userId groupId now).2.invitations = st.invitations := by
  unfold InMemorySplitStore.archiveGroup
  split
  · exact ⟨rfl, rfl⟩
  · split
    · exact ⟨rfl, rfl⟩
    · exact ⟨rfl, rfl⟩

theorem addExpense_same (userId : String) (expense : SplitExpense) :
    (perform (.addExpense userId expense) st).members = st.members ∧
      (perform (.addExpense userId expense) st).invitations = st.invitations := by
  unfold perform InMemorySplitStore.addExpense
  dsimp only
  split
  · exact ⟨rfl, rfl⟩
  · exact ⟨rfl, rfl⟩

theorem addSettlement_same (userId : String) (settlement : SplitSettlement) :
    (perform (.addSettlement userId settlement) st).members = st.members ∧
      (perform (.addSettlement userId settlement) st).invitations = st.invitations := by
  unfold perform InMemorySplitStore.addSettlement
  dsimp only
  split
  · exact ⟨rfl, rfl⟩
  · exact ⟨rfl, rfl⟩

/-- An invitation is stored as it was made, by an administrator of its group, for somebody else. -/
theorem createInvitation_cases (st : InMemorySplitStore) (userId : String) (invitation : SplitGroupInvitation) :
    perform (.createInvitation userId invitation) st = st ∨
      st.isAdmin invitation.groupId userId = true ∧
        st.isMember invitation.groupId invitation.inviteeUserId = false ∧
        perform (.createInvitation userId invitation) st =
          { st with invitations := st.invitations.set invitation.id invitation } := by
  unfold perform InMemorySplitStore.createInvitation
  dsimp only
  split
  · exact Or.inl rfl
  · split
    · exact Or.inl rfl
    · split
      · exact Or.inl rfl
      · rename_i admin
        split
        · exact Or.inl rfl
        · rename_i other
          split
          · exact Or.inl rfl
          · exact Or.inr ⟨by simpa using admin, by simpa using other, rfl⟩

theorem declineInvitation_cases (st : InMemorySplitStore) (userId invitationId now : String) :
    perform (.declineInvitation userId invitationId now) st = st ∨
      ∃ invitation, perform (.declineInvitation userId invitationId now) st =
        st.decideInvitation invitation .declined now := by
  unfold perform InMemorySplitStore.declineInvitation
  dsimp only
  split
  · exact Or.inl rfl
  · exact Or.inr ⟨_, rfl⟩

theorem revokeInvitation_cases (st : InMemorySplitStore) (userId groupId invitationId now : String) :
    perform (.revokeInvitation userId groupId invitationId now) st = st ∨
      ∃ invitation, perform (.revokeInvitation userId groupId invitationId now) st =
        st.decideInvitation invitation .revoked now := by
  unfold perform InMemorySplitStore.revokeInvitation
  dsimp only
  split
  · split
    · exact Or.inr ⟨_, rfl⟩
    · exact Or.inl rfl
  · exact Or.inl rfl

theorem acceptInvitation_cases (st : InMemorySplitStore) (userId invitationId now : String) :
    perform (.acceptInvitation userId invitationId now) st = st ∨
      ∃ invitation rows, st.pendingFor userId invitationId = some invitation ∧
        (rows = st.membersOf invitation.groupId ∨
          rows = st.membersOf invitation.groupId ++ [⟨invitation.groupId, userId, .member, now⟩]) ∧
        perform (.acceptInvitation userId invitationId now) st =
          { st with members := st.members.set invitation.groupId rows }.decideInvitation invitation
            .accepted now := by
  unfold perform InMemorySplitStore.acceptInvitation
  dsimp only
  split
  · exact Or.inl rfl
  · rename_i invitation pending
    split
    · exact Or.inl rfl
    · refine Or.inr ⟨invitation, _, pending, ?_, rfl⟩
      split
      · exact Or.inl rfl
      · exact Or.inr rfl

theorem removeMember_cases (st : InMemorySplitStore) (userId groupId targetUserId now : String) :
    perform (.removeMember userId groupId targetUserId now) st = st ∨
      ∃ status, status ≠ .pending ∧ perform (.removeMember userId groupId targetUserId now) st =
        { st with
          members := st.members.set groupId ((st.membersOf groupId).filter (·.userId != targetUserId))
          invitations := st.invitations.sweep (·.id)
            (fun invitation => invitation.groupId == groupId &&
              invitation.inviteeUserId == targetUserId && invitation.status == .accepted)
            (fun invitation => { invitation with status, decidedAt := some now }) } := by
  unfold perform InMemorySplitStore.removeMember
  dsimp only
  split
  · exact Or.inl rfl
  · split
    · exact Or.inl rfl
    · split
      · exact Or.inl rfl
      · split
        · exact Or.inl rfl
        · split
          · exact Or.inl rfl
          · refine Or.inr ⟨_, ?_, rfl⟩
            split
            · exact nofun
            · exact nofun

/-! ### Who joins a group, and what makes an invitation pending -/

theorem isMember_iff : st.isMember groupId userId = true ↔
    ∃ rows, st.members.get? groupId = some rows ∧ ∃ member ∈ rows, member.userId = userId := by
  rw [InMemorySplitStore.isMember, InMemorySplitStore.membersOf]
  cases st.members.get? groupId with
  | none => simp
  | some rows => simp

theorem isMember_of_filter {rows : List SplitGroupMember} {p : SplitGroupMember → Bool} {other : String}
    (kept : rows = (st.membersOf other).filter p)
    (member : ({ st with members := st.members.set other rows } : InMemorySplitStore).isMember groupId userId) :
    st.isMember groupId userId := by
  obtain ⟨found, stored, row, listed, same⟩ := isMember_iff.mp member
  rw [OrdMap.get?_set] at stored
  split at stored
  · rename_i here
    subst here
    obtain rfl := Option.some.inj stored
    subst kept
    rw [InMemorySplitStore.isMember, List.any_eq_true]
    exact ⟨row, (List.mem_filter.mp listed).1, by simpa using same⟩
  · exact isMember_iff.mpr ⟨found, stored, row, listed, same⟩

/-- Whoever is a member after an operation and was none before has founded the group, or accepted an
invitation to it that was pending for them. -/
theorem perform_joins (before : st.isMember groupId userId = false)
    (now : (perform call st).isMember groupId userId = true) :
    (∃ group membership, call = .createGroup group membership ∧ group.id = groupId ∧
      membership.userId = userId) ∨
    ∃ invitationId at_ invitation, call = .acceptInvitation userId invitationId at_ ∧
      st.pendingFor userId invitationId = some invitation ∧ invitation.groupId = groupId := by
  have unchanged {st' : InMemorySplitStore} (same : st'.members = st.members)
      (now : st'.isMember groupId userId = true) : False := by
    rw [InMemorySplitStore.isMember, InMemorySplitStore.membersOf, same] at now
    exact absurd (now.symm.trans before) nofun
  cases call with
  | createGroup group membership =>
    obtain ⟨rows, stored, row, listed, rfl⟩ := isMember_iff.mp now
    change (st.members.set group.id [membership]).get? groupId = some rows at stored
    rw [OrdMap.get?_set] at stored
    split at stored
    · rename_i here
      obtain rfl := Option.some.inj stored
      exact Or.inl ⟨group, membership, rfl, here, by rw [List.mem_singleton.mp listed]⟩
    · exact absurd (isMember_iff.mpr ⟨rows, stored, row, listed, rfl⟩) (by simp [before])
  | archiveGroup user group at_ => exact (unchanged (archiveGroup_same user group at_).1 now).elim
  | createInvitation user invitation =>
    rcases createInvitation_cases st user invitation with same | ⟨-, -, made⟩
    · exact (unchanged (by rw [same]) now).elim
    · exact (unchanged (by rw [made]) now).elim
  | acceptInvitation user invitationId at_ =>
    rcases acceptInvitation_cases st user invitationId at_ with
      same | ⟨invitation, rows, pending, grown, accepted⟩
    · exact (unchanged (by rw [same]) now).elim
    · rw [accepted] at now
      obtain ⟨found, stored, row, listed, rfl⟩ := isMember_iff.mp now
      change (st.members.set invitation.groupId rows).get? groupId = some found at stored
      rw [OrdMap.get?_set] at stored
      split at stored
      · rename_i here
        obtain rfl := Option.some.inj stored
        have already (listed : row ∈ st.membersOf invitation.groupId) : False := by
          rw [here] at listed
          have member : st.isMember groupId row.userId = true :=
            List.any_eq_true.mpr ⟨row, listed, by simp⟩
          rw [before] at member
          cases member
        rcases grown with rfl | rfl
        · exact (already listed).elim
        · rcases List.mem_append.mp listed with listed | listed
          · exact (already listed).elim
          · rw [List.mem_singleton.mp listed]
            exact Or.inr ⟨invitationId, at_, invitation, rfl, pending, here⟩
      · exact absurd (isMember_iff.mpr ⟨found, stored, row, listed, rfl⟩) (by simp [before])
  | declineInvitation user invitationId at_ =>
    rcases declineInvitation_cases st user invitationId at_ with same | ⟨invitation, declined⟩
    · exact (unchanged (by rw [same]) now).elim
    · exact (unchanged (by rw [declined]; rfl) now).elim
  | revokeInvitation user group invitationId at_ =>
    rcases revokeInvitation_cases st user group invitationId at_ with same | ⟨invitation, revoked⟩
    · exact (unchanged (by rw [same]) now).elim
    · exact (unchanged (by rw [revoked]; rfl) now).elim
  | removeMember user group target at_ =>
    rcases removeMember_cases st user group target at_ with same | ⟨status, -, removed⟩
    · exact (unchanged (by rw [same]) now).elim
    · rw [removed] at now
      have earlier : st.isMember groupId userId = true := isMember_of_filter rfl now
      rw [before] at earlier
      cases earlier
  | addExpense user expense => exact (unchanged (addExpense_same user expense).1 now).elim
  | addSettlement user settlement => exact (unchanged (addSettlement_same user settlement).1 now).elim
  | purgeUser user =>
    obtain ⟨rows, stored, row, listed, same⟩ := isMember_iff.mp now
    change (st.members.map fun rows => rows.filter (·.userId != user)).get? groupId = some rows at stored
    rw [OrdMap.get?_map] at stored
    obtain ⟨all, found, rfl⟩ := Option.map_eq_some_iff.mp stored
    have earlier : st.isMember groupId userId = true :=
      isMember_iff.mpr ⟨all, found, row, (List.mem_filter.mp listed).1, same⟩
    rw [before] at earlier
    cases earlier

/-- An invitation is pending that was not there before, when an administrator of its group has just made
it. -/
theorem perform_invites (pending : invitation.status = .pending)
    (before : st.invitations.get? invitationId ≠ some invitation)
    (now : (perform call st).invitations.get? invitationId = some invitation) :
    ∃ admin, call = .createInvitation admin invitation ∧ invitation.id = invitationId ∧
      st.isAdmin invitation.groupId admin = true ∧
      st.isMember invitation.groupId invitation.inviteeUserId = false := by
  have unchanged {st' : InMemorySplitStore} (same : st'.invitations = st.invitations)
      (now : st'.invitations.get? invitationId = some invitation) : False :=
    before (same ▸ now)
  have decided (status : SplitInvitationStatus) (over_ : status ≠ .pending) {other : SplitGroupInvitation}
      {at_ : Option String}
      (now : (st.invitations.set other.id { other with status, decidedAt := at_ }).get? invitationId =
        some invitation) : False := by
    rw [OrdMap.get?_set] at now
    split at now
    · obtain rfl := Option.some.inj now
      exact over_ pending
    · exact before now
  cases call with
  | createGroup group membership => exact (unchanged rfl now).elim
  | archiveGroup user group at_ => exact (unchanged (archiveGroup_same user group at_).2 now).elim
  | createInvitation user made =>
    rcases createInvitation_cases st user made with same | ⟨admin, other, stored⟩
    · exact (unchanged (by rw [same]) now).elim
    · rw [stored] at now
      change (st.invitations.set made.id made).get? invitationId = some invitation at now
      rw [OrdMap.get?_set] at now
      split at now
      · rename_i here
        obtain rfl := Option.some.inj now
        exact ⟨user, rfl, here, admin, other⟩
      · exact absurd now before
  | acceptInvitation user other at_ =>
    rcases acceptInvitation_cases st user other at_ with same | ⟨found, rows, -, -, accepted⟩
    · exact (unchanged (by rw [same]) now).elim
    · rw [accepted] at now
      exact (decided .accepted (by decide) now).elim
  | declineInvitation user other at_ =>
    rcases declineInvitation_cases st user other at_ with same | ⟨found, declined⟩
    · exact (unchanged (by rw [same]) now).elim
    · rw [declined] at now
      exact (decided .declined (by decide) now).elim
  | revokeInvitation user group other at_ =>
    rcases revokeInvitation_cases st user group other at_ with same | ⟨found, revoked⟩
    · exact (unchanged (by rw [same]) now).elim
    · rw [revoked] at now
      exact (decided .revoked (by decide) now).elim
  | removeMember user group target at_ =>
    rcases removeMember_cases st user group target at_ with same | ⟨status, over_, removed⟩
    · exact (unchanged (by rw [same]) now).elim
    · rw [removed] at now
      refine absurd (OrdMap.get?_of_sweep now fun other same => ?_) before
      subst same
      exact over_ pending
  | addExpense user expense => exact (unchanged (addExpense_same user expense).2 now).elim
  | addSettlement user settlement => exact (unchanged (addSettlement_same user settlement).2 now).elim
  | purgeUser user => exact (unchanged rfl now).elim

/-! ### Every member was admitted -/

theorem pendingFor_eq_some : st.pendingFor userId invitationId = some invitation ↔
    st.invitations.get? invitationId = some invitation ∧ invitation.inviteeUserId = userId ∧
      invitation.status = .pending := by
  rw [InMemorySplitStore.pendingFor, Option.filter_eq_some_iff]
  simp

/-- What a run of the store's operations leads to, from the empty store. -/
def reached (calls : List StoreCall) : InMemorySplitStore := Steps.after perform calls {}

theorem reached_snoc (calls : List StoreCall) (call : StoreCall) :
    reached (calls ++ [call]) = perform call (reached calls) := by
  unfold reached
  exact Steps.after_snoc calls call _

theorem reached_since {P : InMemorySplitStore → Prop} {calls : List StoreCall} (first : ¬P {})
    (last : P (reached calls)) : ∃ earlier call later, calls = earlier ++ call :: later ∧
      ¬P (reached earlier) ∧ ∀ part, part <+: later → P (reached (earlier ++ call :: part)) :=
  Steps.exists_since first last

/-- In the run so far the invitation was made by an administrator of its group, for somebody else, and it
has been pending ever since. -/
def PendingSince (calls : List StoreCall) (invitation : SplitGroupInvitation) : Prop :=
  ∃ before admin between, calls = before ++ .createInvitation admin invitation :: between ∧
    (reached before).isAdmin invitation.groupId admin = true ∧
    (reached before).isMember invitation.groupId invitation.inviteeUserId = false ∧
    ∀ part, part <+: between →
      (reached (before ++ .createInvitation admin invitation :: part)).invitations.get? invitation.id =
        some invitation

theorem pendingSince {calls : List StoreCall}
    (pending : (reached calls).pendingFor userId invitationId = some invitation) :
    PendingSince calls invitation ∧ invitation.id = invitationId ∧ invitation.inviteeUserId = userId := by
  obtain ⟨stored, invitee, waiting⟩ := pendingFor_eq_some.mp pending
  obtain ⟨before, call, between, rfl, fresh, since⟩ := reached_since
    (P := fun st => st.invitations.get? invitationId = some invitation) nofun stored
  have made := since [] List.nil_prefix
  rw [reached_snoc] at made
  obtain ⟨admin, rfl, rfl, administers, other⟩ := perform_invites waiting fresh made
  exact ⟨⟨before, admin, between, rfl, administers, other, since⟩, rfl, invitee⟩

/-- Whatever operations the users have asked for, a member of a group has founded it or accepted an
invitation to it, and has been a member ever since. The invitation was for them, an administrator of the
group made it while they were no member, and it was pending from then on until they accepted it. -/
theorem members_admitted {calls : List StoreCall} {groupId userId : String}
    (member : (reached calls).isMember groupId userId = true) :
    ∃ earlier call later, calls = earlier ++ call :: later ∧
      (∀ part, part <+: later → (reached (earlier ++ call :: part)).isMember groupId userId = true) ∧
      ((∃ group membership, call = .createGroup group membership ∧ group.id = groupId ∧
        membership.userId = userId) ∨
      ∃ invitation at_, call = .acceptInvitation userId invitation.id at_ ∧
        invitation.groupId = groupId ∧ invitation.inviteeUserId = userId ∧
        PendingSince earlier invitation) := by
  obtain ⟨earlier, call, later, rfl, fresh, since⟩ := reached_since
    (P := fun st => st.isMember groupId userId = true) nofun member
  refine ⟨earlier, call, later, rfl, since, ?_⟩
  have joined := since [] List.nil_prefix
  rw [reached_snoc] at joined
  rcases perform_joins (Bool.eq_false_of_not_eq_true fresh) joined with
    founded | ⟨invitationId, at_, invitation, rfl, pending, here⟩
  · exact Or.inl founded
  · obtain ⟨waiting, rfl, invitee⟩ := pendingSince pending
    exact Or.inr ⟨invitation, at_, rfl, here, invitee, waiting⟩

def trip : SplitGroup := ⟨"g1", "Trip", "EUR", some "sam", "2026-05-01", none⟩

def tripInvitation : SplitGroupInvitation := ⟨"i1", "g1", "kim", some "sam", .pending, "2026-05-01", none⟩

/-- Sam founds a group, and Kim accepts an invitation of Sam's. -/
def tripCalls : List StoreCall :=
  [.createGroup trip ⟨"g1", "sam", .admin, "2026-05-01"⟩, .createInvitation "sam" tripInvitation,
    .acceptInvitation "kim" "i1" "2026-05-02"]

theorem trip_admitted : ∃ earlier call later, tripCalls = earlier ++ call :: later ∧
    (∀ part, part <+: later → (reached (earlier ++ call :: part)).isMember "g1" "kim" = true) ∧
    ((∃ group membership, call = .createGroup group membership ∧ group.id = "g1" ∧
      membership.userId = "kim") ∨
    ∃ invitation at_, call = .acceptInvitation "kim" invitation.id at_ ∧
      invitation.groupId = "g1" ∧ invitation.inviteeUserId = "kim" ∧
      PendingSince earlier invitation) := by
  have member : (reached tripCalls).isMember "g1" "kim" = true := by decide +kernel
  exact members_admitted member

end Finverse.Split
