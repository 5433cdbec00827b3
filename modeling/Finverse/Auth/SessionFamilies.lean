import Finverse.Auth.Service

/-! The families of sessions: what each call may do to them, and what every call preserves. -/

namespace Finverse.Auth

open Interleave

namespace SessionStore

variable (st : SessionStore)

def get? (id : Nat) : Option Session := st.byId.get? id

/-- Every session is stored under its own id. -/
def Keyed : Prop := ∀ k s, st.get? k = some s → s.id = k

variable {st}

theorem get?_create (session : Session) (k : Nat) :
    (st.create session).get? k = if session.id = k then some session else st.get? k :=
  OrdMap.get?_set ..

theorem rotate_some {sessionId : Nat} {successor : Session} {at_ : Date} {st' : SessionStore}
    (h : st.rotate sessionId successor at_ = some st') :
    ∃ current, st.get? sessionId = some current ∧ current.revokedAt = none ∧
      ∀ k, st'.get? k = if successor.id = k then some successor
        else if sessionId = k then some (revoked current .rotated at_) else st.get? k := by
  simp only [rotate] at h
  split at h
  · simp at h
  · rename_i current hc
    split at h
    · simp at h
    · rename_i hr
      obtain rfl := Option.some.inj h
      refine ⟨current, hc, by simpa using hr, fun k => ?_⟩
      simp only [get?, OrdMap.get?_set]

theorem rotate_none {sessionId : Nat} {successor : Session} {at_ : Date} :
    st.rotate sessionId successor at_ = none ↔
      ∀ current, st.get? sessionId = some current → current.revokedAt.isSome := by
  simp only [rotate, get?]
  split
  · rename_i hc
    simp [hc]
  · rename_i current hc
    simp [hc, Option.isSome_iff_ne_none]

theorem get?_revoke (keyed : st.Keyed) (sessionId : Nat) (reason : RevokedReason) (at_ : Date)
    (k : Nat) :
    (st.revoke sessionId reason at_).get? k = (st.get? k).map fun s =>
      if s.id == sessionId && s.revokedAt.isNone then revoked s reason at_ else s := by
  by_cases hk : sessionId = k
  · subst hk
    simp only [revoke]
    cases hs : st.byId.get? sessionId with
    | none => simp [get?, hs]
    | some s =>
      have hid : s.id = sessionId := keyed _ _ hs
      cases hr : s.revokedAt <;> simp [get?, hs, hr, hid]
  · have same : (st.revoke sessionId reason at_).get? k = st.get? k := by
      simp only [revoke]
      split
      · rfl
      · split
        · rfl
        · exact OrdMap.get?_set_ne _ _ hk
    rw [same]
    cases hs : st.get? k with
    | none => rfl
    | some s =>
      have hid : s.id ≠ sessionId := fun h => hk (h.symm.trans (keyed _ _ hs))
      simp [hid]

theorem get?_revokeWhere (keyed : st.Keyed) (p : Session → Bool) (reason : RevokedReason)
    (at_ : Date) (k : Nat) :
    (st.revokeWhere p reason at_).1.get? k = (st.get? k).map fun s =>
      if p s && s.revokedAt.isNone then revoked s reason at_ else s :=
  OrdMap.get?_sweep Session.id _ _ st.byId keyed k

theorem findByTokenHash_some {tokenHash : Nat} {s : Session}
    (h : st.findByTokenHash tokenHash = some s) :
    s.tokenHash = tokenHash ∧ ∃ k, st.get? k = some s := by
  refine ⟨by simpa using List.find?_some h, ?_⟩
  exact OrdMap.mem_values.mp (List.mem_of_find?_eq_some h)

theorem findByTokenHash_none {tokenHash : Nat} (h : st.findByTokenHash tokenHash = none) {k : Nat}
    {s : Session} (hs : st.get? k = some s) : s.tokenHash ≠ tokenHash := by
  have := List.find?_eq_none.mp h s (OrdMap.mem_values.mpr ⟨k, hs⟩)
  simpa using this

theorem findById_some {userId sessionId : Nat} {s : Session} :
    st.findById userId sessionId = some s ↔ st.get? sessionId = some s ∧ s.userId = userId := by
  simp [findById, get?, Option.filter_eq_some_iff]

end SessionStore

/-! ### What a call does to the sessions -/

/-- A session as later calls may leave it: unchanged, or revoked once. -/
def Continues (s s' : Session) : Prop :=
  s' = s ∨ s.revokedAt = none ∧ ∃ reason at_, s' = SessionStore.revoked s reason at_

theorem Continues.refl (s : Session) : Continues s s := .inl rfl

theorem Continues.trans {s t u : Session} (h : Continues s t) (h' : Continues t u) :
    Continues s u := by
  rcases h with rfl | ⟨hr, reason, at_, rfl⟩
  · exact h'
  · rcases h' with rfl | ⟨hr', -⟩
    · exact .inr ⟨hr, reason, at_, rfl⟩
    · simp [SessionStore.revoked] at hr'

section Continues

variable {s s' : Session}

theorem Continues.id (h : Continues s s') : s'.id = s.id := by
  rcases h with rfl | ⟨-, _, _, rfl⟩ <;> rfl

theorem Continues.userId (h : Continues s s') : s'.userId = s.userId := by
  rcases h with rfl | ⟨-, _, _, rfl⟩ <;> rfl

theorem Continues.familyId (h : Continues s s') : s'.familyId = s.familyId := by
  rcases h with rfl | ⟨-, _, _, rfl⟩ <;> rfl

theorem Continues.tokenHash (h : Continues s s') : s'.tokenHash = s.tokenHash := by
  rcases h with rfl | ⟨-, _, _, rfl⟩ <;> rfl

/-- A revoked session does not change any more. -/
theorem Continues.eq_of_revoked (h : Continues s s') (hr : s.revokedAt.isSome) : s' = s := by
  rcases h with rfl | ⟨hn, -⟩
  · rfl
  · simp [hn] at hr

end Continues

/-- The only call that spends a session. -/
def Call.IsRotate : Call → Prop
  | .rotateSession .. => True
  | _ => False

/-- The call revokes sessions for this reason. -/
def Call.Closes (call : Call) (reason : RevokedReason) : Prop :=
  match call with
  | .revokeSession _ r _ | .revokeFamily _ r _ | .revokeAllForUser _ r _ => r = reason
  | _ => False

/-- The effect of one call on the sessions. -/
inductive SessionStep (K : Config) (call : Call) (w w' : World) : Prop
  | quiet (sessions : w'.sessions = w.sessions) (redeemed : w'.redeemed = w.redeemed)
      (supply : w.supply ≤ w'.supply)
  | opened (user : User) (context : RequestContext) (now : Date)
      (sessions : w'.sessions =
        w.sessions.create (buildSession K.prims w.supply user none context now).1)
      (redeemed : w'.redeemed = w.redeemed) (supply : w'.supply = w.supply + 3)
  | spent (request : Nat) (session : Session) (user : User) (context : RequestContext)
      (at_ now : Date) (isRotate : call.IsRotate)
      (sessions : w.sessions.rotate session.id
        (buildSession K.prims w.supply user (some session.familyId) context now).1 at_ =
          some w'.sessions)
      (redeemed : w'.redeemed = (request, session.tokenHash) :: w.redeemed)
      (supply : w'.supply = w.supply + 3)
  | closed (p : Session → Bool) (reason : RevokedReason) (at_ : Date) (closes : call.Closes reason)
      (sessions : ∀ k, w'.sessions.get? k = (w.sessions.get? k).map fun s =>
        if p s && s.revokedAt.isNone then SessionStore.revoked s reason at_ else s)
      (redeemed : w'.redeemed = w.redeemed) (supply : w'.supply = w.supply)

section Steps

variable (K : Config)

theorem rotateSession_step (w : World) (request : Nat) (session : Session) (user : User)
    (context : RequestContext) (at_ now : Date) :
    let r := w.rotateSession K.prims request session user context at_ now
    (r.1 = none ∧ ∃ n, r.2 = w.draw n) ∨
      ∃ sessions, w.sessions.rotate session.id
        (buildSession K.prims w.supply user (some session.familyId) context now).1 at_ =
          some sessions ∧
        r = (some (buildSession K.prims w.supply user (some session.familyId) context now).2,
          { w.draw 3 with sessions, redeemed := (request, session.tokenHash) :: w.redeemed }) := by
  simp only [World.rotateSession]
  split
  · exact .inl ⟨rfl, 3, rfl⟩
  · rename_i sessions hs
    exact .inr ⟨sessions, hs, rfl⟩

/-- Every call has one of the four effects. -/
theorem perform_sessionStep (call : Call) (env : Env) (w : World) (keyed : w.sessions.Keyed) :
    SessionStep K call w (perform K call env w).2 := by
  cases call with
  | createSession request user context => exact .opened user context env.now rfl rfl rfl
  | rotateSession request session user context at_ =>
    rcases rotateSession_step K w request session user context at_ env.now with
      ⟨-, n, h⟩ | ⟨sessions, hs, h⟩
    · simp only [perform, h]
      exact .quiet rfl rfl (Nat.le_add_right _ _)
    · simp only [perform, h]
      exact .spent request session user context at_ env.now trivial hs rfl rfl
  | revokeSession sessionId reason at_ =>
    exact .closed (fun s => s.id == sessionId) reason at_ rfl
      (SessionStore.get?_revoke keyed sessionId reason at_) rfl rfl
  | revokeFamily familyId reason at_ =>
    exact .closed _ reason at_ rfl (SessionStore.get?_revokeWhere keyed _ reason at_) rfl rfl
  | revokeAllForUser userId reason at_ =>
    exact .closed _ reason at_ rfl (SessionStore.get?_revokeWhere keyed _ reason at_) rfl rfl
  | createRegistration request email passwordHash displayName =>
    simp only [perform, World.createRegistration]
    split <;> exact .quiet rfl rfl (Nat.le_add_right _ _)
  | getMfaForLogin request userId =>
    simp only [perform]
    split <;> exact .quiet rfl rfl (Nat.le_refl _)
  | _ =>
    simp only [perform]
    first
    | exact .quiet rfl rfl (Nat.le_refl _)
    | exact .quiet rfl rfl (Nat.le_add_right _ _)
    | split <;> first
      | exact .quiet rfl rfl (Nat.le_refl _)
      | exact .quiet rfl rfl (Nat.le_add_right _ _)

end Steps

/-! ### What every call preserves -/

/-- No session of the family may be used, and none ever will. -/
def Dead (w : World) (familyId : Nat) : Prop :=
  familyId < w.supply ∧
    ∀ k s, w.sessions.get? k = some s → s.familyId = familyId → s.revokedAt.isSome

structure FamilyInv (P : Primitives) (w : World) : Prop where
  keyed : w.sessions.Keyed
  below : ∀ k s, w.sessions.get? k = some s → k < w.supply ∧ s.familyId < w.supply ∧
    ∃ token, token < w.supply ∧ s.tokenHash = P.hashToken token
  distinct : ∀ j k s t, w.sessions.get? j = some s → w.sessions.get? k = some t →
    s.tokenHash = t.tokenHash → j = k
  reasoned : ∀ k s, w.sessions.get? k = some s → s.revokedReason.isSome = s.revokedAt.isSome
  /-- At most one session of a family is unrevoked. -/
  single : ∀ j k s t, w.sessions.get? j = some s → w.sessions.get? k = some t →
    s.familyId = t.familyId → s.revokedAt = none → t.revokedAt = none → j = k
  /-- Only a rotation leaves a successor. -/
  ended : ∀ k s, w.sessions.get? k = some s → s.revokedAt.isSome →
    s.revokedReason ≠ some .rotated → Dead w s.familyId
  spent : ∀ e ∈ w.redeemed, ∃ k s, w.sessions.get? k = some s ∧ s.tokenHash = e.2 ∧
    s.revokedAt.isSome
  once : (w.redeemed.map Prod.snd).Nodup

structure Evolves (w w' : World) : Prop where
  supply : w.supply ≤ w'.supply
  sessions : ∀ k s, w.sessions.get? k = some s →
    ∃ s', w'.sessions.get? k = some s' ∧ Continues s s'
  dead : ∀ f, Dead w f → Dead w' f
  redeemed : ∀ e ∈ w.redeemed, e ∈ w'.redeemed
  /-- Only an unrevoked session's token is redeemed. -/
  unspent : ∀ e ∈ w'.redeemed, e ∈ w.redeemed ∨
    ∀ k s, w.sessions.get? k = some s → s.tokenHash = e.2 → s.revokedAt = none

theorem Evolves.refl (w : World) : Evolves w w :=
  ⟨Nat.le_refl _, fun _ s hs => ⟨s, hs, .refl s⟩, fun _ h => h, fun _ h => h, fun _ h => .inl h⟩

theorem Evolves.trans {u v w : World} (h : Evolves u v) (h' : Evolves v w) : Evolves u w where
  supply := Nat.le_trans h.supply h'.supply
  sessions := by
    intro k s hs
    obtain ⟨t, ht, hst⟩ := h.sessions k s hs
    obtain ⟨r, hr, htr⟩ := h'.sessions k t ht
    exact ⟨r, hr, hst.trans htr⟩
  dead := fun f hf => h'.dead f (h.dead f hf)
  redeemed := fun e he => h'.redeemed e (h.redeemed e he)
  unspent := by
    intro e he
    rcases h'.unspent e he with he | hv
    · exact h.unspent e he
    · refine .inr fun k s hs hh => ?_
      obtain ⟨t, ht, hst⟩ := h.sessions k s hs
      have hu := hv k t ht (hst.tokenHash.trans hh)
      by_contra hr
      rw [hst.eq_of_revoked (Option.isSome_iff_ne_none.mpr hr)] at hu
      exact hr hu

theorem FamilyInv.empty (P : Primitives) : FamilyInv P World.empty := by
  have none_stored : ∀ k, World.empty.sessions.get? k = none := fun _ => rfl
  refine ⟨?_, ?_, ?_, ?_, ?_, ?_, ?_, List.nodup_nil⟩
  · intro k s hs
    simp [none_stored] at hs
  · intro k s hs
    simp [none_stored] at hs
  · intro j k s t hs
    simp [none_stored] at hs
  · intro k s hs
    simp [none_stored] at hs
  · intro j k s t hs
    simp [none_stored] at hs
  · intro k s hs
    simp [none_stored] at hs
  · intro e he
    simp [World.empty] at he

section Preservation

variable {K : Config} {w w' : World}

theorem FamilyInv.quiet (inv : FamilyInv K.prims w) (sessions : w'.sessions = w.sessions)
    (redeemed : w'.redeemed = w.redeemed) (supply : w.supply ≤ w'.supply) :
    FamilyInv K.prims w' ∧ Evolves w w' := by
  have dead : ∀ f, Dead w f → Dead w' f := by
    rintro f ⟨hf, h⟩
    exact ⟨Nat.lt_of_lt_of_le hf supply, by rwa [sessions]⟩
  refine ⟨⟨?_, ?_, ?_, ?_, ?_, ?_, ?_, ?_⟩, ⟨supply, ?_, dead, ?_, ?_⟩⟩
  · rw [sessions]
    exact inv.keyed
  · rw [sessions]
    intro k s hs
    obtain ⟨h1, h2, token, h3, h4⟩ := inv.below k s hs
    exact ⟨by omega, by omega, token, by omega, h4⟩
  · rw [sessions]
    exact inv.distinct
  · rw [sessions]
    exact inv.reasoned
  · rw [sessions]
    exact inv.single
  · rw [sessions]
    intro k s hs hr hn
    exact dead _ (inv.ended k s hs hr hn)
  · rw [sessions, redeemed]
    exact inv.spent
  · rw [redeemed]
    exact inv.once
  · rw [sessions]
    exact fun k s hs => ⟨s, hs, .refl s⟩
  · rw [redeemed]
    exact fun _ h => h
  · rw [redeemed]
    exact fun _ h => .inl h

/-- The successor that a rotation or a sign-in adds is new in every respect. -/
theorem FamilyInv.fresh (inv : FamilyInv K.prims w)
    (collisionFree : Function.Injective K.prims.hashToken) {k : Nat} {s : Session}
    (hs : w.sessions.get? k = some s) :
    k ≠ w.supply ∧ s.familyId ≠ w.supply + 2 ∧ s.tokenHash ≠ K.prims.hashToken (w.supply + 1) := by
  obtain ⟨h1, h2, token, h3, h4⟩ := inv.below k s hs
  refine ⟨by omega, by omega, ?_⟩
  rw [h4]
  intro h
  have := collisionFree h
  omega

theorem FamilyInv.opened (inv : FamilyInv K.prims w)
    (collisionFree : Function.Injective K.prims.hashToken) {user : User}
    {context : RequestContext} {now : Date}
    (sessions : w'.sessions =
      w.sessions.create (buildSession K.prims w.supply user none context now).1)
    (redeemed : w'.redeemed = w.redeemed) (supply : w'.supply = w.supply + 3) :
    FamilyInv K.prims w' ∧ Evolves w w' := by
  let new := (buildSession K.prims w.supply user none context now).1
  have get : ∀ k, w'.sessions.get? k =
      if w.supply = k then some new else w.sessions.get? k := by
    intro k
    rw [sessions]
    exact SessionStore.get?_create new k
  have old : ∀ k s, w.sessions.get? k = some s → w'.sessions.get? k = some s := by
    intro k s hs
    rw [get, if_neg (inv.fresh collisionFree hs).1.symm, hs]
  have cases_of : ∀ k s, w'.sessions.get? k = some s →
      (w.supply = k ∧ s = new) ∨ (w.supply ≠ k ∧ w.sessions.get? k = some s) := by
    intro k s hs
    rw [get] at hs
    split at hs
    · rename_i hk
      exact .inl ⟨hk, (Option.some.inj hs).symm⟩
    · rename_i hk
      exact .inr ⟨hk, hs⟩
  have dead : ∀ f, Dead w f → Dead w' f := by
    rintro f ⟨hf, h⟩
    refine ⟨by omega, ?_⟩
    intro k s hs he
    rcases cases_of k s hs with ⟨-, rfl⟩ | ⟨-, hs⟩
    · have : f = w.supply + 2 := he.symm
      omega
    · exact h k s hs he
  refine ⟨⟨?_, ?_, ?_, ?_, ?_, ?_, ?_, ?_⟩, ⟨by omega, ?_, dead, ?_, ?_⟩⟩
  · intro k s hs
    rcases cases_of k s hs with ⟨rfl, rfl⟩ | ⟨-, hs⟩
    · rfl
    · exact inv.keyed k s hs
  · intro k s hs
    rcases cases_of k s hs with ⟨rfl, rfl⟩ | ⟨-, hs⟩
    · refine ⟨by omega, ?_, w.supply + 1, by omega, rfl⟩
      change w.supply + 2 < w'.supply
      omega
    · obtain ⟨h1, h2, token, h3, h4⟩ := inv.below k s hs
      exact ⟨by omega, by omega, token, by omega, h4⟩
  · intro j k s t hs ht he
    rcases cases_of j s hs with ⟨rfl, rfl⟩ | ⟨-, hs⟩ <;>
      rcases cases_of k t ht with ⟨rfl, rfl⟩ | ⟨-, ht⟩
    · rfl
    · exact absurd he.symm (inv.fresh collisionFree ht).2.2
    · exact absurd he (inv.fresh collisionFree hs).2.2
    · exact inv.distinct j k s t hs ht he
  · intro k s hs
    rcases cases_of k s hs with ⟨-, rfl⟩ | ⟨-, hs⟩
    · rfl
    · exact inv.reasoned k s hs
  · intro j k s t hs ht he hr hr'
    rcases cases_of j s hs with ⟨rfl, rfl⟩ | ⟨-, hs⟩ <;>
      rcases cases_of k t ht with ⟨rfl, rfl⟩ | ⟨-, ht⟩
    · rfl
    · exact absurd he.symm (inv.fresh collisionFree ht).2.1
    · exact absurd he (inv.fresh collisionFree hs).2.1
    · exact inv.single j k s t hs ht he hr hr'
  · intro k s hs hr hn
    rcases cases_of k s hs with ⟨-, rfl⟩ | ⟨-, hs⟩
    · cases hr
    · exact dead _ (inv.ended k s hs hr hn)
  · rw [redeemed]
    intro e he
    obtain ⟨k, s, hs, h⟩ := inv.spent e he
    exact ⟨k, s, old k s hs, h⟩
  · rw [redeemed]
    exact inv.once
  · exact fun k s hs => ⟨s, old k s hs, .refl s⟩
  · rw [redeemed]
    exact fun _ h => h
  · rw [redeemed]
    exact fun _ h => .inl h

theorem FamilyInv.closed (inv : FamilyInv K.prims w) {p : Session → Bool}
    {reason : RevokedReason} {at_ : Date}
    (sessions : ∀ k, w'.sessions.get? k = (w.sessions.get? k).map fun s =>
      if p s && s.revokedAt.isNone then SessionStore.revoked s reason at_ else s)
    (redeemed : w'.redeemed = w.redeemed) (supply : w'.supply = w.supply) :
    FamilyInv K.prims w' ∧ Evolves w w' := by
  let change := fun s : Session =>
    if p s && s.revokedAt.isNone then SessionStore.revoked s reason at_ else s
  have continues : ∀ s, Continues s (change s) := by
    intro s
    by_cases h : (p s && s.revokedAt.isNone) = true
    · simp only [change, if_pos h]
      exact .inr ⟨by simp_all, reason, at_, rfl⟩
    · simp only [change, if_neg h]
      exact .refl s
  have from_ : ∀ k s', w'.sessions.get? k = some s' →
      ∃ s, w.sessions.get? k = some s ∧ s' = change s := by
    intro k s' hs'
    rw [sessions, Option.map_eq_some_iff] at hs'
    obtain ⟨s, h1, h2⟩ := hs'
    exact ⟨s, h1, h2.symm⟩
  have moved : ∀ k s, w.sessions.get? k = some s → w'.sessions.get? k = some (change s) := by
    intro k s hs
    rw [sessions, hs]
    rfl
  have unrevoked : ∀ s, (change s).revokedAt = none → s.revokedAt = none ∧ change s = s := by
    intro s h
    rcases continues s with he | ⟨-, _, _, he⟩
    · exact ⟨he ▸ h, he⟩
    · rw [he] at h
      cases h
  have dead : ∀ f, Dead w f → Dead w' f := by
    rintro f ⟨hf, h⟩
    refine ⟨by omega, ?_⟩
    intro k s' hs' he
    obtain ⟨s, hs, rfl⟩ := from_ k s' hs'
    have hr := h k s hs ((continues s).familyId ▸ he)
    rwa [(continues s).eq_of_revoked hr]
  refine ⟨⟨?_, ?_, ?_, ?_, ?_, ?_, ?_, ?_⟩, ⟨by omega, ?_, dead, ?_, ?_⟩⟩
  · intro k s' hs'
    obtain ⟨s, hs, rfl⟩ := from_ k s' hs'
    rw [(continues s).id]
    exact inv.keyed k s hs
  · intro k s' hs'
    obtain ⟨s, hs, rfl⟩ := from_ k s' hs'
    rw [(continues s).familyId, (continues s).tokenHash, supply]
    exact inv.below k s hs
  · intro j k s' t' hs' ht' he
    obtain ⟨s, hs, rfl⟩ := from_ j s' hs'
    obtain ⟨t, ht, rfl⟩ := from_ k t' ht'
    rw [(continues s).tokenHash, (continues t).tokenHash] at he
    exact inv.distinct j k s t hs ht he
  · intro k s' hs'
    obtain ⟨s, hs, rfl⟩ := from_ k s' hs'
    rcases continues s with he | ⟨-, _, _, he⟩
    · rw [he]
      exact inv.reasoned k s hs
    · rw [he]
      rfl
  · intro j k s' t' hs' ht' he hr hr'
    obtain ⟨s, hs, rfl⟩ := from_ j s' hs'
    obtain ⟨t, ht, rfl⟩ := from_ k t' ht'
    rw [(continues s).familyId, (continues t).familyId] at he
    exact inv.single j k s t hs ht he (unrevoked s hr).1 (unrevoked t hr').1
  · intro k s' hs' hr hn
    obtain ⟨s, hs, rfl⟩ := from_ k s' hs'
    rw [(continues s).familyId]
    rcases continues s with he | ⟨hnone, -⟩
    · rw [he] at hr hn
      exact dead _ (inv.ended k s hs hr hn)
    · -- This was the family's one unrevoked session.
      refine ⟨supply ▸ (inv.below k s hs).2.1, ?_⟩
      intro j t' ht' hf
      obtain ⟨t, ht, rfl⟩ := from_ j t' ht'
      by_contra hu
      have htu := unrevoked t (by simpa using hu)
      rw [htu.2] at hf
      have hjk := inv.single j k t s ht hs hf htu.1 hnone
      subst hjk
      rw [ht, Option.some.injEq] at hs
      subst hs
      exact hu hr
  · rw [redeemed]
    intro e he
    obtain ⟨k, s, hs, h1, h2⟩ := inv.spent e he
    exact ⟨k, _, moved k s hs, by rwa [(continues s).tokenHash],
      by rwa [(continues s).eq_of_revoked h2]⟩
  · rw [redeemed]
    exact inv.once
  · exact fun k s hs => ⟨_, moved k s hs, continues s⟩
  · rw [redeemed]
    exact fun _ h => h
  · rw [redeemed]
    exact fun _ h => .inl h

/-- The snapshot a rotation was decided on is an earlier state of a stored session. -/
def Snapshot (w : World) (session : Session) : Prop :=
  ∃ stored, w.sessions.get? session.id = some stored ∧ Continues session stored

theorem Snapshot.evolves {session : Session} (h : Snapshot w session) (he : Evolves w w') :
    Snapshot w' session := by
  obtain ⟨stored, hs, hc⟩ := h
  obtain ⟨stored', hs', hc'⟩ := he.sessions _ _ hs
  exact ⟨stored', hs', hc.trans hc'⟩

theorem Snapshot.of_get (inv : FamilyInv K.prims w) {k : Nat} {session : Session}
    (h : w.sessions.get? k = some session) : Snapshot w session :=
  ⟨session, by rwa [inv.keyed k session h], .refl session⟩

theorem FamilyInv.rotated (inv : FamilyInv K.prims w)
    (collisionFree : Function.Injective K.prims.hashToken) {request : Nat} {session : Session}
    {user : User} {context : RequestContext} {at_ now : Date} (snapshot : Snapshot w session)
    (rotated : w.sessions.rotate session.id
      (buildSession K.prims w.supply user (some session.familyId) context now).1 at_ =
        some w'.sessions)
    (redeemed : w'.redeemed = (request, session.tokenHash) :: w.redeemed)
    (supply : w'.supply = w.supply + 3) :
    FamilyInv K.prims w' ∧ Evolves w w' ∧
      ∃ spent, w'.sessions.get? session.id = some spent ∧ spent.tokenHash = session.tokenHash ∧
        spent.revokedAt.isSome := by
  obtain ⟨current, hc, hr, get⟩ := SessionStore.rotate_some rotated
  obtain ⟨stored, hstored, hcont⟩ := snapshot
  obtain rfl : current = stored := by
    rw [hc] at hstored
    exact Option.some.inj hstored
  let new := (buildSession K.prims w.supply user (some session.familyId) context now).1
  let old := SessionStore.revoked current .rotated at_
  have new_family : new.familyId = current.familyId := hcont.familyId.symm
  have current_below := inv.below _ _ hc
  have current_fresh := inv.fresh collisionFree hc
  have old_continues : Continues current old := .inr ⟨hr, _, _, rfl⟩
  have moved : ∀ k s, w.sessions.get? k = some s →
      w'.sessions.get? k = some (if session.id = k then old else s) := by
    intro k s hs
    rw [get, if_neg (show ¬new.id = k from (inv.fresh collisionFree hs).1.symm)]
    split
    · rfl
    · exact hs
  have cases_of : ∀ k s, w'.sessions.get? k = some s →
      (w.supply = k ∧ s = new) ∨ (session.id = k ∧ s = old) ∨
        (session.id ≠ k ∧ w.sessions.get? k = some s) := by
    intro k s hs
    rw [get] at hs
    split at hs
    · rename_i hk
      exact .inl ⟨hk, (Option.some.inj hs).symm⟩
    · split at hs
      · rename_i hk
        exact .inr (.inl ⟨hk, (Option.some.inj hs).symm⟩)
      · rename_i hk
        exact .inr (.inr ⟨hk, hs⟩)
  have dead : ∀ f, Dead w f → Dead w' f := by
    rintro f ⟨hf, h⟩
    have other : current.familyId ≠ f := by
      intro he
      have := h _ _ hc he
      simp [hr] at this
    refine ⟨by omega, ?_⟩
    intro k s hs he
    rcases cases_of k s hs with ⟨-, rfl⟩ | ⟨-, rfl⟩ | ⟨-, hs⟩
    · exact absurd (new_family.symm.trans he) other
    · rfl
    · exact h k s hs he
  -- No other session of the family was unrevoked.
  have others : ∀ k s, session.id ≠ k → w.sessions.get? k = some s →
      s.familyId = current.familyId → s.revokedAt ≠ none := by
    intro k s hk hs he hu
    exact hk (inv.single _ _ _ _ hc hs he.symm hr hu)
  refine ⟨⟨?_, ?_, ?_, ?_, ?_, ?_, ?_, ?_⟩, ⟨by omega, ?_, dead, ?_, ?_⟩, ?_⟩
  · intro k s hs
    rcases cases_of k s hs with ⟨rfl, rfl⟩ | ⟨rfl, rfl⟩ | ⟨-, hs⟩
    · rfl
    · change current.id = _
      exact inv.keyed _ _ hc
    · exact inv.keyed k s hs
  · intro k s hs
    rcases cases_of k s hs with ⟨rfl, rfl⟩ | ⟨rfl, rfl⟩ | ⟨-, hs⟩
    · refine ⟨by omega, ?_, w.supply + 1, by omega, rfl⟩
      rw [new_family]
      omega
    · obtain ⟨h1, h2, token, h3, h4⟩ := current_below
      refine ⟨by omega, ?_, token, by omega, h4⟩
      change current.familyId < _
      omega
    · obtain ⟨h1, h2, token, h3, h4⟩ := inv.below k s hs
      exact ⟨by omega, by omega, token, by omega, h4⟩
  · have new_hash : new.tokenHash = K.prims.hashToken (w.supply + 1) := rfl
    have old_hash : old.tokenHash = current.tokenHash := rfl
    intro j k s t hs ht he
    rcases cases_of j s hs with ⟨rfl, rfl⟩ | ⟨rfl, rfl⟩ | ⟨hj, hs⟩ <;>
      rcases cases_of k t ht with ⟨rfl, rfl⟩ | ⟨rfl, rfl⟩ | ⟨hk, ht⟩
    · rfl
    · exact absurd he.symm current_fresh.2.2
    · exact absurd he.symm (inv.fresh collisionFree ht).2.2
    · exact absurd he current_fresh.2.2
    · rfl
    · exact inv.distinct _ _ _ _ hc ht he
    · exact absurd he (inv.fresh collisionFree hs).2.2
    · exact inv.distinct _ _ _ _ hs hc he
    · exact inv.distinct j k s t hs ht he
  · intro k s hs
    rcases cases_of k s hs with ⟨-, rfl⟩ | ⟨-, rfl⟩ | ⟨-, hs⟩
    · rfl
    · rfl
    · exact inv.reasoned k s hs
  · intro j k s t hs ht he hu hu'
    rcases cases_of j s hs with ⟨rfl, rfl⟩ | ⟨rfl, rfl⟩ | ⟨hj, hs⟩ <;>
      rcases cases_of k t ht with ⟨rfl, rfl⟩ | ⟨rfl, rfl⟩ | ⟨hk, ht⟩
    · rfl
    · cases hu'
    · exact absurd hu' (others k t hk ht (he.symm.trans new_family))
    · cases hu
    · cases hu
    · cases hu
    · exact absurd hu (others j s hj hs (he.trans new_family))
    · cases hu'
    · exact inv.single j k s t hs ht he hu hu'
  · intro k s hs hrev hn
    rcases cases_of k s hs with ⟨-, rfl⟩ | ⟨-, rfl⟩ | ⟨-, hs⟩
    · cases hrev
    · exact absurd rfl hn
    · exact dead _ (inv.ended k s hs hrev hn)
  · rw [redeemed]
    intro e he
    rcases List.mem_cons.mp he with rfl | he
    · refine ⟨session.id, old, ?_, hcont.tokenHash, rfl⟩
      rw [moved _ _ hc, if_pos rfl]
    · obtain ⟨k, s, hs, h1, h2⟩ := inv.spent e he
      have hk : session.id ≠ k := by
        rintro rfl
        rw [hc, Option.some.injEq] at hs
        simp [← hs, hr] at h2
      exact ⟨k, s, by rw [moved k s hs, if_neg hk], h1, h2⟩
  · rw [redeemed, List.map_cons, List.nodup_cons]
    refine ⟨?_, inv.once⟩
    rw [List.mem_map]
    rintro ⟨e, he, heq⟩
    obtain ⟨k, s, hs, h1, h2⟩ := inv.spent e he
    have hk := inv.distinct _ _ _ _ hs hc (by rw [h1, heq, hcont.tokenHash])
    subst hk
    rw [hc, Option.some.injEq] at hs
    simp [← hs, hr] at h2
  · intro k s hs
    refine ⟨_, moved k s hs, ?_⟩
    split
    · rename_i hk
      subst hk
      rw [hc, Option.some.injEq] at hs
      exact hs ▸ old_continues
    · exact .refl s
  · rw [redeemed]
    exact fun _ h => List.mem_cons_of_mem _ h
  · rw [redeemed]
    intro e he
    rcases List.mem_cons.mp he with rfl | he
    · refine .inr fun k s hs hh => ?_
      have hk := inv.distinct _ _ _ _ hs hc (hh.trans hcont.tokenHash.symm)
      subst hk
      rw [hc, Option.some.injEq] at hs
      exact hs ▸ hr
    · exact .inl he
  · exact ⟨old, by rw [moved _ _ hc, if_pos rfl], hcont.tokenHash, rfl⟩

/-- Every call but a rotation keeps the families, wherever it runs. -/
theorem FamilyInv.perform (inv : FamilyInv K.prims w)
    (collisionFree : Function.Injective K.prims.hashToken) {call : Call}
    (hcall : ¬call.IsRotate) (env : Env) :
    FamilyInv K.prims (perform K call env w).2 ∧ Evolves w (perform K call env w).2 := by
  rcases perform_sessionStep K call env w inv.keyed with
    ⟨hs, hr, hsup⟩ | ⟨user, context, now, hs, hr, hsup⟩ |
    ⟨request, session, user, context, at_, now, isRotate, hs, hr, hsup⟩ | ⟨p, reason, at_, -, hs, hr, hsup⟩
  · exact inv.quiet hs hr hsup
  · exact inv.opened collisionFree hs hr hsup
  · exact absurd isRotate hcall
  · exact inv.closed hs hr hsup

end Preservation

end Finverse.Auth
