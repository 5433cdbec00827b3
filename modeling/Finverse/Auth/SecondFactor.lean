import Finverse.Auth.Effects

/-! Which sign-ins were preceded by a second factor. -/

namespace Finverse.Auth

open Interleave

/-! ### The trail of a request -/

def Trail.request : Trail → Nat
  | .waived request _ | .asserted request _ | .accepted request _ | .issued request _ _ => request

namespace World

variable (w : World)

/-- What request `n` did. -/
def deeds (n : Nat) : List Trail := w.trail.filter fun e => e.request == n

/-- Request `n` decided that the user owes no second factor, and did nothing since. -/
def Undecided (n userId : Nat) : Prop := (w.deeds n).getLast? = some (.waived n userId)

/-- No request is between such a decision about the user and the sign-in that follows it. -/
def settled (userId : Nat) : Bool :=
  w.trail.all fun e => (w.deeds e.request).getLast? != some (.waived e.request userId)

/-- Request `n` has met the user's second factor. -/
def Met (n userId : Nat) : Prop := .accepted n userId ∈ w.trail ∨ .asserted n userId ∈ w.trail

/-- Request `n` may sign the user in. -/
def Cleared (n userId : Nat) : Prop := w.Undecided n userId ∨ w.Met n userId

end World

/-- Every session of a user with an enabled second factor was issued after the same request had met
that factor. -/
def Justified (trail : List Trail) : Prop :=
  ∀ before after n userId, trail = before ++ .issued n userId true :: after →
    .accepted n userId ∈ before ∨ .asserted n userId ∈ before

theorem Justified.append {trail : List Trail} (h : Justified trail) {e : Trail}
    (he : ∀ n userId, e = .issued n userId true →
      .accepted n userId ∈ trail ∨ .asserted n userId ∈ trail) : Justified (trail ++ [e]) := by
  intro before after n userId heq
  rcases List.append_eq_append_iff.mp heq with ⟨mid, rfl, hmid⟩ | ⟨mid, rfl, hmid⟩
  · cases mid with
    | nil =>
      simp only [List.nil_append, List.cons.injEq] at hmid
      simpa using he n userId hmid.1
    | cons x xs => simp at hmid
  · cases mid with
    | nil =>
      simp only [List.nil_append, List.cons.injEq] at hmid
      simpa using he n userId hmid.1.symm
    | cons x xs =>
      simp only [List.cons_append, List.cons.injEq] at hmid
      obtain ⟨rfl, -⟩ := hmid
      exact h before xs n userId rfl

section Deeds

variable {w : World} {e : Trail} {n userId : Nat}

theorem deeds_note_self (he : e.request = n) : (w.note e).deeds n = w.deeds n ++ [e] := by
  simp [World.deeds, World.note, he]

theorem deeds_note_ne (he : e.request ≠ n) : (w.note e).deeds n = w.deeds n := by
  simp [World.deeds, World.note, he]

theorem undecided_of_settled (h : w.settled userId = true) : ¬w.Undecided n userId := by
  intro hu
  have hmem : Trail.waived n userId ∈ w.deeds n := List.mem_of_getLast? hu
  have hmem' := List.mem_of_mem_filter hmem
  have := List.all_eq_true.mp h _ hmem'
  simp only [Trail.request, bne_iff_ne, ne_eq] at this
  exact this hu

end Deeds

/-! ### What a call does to users, factors and the trail -/

namespace UserStore

variable {st : UserStore}

/-- Every user is stored under an id that has been drawn. -/
def Drawn (st : UserStore) (supply : Nat) : Prop :=
  ∀ k user, st.byId.get? k = some user → user.id = k ∧ k < supply

theorem Drawn.mono {m n : Nat} (h : st.Drawn m) (hmn : m ≤ n) : st.Drawn n :=
  fun k user hk => ⟨(h k user hk).1, Nat.lt_of_lt_of_le (h k user hk).2 hmn⟩

theorem Drawn.modify {supply : Nat} (h : st.Drawn supply) (userId : Nat) {change : User → User}
    (hid : ∀ user, (change user).id = user.id) : (st.modify userId change).Drawn supply := by
  simp only [UserStore.modify]
  split
  · rename_i stored hs
    intro k user hk
    rw [OrdMap.get?_set] at hk
    split at hk
    · rename_i hk'
      obtain rfl := Option.some.inj hk
      rw [hid, ← hk']
      exact h _ _ hs
    · exact h k user hk
  · exact h

theorem findById_some {id : Nat} {user : User} (h : st.findById id = some user) :
    st.byId.get? id = some user :=
  (Option.filter_eq_some_iff.mp h).1

theorem findByEmail_some {email : String} {user : User} (h : st.findByEmail email = some user) :
    ∃ k, st.byId.get? k = some user :=
  OrdMap.mem_values.mp (List.mem_of_find?_eq_some h)

end UserStore

section Performed

variable {K : Config} {call : Call} {env : Env} {w : World}

theorem perform_supply : w.supply ≤ (perform K call env w).2.supply := by
  cases call with
  | createRegistration =>
    simp only [perform, World.createRegistration]
    split <;> exact Nat.le_add_right _ _
  | rotateSession =>
    simp only [perform, World.rotateSession]
    split <;> exact Nat.le_add_right _ _
  | _ =>
    first
    | exact Nat.le_refl _
    | exact Nat.le_add_right _ _
    | simp only [perform]
      split <;> first
        | exact Nat.le_refl _
        | exact Nat.le_add_right _ _

theorem perform_users_drawn (h : w.users.Drawn w.supply) :
    (perform K call env w).2.users.Drawn (perform K call env w).2.supply := by
  cases call with
  | createRegistration request email passwordHash displayName =>
    simp only [perform, World.createRegistration, UserStore.create]
    split
    · exact h.mono (Nat.le_add_right _ _)
    · rename_i user users hc
      split at hc
      · simp at hc
      · obtain ⟨rfl, rfl⟩ := Prod.mk.inj (Option.some.inj hc)
        intro k user hk
        rw [OrdMap.get?_set] at hk
        split at hk
        · rename_i hk'
          obtain rfl := Option.some.inj hk
          subst hk'
          exact ⟨rfl, Nat.lt_add_of_pos_right (by omega)⟩
        · exact h.mono (Nat.le_add_right _ _) k user hk
  | updatePasswordHash userId passwordHash => exact h.modify userId fun _ => rfl
  | markEmailVerified userId at_ => exact h.modify userId fun _ => rfl
  | requestDeletion userId email purgeAfter =>
    simp only [perform, DeletionStore.request]
    split
    · rename_i deletions users hd
      split at hd
      · split at hd
        · obtain ⟨-, rfl⟩ := Prod.mk.inj (Option.some.inj hd)
          exact h.modify userId fun _ => rfl
        · simp at hd
      · simp at hd
    · exact h
  | cancelDeletion request userId =>
    simp only [perform, DeletionStore.cancel]
    split
    · rename_i deletions users hd
      split at hd
      · split at hd
        · obtain ⟨-, rfl⟩ := Prod.mk.inj (Option.some.inj hd)
          exact h.modify userId fun _ => rfl
        · simp at hd
      · simp at hd
    · exact h
  | rotateSession =>
    simp only [perform, World.rotateSession]
    split <;> exact h.mono (Nat.le_add_right _ _)
  | _ =>
    first
    | exact h.mono perform_supply
    | simp only [perform]
      split <;> exact h.mono (by first | exact Nat.le_refl _ | exact Nat.le_add_right _ _)

end Performed

namespace MfaStore

variable {st st' : MfaStore} {userId u : Nat}

/-- Every record is stored under an id that has been drawn. -/
def Drawn (st : MfaStore) (supply : Nat) : Prop :=
  ∀ k record, st.records.get? k = some record → k < supply

/-- `st'` enables no factor but `userId`'s, and stores no record but under known ids. -/
structure Enables (st st' : MfaStore) (userId : Option Nat) : Prop where
  enabled : ∀ u, st'.enabled u = true → st.enabled u = true ∨ userId = some u
  stored : ∀ u, (st'.records.get? u).isSome → (st.records.get? u).isSome

theorem Enables.of_records (h : st'.records = st.records) (owner : Option Nat) :
    Enables st st' owner := by
  constructor
  · intro u hu
    simp only [MfaStore.enabled, h] at hu
    exact .inl hu
  · intro u hu
    rwa [h] at hu

/-- Replacing a stored record enables its owner's factor at most. -/
theorem Enables.of_set {row row' : MfaRecord} (hrow : st.records.get? userId = some row)
    (h : st'.records = st.records.set userId row') {owner : Option Nat}
    (ho : row'.enabledAt.isSome → row.enabledAt.isSome ∨ owner = some userId) :
    Enables st st' owner := by
  constructor
  · intro u hu
    simp only [MfaStore.enabled, h, OrdMap.get?_set] at hu
    split at hu
    · rename_i hk
      subst hk
      refine (ho (by simpa using hu)).imp_left fun hs => ?_
      simpa [MfaStore.enabled, hrow] using hs
    · exact .inl hu
  · intro u hu
    rw [h, OrdMap.get?_set] at hu
    split at hu
    · rename_i hk
      subst hk
      simp [hrow]
    · exact hu

theorem enable_some {hashes : List String} {at_ : Date} (h : st.enable userId hashes at_ = some st') :
    Enables st st' (some userId) := by
  simp only [MfaStore.enable] at h
  split at h
  · simp at h
  · rename_i row hrow
    split at h
    · simp at h
    · obtain rfl := Option.some.inj h
      exact .of_set hrow rfl fun _ => .inr rfl

theorem disable_enables : Enables st (st.disable userId) none := by
  constructor
  · intro u hu
    simp only [MfaStore.disable, MfaStore.enabled, OrdMap.get?_erase] at hu
    split at hu
    · simp at hu
    · exact .inl hu
  · intro u hu
    simp only [MfaStore.disable, OrdMap.get?_erase] at hu
    split at hu
    · simp at hu
    · exact hu

theorem acceptTotpStep_some {step : Int} (h : st.acceptTotpStep userId step = some st') :
    Enables st st' none := by
  simp only [MfaStore.acceptTotpStep] at h
  split at h
  · simp at h
  · rename_i row hrow
    split at h
    · simp at h
    · obtain rfl := Option.some.inj h
      refine .of_set hrow rfl ?_
      exact .inl

theorem consumeRecoveryCode_some {codeHash : String} {at_ : Date}
    (h : st.consumeRecoveryCode userId codeHash at_ = some st') : st'.records = st.records := by
  simp only [MfaStore.consumeRecoveryCode] at h
  split at h
  · simp at h
  · obtain ⟨rows, -, rfl⟩ := Option.map_eq_some_iff.mp h
    rfl

theorem consumeChallenge_some {tokenHash : Nat} {at_ : Date}
    (h : st.consumeChallenge tokenHash at_ = some st') : st'.records = st.records := by
  obtain ⟨row, -, rfl⟩ := Option.map_eq_some_iff.mp h
  rfl

theorem failChallenge_some {tokenHash remaining : Nat} {at_ : Date}
    (h : st.failChallenge tokenHash at_ = some (remaining, st')) : st'.records = st.records := by
  obtain ⟨row, -, hrow⟩ := Option.map_eq_some_iff.mp h
  obtain ⟨-, rfl⟩ := Prod.mk.inj hrow
  rfl

theorem savePending_enabled {secret : String} (h : (st.savePending userId secret).enabled u = true) :
    st.enabled u = true := by
  simp only [MfaStore.savePending, MfaStore.enabled, OrdMap.get?_set] at h
  split at h
  · simp at h
  · exact h

end MfaStore

section Factors

variable {K : Config} {call : Call} {env : Env} {w : World}

/-- The user whose factor a call may enable. -/
def Call.enables : Call → Option Nat
  | .enableMfa userId => some userId
  | _ => none

theorem perform_enables (hcall : ∀ userId, call ≠ .savePendingMfa userId) :
    w.mfa.Enables (perform K call env w).2.mfa call.enables := by
  cases call with
  | savePendingMfa userId => exact absurd rfl (hcall userId)
  | createRegistration | rotateSession | requestDeletion | cancelDeletion | getMfaForLogin
  | decoyHash | consumeAction =>
    simp only [perform, World.createRegistration, World.rotateSession]
    split <;> exact .of_records rfl _
  | enableMfa userId =>
    simp only [perform]
    split
    · rename_i mfa h
      exact MfaStore.enable_some h
    · exact .of_records rfl _
  | disableMfa userId => exact MfaStore.disable_enables
  | acceptTotpStep request userId step =>
    simp only [perform]
    split
    · rename_i mfa h
      exact MfaStore.acceptTotpStep_some h
    · exact .of_records rfl _
  | consumeRecoveryCode request userId codeHash at_ =>
    simp only [perform]
    split
    · rename_i mfa h
      exact .of_records (MfaStore.consumeRecoveryCode_some h) _
    · exact .of_records rfl _
  | consumeChallenge tokenHash at_ =>
    simp only [perform]
    split
    · rename_i mfa h
      exact .of_records (MfaStore.consumeChallenge_some h) _
    · exact .of_records rfl _
  | failChallenge tokenHash at_ =>
    simp only [perform]
    split
    · rename_i remaining mfa h
      exact .of_records (MfaStore.failChallenge_some h) _
    · exact .of_records rfl _
  | createChallenge userId expiresAt =>
    refine .of_records ?_ _
    rfl
  | _ => exact .of_records rfl _

theorem perform_mfa_drawn (hcall : ∀ userId, call = .savePendingMfa userId → userId < w.supply)
    (h : w.mfa.Drawn w.supply) :
    (perform K call env w).2.mfa.Drawn (perform K call env w).2.supply := by
  by_cases hs : ∃ userId, call = .savePendingMfa userId
  · obtain ⟨userId, rfl⟩ := hs
    intro k record hk
    have hsupply : w.supply ≤ (perform K (.savePendingMfa userId) env w).2.supply := perform_supply
    refine Nat.lt_of_lt_of_le ?_ hsupply
    simp only [perform, MfaStore.savePending, OrdMap.get?_set] at hk
    split at hk
    · rename_i hu
      exact hu ▸ hcall userId rfl
    · exact h k record hk
  · have henables : w.mfa.Enables (perform K call env w).2.mfa call.enables :=
      perform_enables fun userId hu => hs ⟨userId, hu⟩
    intro k record hk
    have hstored := henables.stored k (by simp [hk])
    obtain ⟨old, hold⟩ := Option.isSome_iff_exists.mp hstored
    exact Nat.lt_of_lt_of_le (h k old hold) perform_supply

/-- The entry a call adds to the trail. -/
inductive Notes (w : World) : Call → Trail → Prop
  | registered (request email passwordHash displayName) :
    Notes w (.createRegistration request email passwordHash displayName) (.waived request w.supply)
  | unprotected (request userId) (h : w.mfa.enabled userId = false) :
    Notes w (.getMfaForLogin request userId) (.waived request userId)
  | code (request userId step) : Notes w (.acceptTotpStep request userId step)
      (.accepted request userId)
  | recovery (request userId codeHash at_) :
    Notes w (.consumeRecoveryCode request userId codeHash at_) (.accepted request userId)
  | passkey (request userId) : Notes w (.passkeyAsserted request userId) (.asserted request userId)
  | cancelled (request userId) : Notes w (.cancelDeletion request userId) (.waived request userId)
  | signedIn (request user context) : Notes w (.createSession request user context)
      (.issued request user.id (w.mfa.enabled user.id))

theorem perform_trail (K : Config) (call : Call) (env : Env) (w : World) :
    (perform K call env w).2.trail = w.trail ∨
    ∃ e, Notes w call e ∧ (perform K call env w).2.trail = w.trail ++ [e] := by
  cases call with
  | createRegistration =>
    simp only [perform, World.createRegistration]
    split
    · exact .inl rfl
    · exact .inr ⟨_, .registered .., rfl⟩
  | getMfaForLogin request userId =>
    simp only [perform]
    cases h : w.mfa.enabled userId with
    | true => exact .inl rfl
    | false => exact .inr ⟨_, .unprotected request userId h, rfl⟩
  | acceptTotpStep =>
    simp only [perform]
    split
    · exact .inr ⟨_, .code .., rfl⟩
    · exact .inl rfl
  | consumeRecoveryCode =>
    simp only [perform]
    split
    · exact .inr ⟨_, .recovery .., rfl⟩
    · exact .inl rfl
  | passkeyAsserted => exact .inr ⟨_, .passkey .., rfl⟩
  | cancelDeletion =>
    simp only [perform]
    split
    · exact .inr ⟨_, .cancelled .., rfl⟩
    · exact .inl rfl
  | createSession => exact .inr ⟨_, .signedIn .., rfl⟩
  | rotateSession =>
    simp only [perform, World.rotateSession]
    split <;> exact .inl rfl
  | _ =>
    first
    | exact .inl rfl
    | simp only [perform]
      split <;> exact .inl rfl

/-- Whoever makes the call, the entry is the caller's. -/
theorem Notes.request_eq {e : Trail} {n : Nat} (h : Notes w call e) (hn : call.madeBy n = true) :
    e.request = n := by
  cases h <;> simpa [Call.madeBy, Trail.request] using hn

theorem perform_deeds {n m : Nat} (hn : call.madeBy n = true) (hmn : m ≠ n) :
    (perform K call env w).2.deeds m = w.deeds m := by
  rcases perform_trail K call env w with h | ⟨e, hnote, h⟩
  · rw [World.deeds, h, World.deeds]
  · have hne : e.request ≠ m := by
      rw [hnote.request_eq hn]
      exact Ne.symm hmn
    rw [World.deeds, h]
    exact deeds_note_ne hne

theorem perform_prefix : w.trail <+: (perform K call env w).2.trail := by
  rcases perform_trail K call env w with h | ⟨e, -, h⟩
  · simp [h]
  · simp [h]

end Factors

/-! ### The contract of sign-ins -/

/-- No account with an enabled factor is restored, and no factor is enabled while its owner's
sign-in is under way without one. -/
def factorGuard (call : Call) (_ : Env) (w : World) : Bool :=
  match call with
  | .enableMfa userId => w.settled userId
  | .cancelDeletion _ userId => !w.mfa.enabled userId
  | _ => true

structure FactorInv (w : World) : Prop where
  users : w.users.Drawn w.supply
  factors : w.mfa.Drawn w.supply
  undecided : ∀ n userId, w.Undecided n userId → w.mfa.enabled userId = false
  justified : Justified w.trail

theorem FactorInv.empty : FactorInv .empty where
  users := by
    intro k user hk
    simp [World.empty] at hk
  factors := by
    intro k record hk
    simp [World.empty] at hk
  undecided := by
    intro n userId h
    simp [World.Undecided, World.deeds, World.empty] at h
  justified := by
    intro before after n userId h
    simp [World.empty] at h

/-- The user of a drawn record has a factor under a drawn id. -/
theorem MfaStore.Drawn.not_enabled {st : MfaStore} {supply userId : Nat} (h : st.Drawn supply)
    (hu : supply ≤ userId) : st.enabled userId = false := by
  cases hr : st.records.get? userId with
  | none => simp [MfaStore.enabled, hr]
  | some record => exact absurd (h userId record hr) (Nat.not_lt.mpr hu)

section Kept

variable {K : Config} {call : Call} {env : Env} {w : World}

/-- A factor becomes enabled by its enabling only. -/
theorem enabled_of_perform {userId : Nat}
    (h : (perform K call env w).2.mfa.enabled userId = true) :
    w.mfa.enabled userId = true ∨ call = .enableMfa userId := by
  by_cases hs : ∃ u, call = .savePendingMfa u
  · obtain ⟨u, rfl⟩ := hs
    exact .inl (MfaStore.savePending_enabled h)
  · have henables : w.mfa.Enables (perform K call env w).2.mfa call.enables :=
      perform_enables fun u hu => hs ⟨u, hu⟩
    refine (henables.enabled userId h).imp_right fun hc => ?_
    cases call with
    | enableMfa u => rw [Option.some.inj hc]
    | _ => cases hc

theorem FactorInv.perform_undecided (inv : FactorInv w) (guard : factorGuard call env w = true)
    {n userId : Nat} (h : (perform K call env w).2.Undecided n userId) :
    (perform K call env w).2.mfa.enabled userId = false := by
  by_contra henabled
  rw [Bool.not_eq_false] at henabled
  have hold := enabled_of_perform henabled
  -- A decision that was pending before the call.
  have pending : ¬w.Undecided n userId := by
    intro hu
    rcases hold with hold | rfl
    · simp [inv.undecided n userId hu] at hold
    · exact undecided_of_settled guard hu
  rcases perform_trail K call env w with ht | ⟨e, hnote, ht⟩
  · refine pending ?_
    rwa [World.Undecided, World.deeds, ht] at h
  · have hdeeds : (perform K call env w).2.deeds n = (w.note e).deeds n := by
      rw [World.deeds, ht]
      rfl
    rw [World.Undecided, hdeeds] at h
    by_cases hn : e.request = n
    · rw [deeds_note_self hn, List.getLast?_concat, Option.some.injEq] at h
      subst h
      have hw : w.mfa.enabled userId = true := by
        rcases hold with hold | rfl
        · exact hold
        · cases hnote
      cases hnote with
      | registered => simp [inv.factors.not_enabled (Nat.le_refl _)] at hw
      | unprotected _ _ hoff => simp [hoff] at hw
      | cancelled => simp [factorGuard, hw] at guard
    · rw [deeds_note_ne hn] at h
      exact pending h

theorem FactorInv.perform_justified (inv : FactorInv w)
    (cleared : ∀ request user context, call = .createSession request user context →
      w.Cleared request user.id) : Justified (perform K call env w).2.trail := by
  rcases perform_trail K call env w with ht | ⟨e, hnote, ht⟩
  · rw [ht]
    exact inv.justified
  · rw [ht]
    refine inv.justified.append ?_
    rintro n userId rfl
    generalize hissued : Trail.issued n userId true = e at hnote
    cases hnote with
    | signedIn request user context =>
      obtain ⟨rfl, rfl, henabled⟩ := Trail.issued.inj hissued
      rcases cleared _ user context rfl with hu | hm
      · simp [inv.undecided _ _ hu] at henabled
      · exact hm
    | _ => simp at hissued

theorem FactorInv.perform (inv : FactorInv w) (guard : factorGuard call env w = true)
    (cleared : ∀ request user context, call = .createSession request user context →
      w.Cleared request user.id)
    (known : ∀ userId, call = .savePendingMfa userId → userId < w.supply) :
    FactorInv (perform K call env w).2 where
  users := perform_users_drawn inv.users
  factors := perform_mfa_drawn known inv.factors
  undecided := fun _ _ => inv.perform_undecided guard
  justified := inv.perform_justified cleared

end Kept

/-- Ids are drawn upwards, the trail is appended to, and each request writes its own part of it. -/
def factors (K : Config) : Contract (machine K) where
  inv := FactorInv
  evolves := fun w w' => w.supply ≤ w'.supply ∧ w.trail <+: w'.trail
  own := fun n w w' => w'.deeds n = w.deeds n
  cond := fun call env w => factorGuard call env w = true
  refl := fun _ => ⟨Nat.le_refl _, List.prefix_refl _⟩
  trans := fun h h' => ⟨Nat.le_trans h.1 h'.1, h.2.trans h'.2⟩
  ownRefl := fun _ _ => rfl
  ownTrans := fun h h' => h'.trans h

section Walks

variable {K : Config} {w t : World} {n userId : Nat}

theorem World.Met.evolved (h : w.Met n userId) (he : (factors K).evolves w t) :
    t.Met n userId := by
  obtain ⟨rest, hrest⟩ := he.2
  rw [World.Met, ← hrest]
  exact h.imp (List.mem_append_left _) (List.mem_append_left _)

theorem World.Cleared.moved (h : w.Cleared n userId) (hr : (factors K).rely n w t) :
    t.Cleared n userId := by
  rcases h with hu | hm
  · have hdeeds : t.deeds n = w.deeds n := hr.2
    refine .inl ?_
    rwa [World.Undecided, hdeeds]
  · exact .inr (hm.evolved hr.1)

/-- A call of request `n` moves no other request's part of the trail. -/
theorem factors_guarantee {call : Call} {env : Env} (hn : call.madeBy n = true) :
    (factors K).guarantee n w (perform K call env w).2 :=
  ⟨⟨perform_supply, perform_prefix⟩, fun _ hm => perform_deeds hn hm⟩

theorem factors_safe {call : Call} (hn : call.madeBy n = true)
    (hsign : ∀ request user context, call ≠ .createSession request user context)
    (hsave : ∀ userId, call ≠ .savePendingMfa userId) : (factors K).Safe n call := by
  intro env t hi guard _
  refine ⟨hi.perform guard ?_ ?_, factors_guarantee hn⟩
  · intro request user context h
    exact absurd h (hsign request user context)
  · intro userId h
    exact absurd h (hsave userId)

theorem factors_ordinarily : Ordinarily n ((factors K).Safe n) := by
  intro c hc hn
  refine factors_safe hn ?_ ?_
  · rintro request user context rfl
    simp [Call.ordinary] at hc
  · rintro userId rfl
    simp [Call.ordinary] at hc

/-- The call writes nothing to the trail. -/
def Call.silent : Call → Bool
  | .createRegistration .. | .getMfaForLogin .. | .acceptTotpStep .. | .consumeRecoveryCode ..
  | .passkeyAsserted .. | .cancelDeletion .. | .createSession .. => false
  | _ => true

theorem factors_idle {call : Call} (hs : call.silent = true) (hsafe : (factors K).Safe n call) :
    (factors K).Idle n call := by
  refine ⟨hsafe, ?_⟩
  intro env t _ _ _
  rcases perform_trail K call env t with ht | ⟨e, hnote, -⟩
  · change List.filter _ (perform K call env t).2.trail = _
    rw [ht]
    rfl
  · cases hnote <;> simp [Call.silent] at hs

/-- A silent ordinary call may be stepped over. -/
theorem silent_all {call : Call} (hs : call.silent = true) (hn : call.madeBy n = true)
    (ho : call.ordinary = true) : Calls ((factors K).Idle n) (Auth.call call) :=
  (Task.all_call (I := ports) _).mpr (factors_idle hs (factors_ordinarily call ho hn))

end Walks

end Finverse.Auth
