import Finverse.Auth.Footprints
import Finverse.Auth.SecondFactor

/-! What a call does to the second factors and the sign-in challenges. -/

namespace Finverse.Auth

open Interleave

/-! ### When the store operations succeed -/

namespace MfaStore

variable {st st' : MfaStore} {userId tokenHash : Nat} {at_ : Date}

theorem enabled_iff : st.enabled userId = true ↔
    ∃ r, st.records.get? userId = some r ∧ r.enabledAt.isSome = true := by
  cases h : st.records.get? userId <;> simp [enabled, h]

theorem enable_eq_some {hashes : List String} :
    st.enable userId hashes at_ = some st' ↔
      ∃ row, st.records.get? userId = some row ∧ row.enabledAt = none ∧
        st' = { st with
          records := st.records.set userId { row with enabledAt := some at_ }
          recovery := st.recovery.set userId (hashes.map fun hash => ⟨hash, none⟩) } := by
  cases h : st.records.get? userId with
  | none => simp [enable, h]
  | some row => cases on : row.enabledAt <;> simp [enable, h, on, eq_comm]

theorem acceptTotpStep_eq_some {step : Int} :
    st.acceptTotpStep userId step = some st' ↔
      ∃ row, st.records.get? userId = some row ∧ row.enabledAt.isSome = true ∧
        (∀ used, row.lastUsedStep = some used → used < step) ∧
        st' = { st with records := st.records.set userId { row with lastUsedStep := some step } } := by
  cases h : st.records.get? userId with
  | none => simp [acceptTotpStep, h]
  | some row =>
    rw [acceptTotpStep, h]
    dsimp only
    split
    · rename_i refused
      simp only [Bool.or_eq_true, Option.isNone_iff_eq_none, Option.any_eq_true,
        decide_eq_true_eq] at refused
      constructor
      · intro h
        cases h
      · rintro ⟨row', same, on, later, -⟩
        obtain rfl := Option.some.inj same
        rcases refused with off | ⟨used, last, early⟩
        · rw [off] at on
          cases on
        · exact absurd (later used last) (Int.not_lt.mpr early)
    · rename_i taken
      simp only [Bool.or_eq_true, Option.isNone_iff_eq_none, Option.any_eq_true,
        decide_eq_true_eq, not_or, not_exists, not_and] at taken
      constructor
      · intro h
        refine ⟨row, rfl, Option.isSome_iff_ne_none.mpr taken.1, ?_, (Option.some.inj h).symm⟩
        exact fun used last => Int.not_le.mp (taken.2 used last)
      · rintro ⟨row', same, -, -, rfl⟩
        obtain rfl := Option.some.inj same
        rfl

theorem consumeRecoveryCode_eq_some {codeHash : String} :
    st.consumeRecoveryCode userId codeHash at_ = some st' ↔
      ∃ rows rows', st.recovery.get? userId = some rows ∧
        spendRecovery codeHash at_ rows = some rows' ∧
        st' = { st with recovery := st.recovery.set userId rows' } := by
  cases h : st.recovery.get? userId <;> simp [consumeRecoveryCode, h, eq_comm]

theorem live_eq_some {row : ChallengeRow} : st.live tokenHash at_ = some row ↔
    st.challenges.get? tokenHash = some row ∧ row.usedAt = none ∧ at_ < row.expiresAt := by
  simp [live, Option.filter_eq_some_iff]

theorem findChallenge_eq_some {owner : Nat} : st.findChallenge tokenHash at_ = some owner ↔
    ∃ row, st.live tokenHash at_ = some row ∧ row.userId = owner := by
  simp [findChallenge]

theorem consumeChallenge_eq_some : st.consumeChallenge tokenHash at_ = some st' ↔
    ∃ row, st.live tokenHash at_ = some row ∧
      st' = { st with challenges := st.challenges.set tokenHash { row with usedAt := some at_ } } := by
  simp [consumeChallenge, eq_comm]

theorem failChallenge_eq_some {remaining : Nat} :
    st.failChallenge tokenHash at_ = some (remaining, st') ↔
      ∃ row, st.live tokenHash at_ = some row ∧ remaining = 5 - (row.failedAttempts + 1) ∧
        st' = { st with challenges := st.challenges.set tokenHash { row with
          failedAttempts := row.failedAttempts + 1
          usedAt := if row.failedAttempts + 1 ≥ 5 then some at_ else row.usedAt } } := by
  simp [failChallenge, eq_comm]

end MfaStore

/-- Where a code is spent: at its first unused row. -/
theorem spendRecovery_some {codeHash : String} {at_ : Date} {rows rows' : List RecoveryRow}
    (h : spendRecovery codeHash at_ rows = some rows') :
    ∃ before row after, rows = before ++ row :: after ∧ row.hash = codeHash ∧ row.usedAt = none ∧
      rows' = before ++ { row with usedAt := some at_ } :: after := by
  induction rows generalizing rows' with
  | nil => cases h
  | cons row rows ih =>
    rw [spendRecovery] at h
    split at h
    · rename_i fits
      obtain rfl := Option.some.inj h
      exact ⟨[], row, rows, rfl, fits.1, fits.2, rfl⟩
    · obtain ⟨rest, spent, rfl⟩ := Option.map_eq_some_iff.mp h
      obtain ⟨before, hit, after, rfl, hash, unused, rfl⟩ := ih spent
      exact ⟨row :: before, hit, after, rfl, hash, unused, rfl⟩

/-! ### The steps -/

/-- The call took effect on the second factors or the challenges. -/
def alters : Event ports → Bool
  | ⟨.savePendingMfa _, _⟩ | ⟨.disableMfa _, _⟩ | ⟨.createChallenge _ _, _⟩ => true
  | ⟨.enableMfa _, codes⟩ => Option.isSome codes
  | ⟨.acceptTotpStep .., accepted⟩ | ⟨.consumeRecoveryCode .., accepted⟩
  | ⟨.consumeChallenge .., accepted⟩ => accepted
  | ⟨.failChallenge .., remaining⟩ => Option.isSome remaining
  | _ => false

/-- How an event changed the stored factors and the supply. -/
inductive MfaStep (P : Primitives) (now : Date) (st : MfaStore) (supply : Nat) :
    Event ports → MfaStore → Nat → Prop
  | same {ev supply'} (quiet : alters ev = false) (drawn : supply ≤ supply') :
      MfaStep P now st supply ev st supply'
  | pending (userId : Nat) : MfaStep P now st supply ⟨.savePendingMfa userId, P.totpSecret supply⟩
      (st.savePending userId (P.encrypt (P.totpSecret supply) (supply + 1))) (supply + 2)
  | enabled {userId st'} {codes : List String}
      (drawn : codes = (List.range 10).map fun k => generateRecoveryCode P (supply + k))
      (stored : st.enable userId (codes.map (hashRecoveryCode P)) now = some st') :
      MfaStep P now st supply ⟨.enableMfa userId, some codes⟩ st' (supply + 10)
  | disabled (userId : Nat) :
      MfaStep P now st supply ⟨.disableMfa userId, ()⟩ (st.disable userId) supply
  | step {request userId step st'} (stored : st.acceptTotpStep userId step = some st') :
      MfaStep P now st supply ⟨.acceptTotpStep request userId step, true⟩ st' supply
  | code {request userId codeHash at_ st'}
      (stored : st.consumeRecoveryCode userId codeHash at_ = some st') :
      MfaStep P now st supply ⟨.consumeRecoveryCode request userId codeHash at_, true⟩ st' supply
  | challenged (userId : Nat) (expiresAt : Date) :
      MfaStep P now st supply ⟨.createChallenge userId expiresAt, supply⟩
        (st.createChallenge (P.hashToken supply) userId expiresAt) (supply + 1)
  | consumed {tokenHash at_ st'} (stored : st.consumeChallenge tokenHash at_ = some st') :
      MfaStep P now st supply ⟨.consumeChallenge tokenHash at_, true⟩ st' supply
  | failed {tokenHash at_ st' remaining}
      (stored : st.failChallenge tokenHash at_ = some (remaining, st')) :
      MfaStep P now st supply ⟨.failChallenge tokenHash at_, some remaining⟩ st' supply

/-- Every call is one of these steps. -/
theorem perform_mfaStep (K : Config) (call : Call) (env : Env) (w : World) :
    MfaStep K.prims env.now w.mfa w.supply ⟨call, (perform K call env w).1⟩
      (perform K call env w).2.mfa (perform K call env w).2.supply := by
  have drawn : w.supply ≤ (perform K call env w).2.supply := perform_supply
  cases call with
  | savePendingMfa userId => exact .pending userId
  | disableMfa userId => exact .disabled userId
  | createChallenge userId expiresAt => exact .challenged userId expiresAt
  | enableMfa userId =>
    simp only [perform]
    split
    · rename_i mfa stored
      exact .enabled rfl stored
    · exact .same rfl (Nat.le_add_right _ _)
  | acceptTotpStep request userId step =>
    simp only [perform]
    split
    · rename_i mfa stored
      exact .step stored
    · exact .same rfl (Nat.le_refl _)
  | consumeRecoveryCode request userId codeHash at_ =>
    simp only [perform]
    split
    · rename_i mfa stored
      exact .code stored
    · exact .same rfl (Nat.le_refl _)
  | consumeChallenge tokenHash at_ =>
    simp only [perform]
    split
    · rename_i mfa stored
      exact .consumed stored
    · exact .same rfl (Nat.le_refl _)
  | failChallenge tokenHash at_ =>
    simp only [perform]
    split
    · rename_i remaining mfa stored
      exact .failed stored
    · exact .same rfl (Nat.le_refl _)
  | createRegistration | rotateSession | requestDeletion | cancelDeletion | getMfaForLogin
  | decoyHash | consumeAction =>
    simp only [perform, World.createRegistration, World.rotateSession]
    split <;> exact .same rfl (by first | exact Nat.le_refl _ | exact Nat.le_add_right _ _)
  | _ => exact .same rfl drawn

section Succeeded

variable {P : Primitives} {now : Date} {st st' : MfaStore} {supply supply' userId tokenHash : Nat}
  {at_ : Date}

theorem MfaStep.drawn {ev : Event ports} (step : MfaStep P now st supply ev st' supply') :
    supply ≤ supply' := by
  cases step with
  | same _ drawn => exact drawn
  | _ => omega

theorem MfaStep.of_enabled {codes : List String}
    (h : MfaStep P now st supply ⟨.enableMfa userId, some codes⟩ st' supply') :
    st.enable userId (codes.map (hashRecoveryCode P)) now = some st' := by
  cases h with
  | same quiet => cases quiet
  | enabled _ stored => exact stored

theorem MfaStep.of_step {request : Nat} {step : Int}
    (h : MfaStep P now st supply ⟨.acceptTotpStep request userId step, true⟩ st' supply') :
    st.acceptTotpStep userId step = some st' := by
  cases h with
  | same quiet => cases quiet
  | step stored => exact stored

theorem MfaStep.of_code {request : Nat} {codeHash : String}
    (h : MfaStep P now st supply ⟨.consumeRecoveryCode request userId codeHash at_, true⟩ st'
      supply') : st.consumeRecoveryCode userId codeHash at_ = some st' := by
  cases h with
  | same quiet => cases quiet
  | code stored => exact stored

theorem MfaStep.of_consumed
    (h : MfaStep P now st supply ⟨.consumeChallenge tokenHash at_, true⟩ st' supply') :
    st.consumeChallenge tokenHash at_ = some st' := by
  cases h with
  | same quiet => cases quiet
  | consumed stored => exact stored

end Succeeded

/-- What a deed did. -/
theorem deed_mfaStep (K : Config) (e : Deed) :
    MfaStep K.prims e.input.now e.before.mfa e.before.supply (e.event (machine K))
      (e.after (machine K)).mfa (e.after (machine K)).supply :=
  perform_mfaStep K e.op e.input e.before

/-! ### Recovery codes -/

def MfaStore.codes (st : MfaStore) (userId : Nat) : List RecoveryRow :=
  (st.recovery.get? userId).getD []

/-- A recovery code of the user was spent. -/
def Spends (userId : Nat) (codeHash : String) (ev : Event ports) : Prop :=
  ∃ request at_, ev = ⟨.consumeRecoveryCode request userId codeHash at_, true⟩

/-! ### Checking a factor -/

section Checking

variable {K : Config} {n : Nat} {D : List (Event ports) → Call → Prop} {h : List (Event ports)}
  {err : List (Event ports) → AuthError → Prop}

theorem call_asks {c : Call} {ok : List (Event ports) → c.Reply → Prop} :
    Task.Asks (I := ports) D ok err h (call c) ↔ D h c ∧ ∀ r : c.Reply, ok (h ++ [⟨c, r⟩]) r :=
  Task.asks_call

theorem call_bind_asks {α : Type} {c : Call} {f : c.Reply → Service α}
    {ok : List (Event ports) → α → Prop} : Task.Asks (I := ports) D ok err h (call c >>= f) ↔
      D h c ∧ ∀ r : c.Reply, Task.Asks (I := ports) D ok err (h ++ [⟨c, r⟩]) (f r) :=
  Task.asks_call_bind

theorem decryptMfaSecret_asks {ciphertext : String} {ok : List (Event ports) → String → Prop}
    (read : ∀ secret, K.prims.decrypt ciphertext = some secret → ok h secret)
    (fails : ∀ e, err h e) :
    Task.Asks (I := ports) D ok err h (decryptMfaSecret K ciphertext) := by
  unfold decryptMfaSecret
  cases found : K.prims.decrypt ciphertext with
  | none => exact fails _
  | some secret => exact read secret found

/-- The factor check reads the record, and then asks to accept the step or the code. -/
theorem verifyMfaFactor_asks {userId : Nat} {candidate : String} {now : Date}
    {ok : List (Event ports) → Bool → Prop} (read : D h (.getMfa userId))
    (refused : ∀ mfa, ok (h ++ [⟨.getMfa userId, mfa⟩]) false)
    (totp : ∀ (mfa : MfaRecord) secret step, K.prims.decrypt mfa.encryptedSecret = some secret →
      verifyTotp K.prims secret (trim candidate) now = some step →
        D (h ++ [⟨.getMfa userId, some mfa⟩]) (.acceptTotpStep n userId step) ∧
          ∀ accepted : Bool, ok (h ++ [⟨.getMfa userId, some mfa⟩] ++
            [⟨.acceptTotpStep n userId step, accepted⟩]) accepted)
    (recovery : ∀ (mfa : MfaRecord), D (h ++ [⟨.getMfa userId, some mfa⟩])
        (.consumeRecoveryCode n userId (hashRecoveryCode K.prims (trim candidate)) now) ∧
      ∀ accepted : Bool, ok (h ++ [⟨.getMfa userId, some mfa⟩] ++ [⟨.consumeRecoveryCode n userId
        (hashRecoveryCode K.prims (trim candidate)) now, accepted⟩]) accepted)
    (fails : ∀ mfa e, err (h ++ [⟨.getMfa userId, mfa⟩]) e) :
    Task.Asks (I := ports) D ok err h (verifyMfaFactor K n userId candidate now) := by
  unfold verifyMfaFactor
  refine call_bind_asks.mpr ⟨read, fun mfa => ?_⟩
  cases mfa with
  | none => exact refused none
  | some mfa =>
    refine iteInduction (fun _ => refused (some mfa)) fun _ => ?_
    dsimp only
    generalize isSixDigits (trim candidate) = digits
    cases digits with
    | false =>
      exact call_asks.mpr (recovery mfa)
    | true =>
      refine Task.asks_bind.mpr (decryptMfaSecret_asks (fun secret opened => ?_) (fails (some mfa)))
      cases found : verifyTotp K.prims secret (trim candidate) now with
      | none => exact refused (some mfa)
      | some step => exact call_asks.mpr (totp mfa secret step opened found)

end Checking

end Finverse.Auth
