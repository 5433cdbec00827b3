import Finverse.Auth.EnrolmentRace

/-! How often a one-time code or a recovery code is accepted. -/

namespace Finverse.Auth

open Interleave

/-! ### Accepted codes -/

/-- The record that was read last. -/
def lastRead (h : List (Event ports)) : Option MfaRecord :=
  (h.filterMap fun ev => match ev with
    | ⟨.getMfa _, record⟩ => some record
    | _ => none).getLast?.join

/-- The time that was read last. -/
def lastClock (h : List (Event ports)) : Option Date :=
  (h.filterMap fun ev => match ev with
    | ⟨.now, now⟩ => some now
    | _ => none).getLast?

section Accepted

variable (K : Config) (userId : Nat) (before : List Deed) (e : Deed) (secret : String) (step : Int)

/-- The secret that a code was checked against. -/
def CheckedAgainst : Prop :=
  ∃ mfa, lastRead (own (machine K) before e.thread) = some mfa ∧
    K.prims.decrypt mfa.encryptedSecret = some secret

/-- A code of this time step was accepted as a second factor. -/
structure Presents : Prop where
  accepted : ∃ request, e.event (machine K) = ⟨.acceptTotpStep request userId step, true⟩
  secret : CheckedAgainst K before e secret

/-- A code of this time step confirmed the enrolment. -/
structure Confirms : Prop where
  accepted : ∃ codes, e.event (machine K) = ⟨.enableMfa userId, some codes⟩
  code : ∃ u code context now, e.req = .enableMfa u code context ∧
    lastClock (own (machine K) before e.thread) = some now ∧
    verifyTotp K.prims secret (trim code) now = some step
  secret : CheckedAgainst K before e secret

def AcceptsStep : Prop :=
  Presents K userId before e secret step ∨ Confirms K userId before e secret step

end Accepted

/-- A code of this step was accepted. -/
def StepUsed (K : Config) (userId : Nat) (secret : String) (step : Int) (log : List Deed) : Prop :=
  Happened (fun before e => AcceptsStep K userId before e secret step) log

/-- A code of this step confirmed the enrolment. -/
def StepConfirmed (K : Config) (userId : Nat) (secret : String) (step : Int) (log : List Deed) :
    Prop :=
  Happened (fun before e => Confirms K userId before e secret step) log

/-- A recovery code was accepted. -/
def CodeUsed (K : Config) (userId : Nat) (codeHash : String) (log : List Deed) : Prop :=
  Happened (fun _ e => Spends userId codeHash (e.event (machine K))) log

/-- No code is accepted that was accepted before. -/
structure SingleUse (K : Config) (userId : Nat) (log : List Deed) : Prop where
  steps : ∀ before e after secret step, log = before ++ e :: after →
    AcceptsStep K userId before e secret step → ¬StepUsed K userId secret step before
  codes : ∀ before e after codeHash, log = before ++ e :: after →
    Spends userId codeHash (e.event (machine K)) → ¬CodeUsed K userId codeHash before

/-! ### Every accepted code was checked -/

@[simp] theorem lastRead_getMfa (h : List (Event ports)) (u : Nat) (mfa : MfaRecord) :
    lastRead (h ++ [⟨.getMfa u, some mfa⟩]) = some mfa := by
  simp [lastRead]

/-- A step is accepted only after a secret was read. -/
def StepsChecked (K : Config) (h : List (Event ports)) (op : Call) : Prop :=
  ∀ request u step, op = .acceptTotpStep request u step →
    ∃ mfa secret, lastRead h = some mfa ∧ K.prims.decrypt mfa.encryptedSecret = some secret

section Checked

variable {K : Config} {n : Nat}

abbrev Checks (K : Config) {α : Type} (m : Service α) : Prop :=
  Task.Always (I := ports) (StepsChecked K) m

theorem plainly_checked : Plainly fun c => ∀ h, StepsChecked K h c := by
  intro c ordinary h request u step same
  subst same
  cases ordinary

theorem checks_plain {α : Type} {m : Service α} (plain : Calls (fun c => ∀ h, StepsChecked K h c) m) :
    Checks K m :=
  Task.Always.of_all plain fun h _ allowed => allowed h

theorem checks_call {c : Call} (other : ∀ request u step, c ≠ .acceptTotpStep request u step) :
    Checks K (call c) :=
  ⟨fun _ => call_asks.mpr ⟨fun request u step same => absurd same (other request u step),
    fun _ => trivial⟩⟩

theorem checks_record (kind : AuthEventKind) (succeeded : Bool) (userId : Option Nat)
    (emailAttempted : Option String) (context : RequestContext) (detail : Option String) :
    Checks K (record kind succeeded userId emailAttempted context detail) :=
  checks_plain (record_plain plainly_checked ..)

theorem verifyMfaFactor_checks (userId : Nat) (candidate : String) (now : Date) :
    Checks K (verifyMfaFactor K n userId candidate now) := by
  refine ⟨fun h => ?_⟩
  have other : ∀ {h : List (Event ports)} {c : Call}, (∀ request u step,
      c ≠ .acceptTotpStep request u step) → StepsChecked K h c :=
    fun no request u step same => absurd same (no request u step)
  refine verifyMfaFactor_asks (other (by simp)) (fun _ => trivial) ?_ ?_ fun _ _ => trivial
  · intro mfa secret step opened _
    refine ⟨fun _ _ _ _ => ⟨mfa, secret, lastRead_getMfa h userId mfa, opened⟩, fun _ => trivial⟩
  · exact fun mfa => ⟨other (by simp), fun _ => trivial⟩

theorem verifyMfaChallenge_checks (challengeToken : Nat) (code : String) (context : RequestContext) :
    Checks K (verifyMfaChallenge K n challengeToken code context) := by
  unfold verifyMfaChallenge
  refine (checks_call (by simp)).bind fun now => ?_
  refine (checks_call (by simp)).bind fun owner => ?_
  cases owner with
  | none => exact Task.always_throw _
  | some owner =>
    refine (checks_call (by simp)).bind fun found => ?_
    have factor : Checks K (challengeFactor K n found code now) := by
      unfold challengeFactor
      split
      · exact Task.always_pure _
      · exact verifyMfaFactor_checks ..
    refine factor.bind fun accepted => ?_
    split
    · refine (checks_call (by simp)).bind fun consumed => ?_
      refine iteInduction (fun _ => ?_) fun _ => Task.always_throw _
      refine (checks_record ..).bind fun _ => (checks_record ..).bind fun _ => ?_
      exact (checks_call (by simp)).bind fun _ => Task.always_pure _
    · refine (checks_call (by simp)).bind fun remaining => ?_
      exact (checks_record ..).bind fun _ => Task.always_throw _

theorem disableMfa_checks (userId : Nat) (password code : String) (context : RequestContext) :
    Checks K (disableMfa K n userId password code context) := by
  unfold disableMfa
  refine (checks_plain (requirePassword_plain plainly_checked ..)).bind fun user => ?_
  refine (checks_call (by simp)).bind fun now => ?_
  refine (verifyMfaFactor_checks ..).bind fun accepted => ?_
  refine iteInduction (fun _ => ?_) fun _ => ?_
  · exact (checks_call (by simp)).bind fun _ => checks_record ..
  · exact (checks_record ..).bind fun _ => Task.always_throw _

theorem requireRecentPassword_checks (userId : Nat) (password : String) (mfaCode : Option String)
    (context : RequestContext) :
    Checks K (requireRecentPassword K n userId password mfaCode context) := by
  unfold requireRecentPassword
  refine (checks_plain (requirePassword_plain plainly_checked ..)).bind fun user => ?_
  refine (checks_call (by simp)).bind fun mfa => ?_
  cases mfa with
  | none => exact Task.always_pure _
  | some mfa =>
    refine iteInduction (fun _ => Task.always_pure _) fun _ => ?_
    have factor : Checks K (presentedFactor K n user.id mfaCode) := by
      unfold presentedFactor
      split
      · exact Task.always_pure _
      · exact (checks_call (by simp)).bind fun now => verifyMfaFactor_checks ..
    refine factor.bind fun accepted => ?_
    refine iteInduction (fun _ => ?_) fun _ => ?_
    · exact (checks_record ..).bind fun _ => Task.always_pure _
    · exact (checks_record ..).bind fun _ => Task.always_throw _

theorem requestAccountDeletion_checks (userId : Nat) (password : String) (mfaCode : Option String)
    (context : RequestContext) :
    Checks K (requestAccountDeletion K n userId password mfaCode context) := by
  unfold requestAccountDeletion
  refine (requireRecentPassword_checks ..).bind fun user => ?_
  refine (checks_call (by simp)).bind fun banks => ?_
  split
  · exact (checks_record ..).bind fun _ => Task.always_throw _
  · refine (checks_call (by simp)).bind fun requestedAt => ?_
    refine (checks_call (by simp)).bind fun requested => ?_
    refine iteInduction (fun _ => ?_) fun _ => Task.always_throw _
    refine (checks_call (by simp)).bind fun _ => ?_
    exact (checks_record ..).bind fun _ => Task.always_pure _

/-- Every step that was accepted as a factor is a step of a secret that the request had read. -/
theorem accepted_step_checked {w₀ : World} {cond : List Deed → Deed → Prop}
    {before after : List Deed} {e : Deed} {c : Pool ports World Request (Except AuthError Response)}
    (recorded : Pool.Recorded (system K) w₀ cond (before ++ e :: after) c) {request userId : Nat}
    {step : Int} (accepted : e.event (machine K) = ⟨.acceptTotpStep request userId step, true⟩) :
    ∃ secret, Presents K userId before e secret step := by
  have op : e.op = .acceptTotpStep request userId step := congrArg Event.op accepted
  have made := deed_made recorded (by rw [op]; rfl)
  rw [op] at made
  suffices checks : Checks K (handle K e.thread e.req) by
    obtain ⟨mfa, secret, read, opened⟩ := recorded.asks (checks.asks []) request userId step op
    exact ⟨secret, ⟨request, accepted⟩, mfa, read, opened⟩
  generalize e.req = req at made
  cases req with
  | verifyMfaChallenge => exact (verifyMfaChallenge_checks ..).map
  | disableMfa => exact (disableMfa_checks ..).map
  | requestAccountDeletion => exact (requestAccountDeletion_checks ..).map
  | _ => cases made

end Checked

/-! ### What a step does to one record -/

/-- Where the user's record after a step comes from. -/
inductive RecordStep (P : Primitives) (now : Date) (supply supply' userId : Nat) :
    Option MfaRecord → MfaRecord → Prop
  | kept (drawn : supply ≤ supply') (record) :
      RecordStep P now supply supply' userId (some record) record
  | pending (drawn : supply < supply') (old) : RecordStep P now supply supply' userId old
      ⟨userId, P.encrypt (P.totpSecret supply) (supply + 1), none, none⟩
  | enabled {record} (drawn : supply ≤ supply') (off : record.enabledAt = none) :
      RecordStep P now supply supply' userId (some record)
        { record with enabledAt := some now }
  | step {step record} (drawn : supply ≤ supply') (on : record.enabledAt.isSome = true)
      (later : ∀ used, record.lastUsedStep = some used → used < step) :
      RecordStep P now supply supply' userId (some record)
        { record with lastUsedStep := some step }

section Step

variable {P : Primitives} {now : Date} {st st' : MfaStore} {supply supply' userId : Nat}
  {ev : Event ports}

theorem MfaStep.record (step : MfaStep P now st supply ev st' supply') {record : MfaRecord}
    (there : st'.records.get? userId = some record) :
    RecordStep P now supply supply' userId (st.records.get? userId) record := by
  have same_record : st.records.get? userId = some record →
      RecordStep P now supply supply' userId (st.records.get? userId) record := by
    intro same
    rw [same]
    exact .kept step.drawn record
  cases step with
  | same | challenged => exact same_record there
  | pending u =>
    rw [MfaStore.savePending, OrdMap.get?_set] at there
    split at there
    · rename_i same
      subst same
      obtain rfl := Option.some.inj there
      exact .pending (by omega) _
    · exact same_record there
  | @enabled u st' codes drawn stored =>
    obtain ⟨row, found, off, rfl⟩ := MfaStore.enable_eq_some.mp stored
    rw [OrdMap.get?_set] at there
    split at there
    · rename_i same
      subst same
      obtain rfl := Option.some.inj there
      rw [found]
      exact .enabled (Nat.le_add_right _ _) off
    · exact same_record there
  | disabled u =>
    rw [MfaStore.disable, OrdMap.get?_erase] at there
    split at there
    · cases there
    · exact same_record there
  | @step request u step st' stored =>
    obtain ⟨row, found, on, later, rfl⟩ := MfaStore.acceptTotpStep_eq_some.mp stored
    rw [OrdMap.get?_set] at there
    split at there
    · rename_i same
      subst same
      obtain rfl := Option.some.inj there
      rw [found]
      exact .step (Nat.le_refl _) on later
    · exact same_record there
  | code stored =>
    obtain ⟨rows, rows', -, -, rfl⟩ := MfaStore.consumeRecoveryCode_eq_some.mp stored
    exact same_record there
  | consumed stored =>
    obtain ⟨row, -, rfl⟩ := MfaStore.consumeChallenge_eq_some.mp stored
    exact same_record there
  | failed stored =>
    obtain ⟨row, -, -, rfl⟩ := MfaStore.failChallenge_eq_some.mp stored
    exact same_record there

/-- The secret of a record was drawn. -/
def DrawnSecret (P : Primitives) (supply : Nat) (record : MfaRecord) : Prop :=
  ∃ d < supply, record.encryptedSecret = P.encrypt (P.totpSecret d) (d + 1)

/-- The factor is on, and the step was used, or else it confirmed the enrolment. -/
def StepSpent (step : Int) (confirmed : Prop) (record : MfaRecord) : Prop :=
  record.enabledAt.isSome = true ∧
    ((∃ last, record.lastUsedStep = some last ∧ step ≤ last) ∨ confirmed)

theorem RecordStep.drawn {old : Option MfaRecord} {record : MfaRecord}
    (change : RecordStep P now supply supply' userId old record)
    (h : ∀ r, old = some r → DrawnSecret P supply r) : DrawnSecret P supply' record := by
  cases change with
  | kept grown | enabled grown | step grown =>
    obtain ⟨d, drawn, secret⟩ := h _ rfl
    exact ⟨d, by omega, secret⟩
  | pending grown => exact ⟨supply, grown, rfl⟩

/-- What is spent stays spent. -/
theorem RecordStep.spent (opens : ∀ secret draw, P.decrypt (P.encrypt secret draw) = some secret)
    (differ : Function.Injective P.totpSecret) {old : Option MfaRecord} {record : MfaRecord}
    (change : RecordStep P now supply supply' userId old record) {d : Nat} (early : d < supply)
    {step : Int} {confirmed : Prop}
    (h : ∀ r, old = some r → P.decrypt r.encryptedSecret = some (P.totpSecret d) →
      StepSpent step confirmed r)
    (opened : P.decrypt record.encryptedSecret = some (P.totpSecret d)) :
    StepSpent step confirmed record := by
  cases change with
  | kept => exact h _ rfl opened
  | pending =>
    rw [opens] at opened
    have same := differ (Option.some.inj opened)
    omega
  | enabled _ off =>
    have on := (h _ rfl opened).1
    rw [off] at on
    cases on
  | step _ on later =>
    refine ⟨on, ?_⟩
    rcases (h _ rfl opened).2 with ⟨last, stored, reached⟩ | confirmed
    · exact .inl ⟨_, rfl, reached.trans (later last stored).le⟩
    · exact .inr confirmed

end Step

/-! ### One-time codes -/

/-- The code is accepted on the record that it was checked against, and it is not the code that
confirmed the enrolment. -/
structure OnCheckedRecord (K : Config) (userId : Nat) (before : List Deed) (e : Deed) : Prop where
  same : (e.op = .enableMfa userId ∨ ∃ request step, e.op = .acceptTotpStep request userId step) →
    ∀ mfa record, lastRead (own (machine K) before e.thread) = some mfa →
      e.before.mfa.records.get? userId = some record →
        record.encryptedSecret = mfa.encryptedSecret
  new : ∀ request step, e.op = .acceptTotpStep request userId step →
    ∀ secret, CheckedAgainst K before e secret → ¬StepConfirmed K userId secret step before

/-- The secret of the record was drawn. A record with a secret whose code was accepted is on, and
the code was of a used step or confirmed the enrolment. -/
structure StepInv (K : Config) (userId : Nat) (log : List Deed) (w : World) : Prop where
  drawn : ∀ record, w.mfa.records.get? userId = some record → DrawnSecret K.prims w.supply record
  used : ∀ secret step, StepUsed K userId secret step log →
    (∃ d < w.supply, secret = K.prims.totpSecret d) ∧
      ∀ record, w.mfa.records.get? userId = some record →
        K.prims.decrypt record.encryptedSecret = some secret →
          StepSpent step (StepConfirmed K userId secret step log) record

section Steps

variable {K : Config} {userId : Nat} {log : List Deed} {e : Deed} {secret : String} {step : Int}

theorem StepInv.start : StepInv K userId [] .empty where
  drawn := by
    intro record there
    cases there
  used := fun _ _ used => absurd used happened_nil

/-- What an accepted code does to the record. -/
inductive AcceptedOn (K : Config) (userId : Nat) (log : List Deed) (e : Deed) (secret : String)
    (step : Int) (record : MfaRecord) : Prop
  | presented (presents : Presents K userId log e secret step)
      (on : record.enabledAt.isSome = true)
      (later : ∀ used, record.lastUsedStep = some used → used < step)
      (stored : (e.after (machine K)).mfa.records.get? userId =
        some { record with lastUsedStep := some step })
  | confirmed (confirms : Confirms K userId log e secret step) (off : record.enabledAt = none)
      (stored : (e.after (machine K)).mfa.records.get? userId =
        some { record with enabledAt := some e.input.now })

theorem AcceptsStep.record (accepts : AcceptsStep K userId log e secret step)
    (ok : OnCheckedRecord K userId log e) :
    ∃ record, e.before.mfa.records.get? userId = some record ∧
      K.prims.decrypt record.encryptedSecret = some secret ∧
      AcceptedOn K userId log e secret step record := by
  have mfaStep := deed_mfaStep K e
  rcases accepts with presents | confirms
  · obtain ⟨request, event⟩ := presents.accepted
    obtain ⟨mfa, read, opened⟩ := presents.secret
    rw [event] at mfaStep
    obtain ⟨record, there, on, later, stored⟩ :=
      MfaStore.acceptTotpStep_eq_some.mp mfaStep.of_step
    have op : e.op = .acceptTotpStep request userId step := congrArg Event.op event
    refine ⟨record, there, ?_, .presented presents on later ?_⟩
    · rw [ok.same (.inr ⟨request, step, op⟩) mfa record read there]
      exact opened
    · rw [stored]
      exact OrdMap.get?_set_self _ _ _
  · obtain ⟨codes, event⟩ := confirms.accepted
    obtain ⟨mfa, read, opened⟩ := confirms.secret
    rw [event] at mfaStep
    obtain ⟨record, there, off, stored⟩ := MfaStore.enable_eq_some.mp mfaStep.of_enabled
    have op : e.op = .enableMfa userId := congrArg Event.op event
    refine ⟨record, there, ?_, .confirmed confirms off ?_⟩
    · rw [ok.same (.inl op) mfa record read there]
      exact opened
    · rw [stored]
      exact OrdMap.get?_set_self _ _ _

/-- A code that was accepted before is not accepted again. -/
theorem StepInv.fresh (inv : StepInv K userId log e.before) (ok : OnCheckedRecord K userId log e)
    (accepts : AcceptsStep K userId log e secret step) : ¬StepUsed K userId secret step log := by
  intro used
  obtain ⟨record, there, opened, on⟩ := accepts.record ok
  obtain ⟨enabled, known⟩ := (inv.used secret step used).2 record there opened
  cases on with
  | presented presents _ later =>
    rcases known with ⟨last, stored, reached⟩ | confirmed
    · exact absurd (later last stored) (Int.not_lt.mpr reached)
    · obtain ⟨request, event⟩ := presents.accepted
      exact ok.new request step (congrArg Event.op event) secret presents.secret confirmed
  | confirmed _ off =>
    rw [off] at enabled
    cases enabled

/-- What was used before the deed. -/
theorem StepInv.old (opens : ∀ secret draw, K.prims.decrypt (K.prims.encrypt secret draw) = some secret)
    (differ : Function.Injective K.prims.totpSecret) (inv : StepInv K userId log e.before)
    (used : StepUsed K userId secret step log) :
    (∃ d < (e.after (machine K)).supply, secret = K.prims.totpSecret d) ∧
      ∀ record, (e.after (machine K)).mfa.records.get? userId = some record →
        K.prims.decrypt record.encryptedSecret = some secret →
          StepSpent step (StepConfirmed K userId secret step (log ++ [e])) record := by
  have mfaStep := deed_mfaStep K e
  obtain ⟨⟨d, early, rfl⟩, known⟩ := inv.used secret step used
  refine ⟨⟨d, early.trans_le mfaStep.drawn, rfl⟩, fun record there opened => ?_⟩
  refine (mfaStep.record there).spent opens differ early (fun r found opened => ?_) opened
  obtain ⟨on, spent⟩ := known r found opened
  exact ⟨on, spent.imp_right fun confirmed => happened_snoc.mpr (.inl confirmed)⟩

/-- What the deed used. -/
theorem StepInv.new (opens : ∀ secret draw, K.prims.decrypt (K.prims.encrypt secret draw) = some secret)
    (inv : StepInv K userId log e.before) (ok : OnCheckedRecord K userId log e)
    (accepts : AcceptsStep K userId log e secret step) :
    (∃ d < (e.after (machine K)).supply, secret = K.prims.totpSecret d) ∧
      ∀ record, (e.after (machine K)).mfa.records.get? userId = some record →
        K.prims.decrypt record.encryptedSecret = some secret →
          StepSpent step (StepConfirmed K userId secret step (log ++ [e])) record := by
  obtain ⟨record, there, opened, on⟩ := accepts.record ok
  obtain ⟨d, drawn, same⟩ := inv.drawn record there
  rw [same, opens] at opened
  have grown : e.before.supply ≤ (e.after (machine K)).supply := (deed_mfaStep K e).drawn
  refine ⟨⟨d, drawn.trans_le grown, (Option.some.inj opened).symm⟩, fun record' there' _ => ?_⟩
  cases on with
  | presented _ on _ stored =>
    rw [stored] at there'
    obtain rfl := Option.some.inj there'
    exact ⟨on, .inl ⟨step, rfl, le_refl step⟩⟩
  | confirmed confirms _ stored =>
    rw [stored] at there'
    obtain rfl := Option.some.inj there'
    exact ⟨rfl, .inr (happened_snoc.mpr (.inr confirms))⟩

theorem StepInv.next
    (opens : ∀ secret draw, K.prims.decrypt (K.prims.encrypt secret draw) = some secret)
    (differ : Function.Injective K.prims.totpSecret) (inv : StepInv K userId log e.before) (ok : OnCheckedRecord K userId log e) :
    StepInv K userId (log ++ [e]) (e.after (machine K)) where
  drawn := by
    intro record there
    exact ((deed_mfaStep K e).record there).drawn inv.drawn
  used := by
    intro secret step used
    rcases happened_snoc.mp used with before | now
    · exact inv.old opens differ before
    · exact inv.new opens ok now

end Steps

/-! ### Recovery codes -/

/-- The stored hash of the recovery code that a draw gives. -/
def drawnCode (P : Primitives) (draw : Nat) : String := hashRecoveryCode P (generateRecoveryCode P draw)

/-- What happens to the user's recovery codes in a step. -/
inductive CodesStep (P : Primitives) (supply supply' : Nat) :
    List RecoveryRow → List RecoveryRow → Prop
  | kept (grown : supply ≤ supply') (rows) : CodesStep P supply supply' rows rows
  | cleared (grown : supply ≤ supply') (rows) : CodesStep P supply supply' rows []
  | drawn (grown : supply + 10 ≤ supply') (rows) : CodesStep P supply supply' rows
      ((List.range 10).map fun k => ⟨drawnCode P (supply + k), none⟩)
  | spent (grown : supply ≤ supply') {before row after at_} (unused : row.usedAt = none) :
      CodesStep P supply supply' (before ++ row :: after)
        (before ++ { row with usedAt := some at_ } :: after)

section Codes

variable {P : Primitives} {now : Date} {st st' : MfaStore} {supply supply' userId : Nat}
  {ev : Event ports}

theorem MfaStep.codes (step : MfaStep P now st supply ev st' supply') :
    CodesStep P supply supply' (st.codes userId) (st'.codes userId) := by
  have same_codes : ∀ st' : MfaStore, st'.recovery.get? userId = st.recovery.get? userId →
      CodesStep P supply supply' (st.codes userId) (st'.codes userId) := by
    intro st' same
    rw [MfaStore.codes, MfaStore.codes, same]
    exact .kept step.drawn _
  cases step with
  | same | challenged => exact same_codes _ rfl
  | pending u =>
    by_cases same : u = userId
    · subst same
      simp only [MfaStore.codes, MfaStore.savePending, OrdMap.get?_erase_self, Option.getD_none]
      exact .cleared (Nat.le_add_right _ _) _
    · exact same_codes _ (OrdMap.get?_erase_ne _ same)
  | @enabled u st' codes drawn stored =>
    obtain ⟨row, -, -, rfl⟩ := MfaStore.enable_eq_some.mp stored
    by_cases same : u = userId
    · subst same
      simp only [MfaStore.codes, OrdMap.get?_set_self, Option.getD_some, drawn, List.map_map]
      exact .drawn (Nat.le_refl _) _
    · exact same_codes _ (OrdMap.get?_set_ne _ _ same)
  | disabled u =>
    by_cases same : u = userId
    · subst same
      simp only [MfaStore.codes, MfaStore.disable, OrdMap.get?_erase_self, Option.getD_none]
      exact .cleared (Nat.le_refl _) _
    · exact same_codes _ (OrdMap.get?_erase_ne _ same)
  | step stored =>
    obtain ⟨row, -, -, -, rfl⟩ := MfaStore.acceptTotpStep_eq_some.mp stored
    exact same_codes _ rfl
  | @code request u codeHash at_ st' stored =>
    obtain ⟨rows, rows', found, spent, rfl⟩ := MfaStore.consumeRecoveryCode_eq_some.mp stored
    by_cases same : u = userId
    · subst same
      obtain ⟨before, hit, after, rfl, -, unused, rfl⟩ := spendRecovery_some spent
      simp only [MfaStore.codes, found, OrdMap.get?_set_self, Option.getD_some]
      exact .spent (Nat.le_refl _) unused
    · exact same_codes _ (OrdMap.get?_set_ne _ _ same)
  | consumed stored =>
    obtain ⟨row, -, rfl⟩ := MfaStore.consumeChallenge_eq_some.mp stored
    exact same_codes _ rfl
  | failed stored =>
    obtain ⟨row, -, -, rfl⟩ := MfaStore.failChallenge_eq_some.mp stored
    exact same_codes _ rfl

/-- The stored codes were drawn, are told apart by their hashes, and those that were accepted are
marked as used. -/
structure Codebook (P : Primitives) (supply : Nat) (used : String → Prop)
    (rows : List RecoveryRow) : Prop where
  drawn : ∀ row ∈ rows, ∃ d < supply, row.hash = drawnCode P d
  distinct : (rows.map RecoveryRow.hash).Nodup
  spent : ∀ codeHash, used codeHash → (∃ d < supply, codeHash = drawnCode P d) ∧
    ∀ row ∈ rows, row.hash = codeHash → row.usedAt.isSome = true

variable {used : String → Prop} {rows rows' : List RecoveryRow}

/-- The codes of an enrolment are new. -/
theorem Codebook.fresh (book : Codebook P supply used rows) (differ : Function.Injective (drawnCode P))
    (grown : supply + 10 ≤ supply') : Codebook P supply' used
      ((List.range 10).map fun k => ⟨drawnCode P (supply + k), none⟩) where
  drawn := by
    intro row there
    obtain ⟨k, small, rfl⟩ := List.mem_map.mp there
    have small : k < 10 := List.mem_range.mp small
    exact ⟨supply + k, by omega, rfl⟩
  distinct := by
    rw [List.map_map]
    refine List.Nodup.map ?_ List.nodup_range
    intro k k' same
    have draws : supply + k = supply + k' := differ same
    omega
  spent := by
    intro codeHash accepted
    obtain ⟨⟨d, early, rfl⟩, -⟩ := book.spent codeHash accepted
    refine ⟨⟨d, by omega, rfl⟩, fun row there same => ?_⟩
    obtain ⟨k, -, rfl⟩ := List.mem_map.mp there
    have draws : supply + k = d := differ same
    omega

/-- Marking a code keeps the others, and counts for every code with its hash. -/
theorem Codebook.mark {before after : List RecoveryRow} {row : RecoveryRow}
    (book : Codebook P supply used (before ++ row :: after)) (grown : supply ≤ supply')
    (at_ : Date) : Codebook P supply' (fun codeHash => used codeHash ∨ codeHash = row.hash)
      (before ++ { row with usedAt := some at_ } :: after) := by
  have hashes : (before ++ { row with usedAt := some at_ } :: after).map RecoveryRow.hash =
      (before ++ row :: after).map RecoveryRow.hash := by
    simp
  have mark : ∀ row' ∈ before ++ { row with usedAt := some at_ } :: after,
      row'.usedAt.isSome = true ∨ row' ∈ before ++ after := by
    intro row' there
    rcases List.mem_append.mp there with h | h
    · exact .inr (List.mem_append_left _ h)
    · rcases List.mem_cons.mp h with rfl | h
      · exact .inl rfl
      · exact .inr (List.mem_append_right _ h)
  have others : ∀ row' ∈ before ++ after, row' ∈ before ++ row :: after ∧ row'.hash ≠ row.hash := by
    intro row' there
    have distinct := book.distinct
    rw [List.map_append, List.map_cons, List.nodup_middle, ← List.map_append,
      List.nodup_cons] at distinct
    constructor
    · simp only [List.mem_append, List.mem_cons] at there ⊢
      exact there.imp_right .inr
    · intro same
      exact distinct.1 (List.mem_map.mpr ⟨row', there, same⟩)
  refine ⟨?_, hashes ▸ book.distinct, ?_⟩
  · intro row' there
    have listed : row'.hash ∈ (before ++ row :: after).map RecoveryRow.hash :=
      hashes ▸ List.mem_map_of_mem there
    obtain ⟨row'', there'', same⟩ := List.mem_map.mp listed
    obtain ⟨d, drawn, hash⟩ := book.drawn row'' there''
    exact ⟨d, drawn.trans_le grown, same.symm.trans hash⟩
  · rintro codeHash (accepted | rfl)
    · obtain ⟨⟨d, drawn, hash⟩, marked⟩ := book.spent codeHash accepted
      refine ⟨⟨d, drawn.trans_le grown, hash⟩, fun row' there same => ?_⟩
      rcases mark row' there with done | other
      · exact done
      · exact marked row' (others row' other).1 same
    · obtain ⟨d, drawn, hash⟩ := book.drawn row (by simp)
      refine ⟨⟨d, drawn.trans_le grown, hash⟩, fun row' there same => ?_⟩
      rcases mark row' there with done | other
      · exact done
      · exact absurd same (others row' other).2

theorem Codebook.mono {less : String → Prop} (book : Codebook P supply used rows)
    (fewer : ∀ codeHash, less codeHash → used codeHash) (grown : supply ≤ supply') :
    Codebook P supply' less rows where
  drawn := by
    intro row there
    obtain ⟨d, drawn, hash⟩ := book.drawn row there
    exact ⟨d, drawn.trans_le grown, hash⟩
  distinct := book.distinct
  spent := by
    intro codeHash accepted
    obtain ⟨⟨d, drawn, hash⟩, marked⟩ := book.spent codeHash (fewer codeHash accepted)
    exact ⟨⟨d, drawn.trans_le grown, hash⟩, marked⟩

theorem Codebook.step (differ : Function.Injective (drawnCode P))
    (book : Codebook P supply used rows) (step : CodesStep P supply supply' rows rows') :
    Codebook P supply' used rows' := by
  cases step with
  | kept grown => exact book.mono (fun _ => id) grown
  | cleared grown =>
    have known := (book.mono (fun _ => id) grown).spent
    exact ⟨by simp, List.nodup_nil, fun codeHash accepted =>
      ⟨(known codeHash accepted).1, by simp⟩⟩
  | drawn grown => exact book.fresh differ grown
  | @spent grown before row after at_ unused =>
    exact (book.mark grown at_).mono (fun _ => .inl) (Nat.le_refl _)

end Codes

section Runs

variable {K : Config} {userId : Nat} {log : List Deed} {e : Deed} {codeHash : String}

/-- The recovery codes of the user after a log. -/
abbrev CodeInv (K : Config) (userId : Nat) (log : List Deed) (w : World) : Prop :=
  Codebook K.prims w.supply (CodeUsed K userId · log) (w.mfa.codes userId)

/-- Where a recovery code is found and marked. -/
theorem spends_rows (spends : Spends userId codeHash (e.event (machine K))) :
    ∃ before row after at_, e.before.mfa.codes userId = before ++ row :: after ∧
      row.hash = codeHash ∧ row.usedAt = none ∧ (e.after (machine K)).mfa.codes userId =
        before ++ { row with usedAt := some at_ } :: after := by
  obtain ⟨request, at_, event⟩ := spends
  have mfaStep := deed_mfaStep K e
  rw [event] at mfaStep
  obtain ⟨rows, rows', found, spent, stored⟩ :=
    MfaStore.consumeRecoveryCode_eq_some.mp mfaStep.of_code
  obtain ⟨before, row, after, rfl, hash, unused, rfl⟩ := spendRecovery_some spent
  refine ⟨before, row, after, at_, ?_, hash, unused, ?_⟩
  · simp only [MfaStore.codes, found, Option.getD_some]
  · simp only [MfaStore.codes, stored, OrdMap.get?_set_self, Option.getD_some]

/-- A recovery code that was accepted before is not accepted again. -/
theorem CodeInv.fresh (inv : CodeInv K userId log e.before)
    (spends : Spends userId codeHash (e.event (machine K))) : ¬CodeUsed K userId codeHash log := by
  intro used
  obtain ⟨before, row, after, at_, rows, hash, unused, -⟩ := spends_rows spends
  have marked := (inv.spent codeHash used).2 row (by rw [rows]; simp) hash
  rw [unused] at marked
  cases marked

theorem CodeInv.next (differ : Function.Injective (drawnCode K.prims))
    (inv : CodeInv K userId log e.before) : CodeInv K userId (log ++ [e]) (e.after (machine K)) := by
  have grown : e.before.supply ≤ (e.after (machine K)).supply := (deed_mfaStep K e).drawn
  by_cases spent : ∃ codeHash, Spends userId codeHash (e.event (machine K))
  · obtain ⟨codeHash, spends⟩ := spent
    obtain ⟨before, row, after, at_, rows, hash, -, rows'⟩ := spends_rows spends
    rw [CodeInv, rows'] 
    rw [CodeInv, rows] at inv
    refine (inv.mark grown at_).mono (fun other used => ?_) (Nat.le_refl _)
    rcases happened_snoc.mp used with earlier | now
    · exact .inl earlier
    · obtain ⟨request, at_, event⟩ := spends
      obtain ⟨request', at_', event'⟩ := now
      have same := congrArg Event.op (event.symm.trans event')
      obtain ⟨-, -, same, -⟩ := Call.consumeRecoveryCode.inj same
      exact .inr (hash.trans same).symm
  · refine (inv.step differ (deed_mfaStep K e).codes).mono (fun other used => ?_) (Nat.le_refl _)
    rcases happened_snoc.mp used with earlier | now
    · exact earlier
    · exact absurd ⟨other, now⟩ spent

theorem CodeInv.start : CodeInv K userId [] .empty :=
  ⟨by simp [MfaStore.codes, World.empty], by simp [MfaStore.codes, World.empty],
    fun _ used => absurd used happened_nil⟩

variable {c : Pool ports World Request (Except AuthError Response)}

/-- As long as every code is accepted on the record it was checked against, and the code that
confirmed an enrolment is not presented again, no code is accepted twice. -/
theorem codes_single_use
    (opens : ∀ secret draw, K.prims.decrypt (K.prims.encrypt secret draw) = some secret)
    (secretsDiffer : Function.Injective K.prims.totpSecret)
    (codesDiffer : Function.Injective (drawnCode K.prims))
    (recorded : Pool.Recorded (system K) .empty (OnCheckedRecord K userId) log c) :
    SingleUse K userId log := by
  have invs : ∀ {before : List Deed} {c}, Pool.Recorded (system K) .empty (OnCheckedRecord K userId)
      before c → StepInv K userId before (ending (machine K) .empty before) ∧
        CodeInv K userId before (ending (machine K) .empty before) := by
    intro before c recorded
    refine recorded.induct (P := fun log => StepInv K userId log (ending (machine K) .empty log) ∧
      CodeInv K userId log (ending (machine K) .empty log)) ⟨.start, .start⟩ ?_
    intro log e _ _ from_ ok inv
    have from_ : e.before = ending (machine K) .empty log := from_
    rw [← from_] at inv
    rw [ending_snoc]
    exact ⟨inv.1.next opens secretsDiffer ok, inv.2.next codesDiffer⟩
  constructor
  · rintro before e after secret step rfl accepts
    obtain ⟨from_, ok⟩ := recorded.step
    obtain ⟨c', earlier⟩ := recorded.of_append
    have from_ : e.before = ending (machine K) .empty before := from_
    have inv := (invs earlier).1
    rw [← from_] at inv
    exact inv.fresh ok accepts
  · rintro before e after codeHash rfl spends
    obtain ⟨from_, -⟩ := recorded.step
    obtain ⟨c', earlier⟩ := recorded.of_append
    have from_ : e.before = ending (machine K) .empty before := from_
    have inv := (invs earlier).2
    rw [← from_] at inv
    exact inv.fresh spends

end Runs

/-! ### The confirming code again -/

/-- The code that confirmed Sam's authenticator disables it right after. -/
theorem confirming_code_replayed :
    ∃ log c, Pool.Recorded (system sampleConfig) .empty (fun _ _ => True) log c ∧
      ¬SingleUse sampleConfig 1 log := by
  refine ⟨enabledThenDisabled.1, enabledThenDisabled.2,
    (Pool.courseUnder_recorded _ _ _ _).mono fun _ _ _ => trivial, fun once => ?_⟩
  have accepted : 20 < enabledThenDisabled.1.length := by decide +kernel
  have confirmed : 15 < (enabledThenDisabled.1.take 20).length := by decide +kernel
  have split : ∀ (l : List Deed) k (h : k < l.length), l = l.take k ++ l[k] :: l.drop (k + 1) := by
    intro l k h
    rw [← List.drop_eq_getElem_cons h, List.take_append_drop]
  have presents : Presents sampleConfig 1 (enabledThenDisabled.1.take 20)
      enabledThenDisabled.1[20] "SECRET" (-1) :=
    ⟨⟨3, rfl⟩, ⟨1, "SECRET", some 1000, none⟩, rfl, rfl⟩
  have confirms : Confirms sampleConfig 1 ((enabledThenDisabled.1.take 20).take 15)
      (enabledThenDisabled.1.take 20)[15] "SECRET" (-1) :=
    ⟨⟨_, rfl⟩, ⟨1, "123456", phone, 1000, rfl, rfl, by decide +kernel⟩,
      ⟨1, "SECRET", none, none⟩, rfl, rfl⟩
  exact once.steps _ _ _ "SECRET" (-1) (split _ 20 accepted) (.inl presents)
    ⟨_, _, _, split _ 15 confirmed, .inr confirms⟩

/-! ### Codes at different times -/

/-- Stand-ins whose secrets and recovery codes differ from draw to draw. -/
def distinctPrimitives : Primitives :=
  { samplePrimitives with
    totpSecret := fun draw => String.ofList (List.replicate draw 'S')
    hexDigits := fun draw => String.ofList (List.replicate draw 'A') }

def distinctConfig : Config := ⟨distinctPrimitives, none, true⟩

theorem chunksOf4_flatten (cs : List Char) : (chunksOf4 cs).flatten = cs := by
  fun_induction chunksOf4 cs with
  | case1 a b c d rest ih => simp [ih]
  | case2 => rfl
  | case3 => simp

/-- A filter that leaves out the separators. -/
theorem filter_intercalate {p : Char → Bool} {sep : List Char} (h : sep.filter p = [])
    (parts : List (List Char)) : (sep.intercalate parts).filter p = parts.flatten.filter p := by
  match parts with
  | [] => rfl
  | [part] => simp
  | part :: next :: rest =>
    have ih := filter_intercalate h (next :: rest)
    rw [List.intercalate_cons_cons, List.filter_append, List.filter_append, h, List.append_nil, ih,
      ← List.filter_append]
    rfl

theorem drawnCode_injective : Function.Injective (drawnCode distinctPrimitives) := by
  have code : ∀ draw, drawnCode distinctPrimitives draw = String.ofList (List.replicate draw 'A') := by
    intro draw
    have parts : ∀ cs : List Char, ((chunksOf4 cs).map String.ofList).map String.toList =
        chunksOf4 cs := by
      intro cs
      rw [List.map_map]
      exact (List.map_congr_left fun part _ => String.toList_ofList).trans (List.map_id _)
    have kept : (List.replicate draw 'A').filter (fun c => c.isDigit || c.isUpper || c.isLower) =
        List.replicate draw 'A' := List.filter_replicate_of_pos (by decide)
    change String.ofList (((("-".intercalate ((chunksOf4 (String.ofList
      (List.replicate draw 'A')).toList).map String.ofList)).toList).filter fun c =>
        c.isDigit || c.isUpper || c.isLower)) = _
    rw [String.toList_intercalate, parts, filter_intercalate (by decide), chunksOf4_flatten,
      String.toList_ofList, kept]
  intro draw draw' same
  rw [code, code] at same
  have lengths := congrArg (fun s => s.toList.length) same
  simpa using lengths

/-- Whether a step is no one-time code, and enables the record that was read if any. -/
def OnCheckedRecord.check (userId : Nat) (before : List Deed) (e : Deed) : Bool :=
  match e.op with
  | .acceptTotpStep .. => false
  | .enableMfa _ =>
    (e.before.mfa.records.get? userId).map MfaRecord.encryptedSecret ==
      (lastRead (own (machine distinctConfig) before e.thread)).map MfaRecord.encryptedSecret
  | _ => true

theorem OnCheckedRecord.of_check {userId : Nat} {before : List Deed} {e : Deed}
    (h : OnCheckedRecord.check userId before e = true) :
    OnCheckedRecord distinctConfig userId before e where
  same := by
    rintro (op | ⟨request, step, op⟩) mfa record read there
    · simpa [OnCheckedRecord.check, op, read, there] using h
    · simp [OnCheckedRecord.check, op] at h
  new := by
    intro request step op
    simp [OnCheckedRecord.check, op] at h

/-- Sam sets up an authenticator and disables it with the third recovery code. -/
def recovered : Pool.Course ports Env World Request (Except AuthError Response) :=
  Pool.courseUnder (system distinctConfig) (OnCheckedRecord.check 1) .empty
    (signsUp ++
      (.start (.enrollMfa 1 "correct horse battery" phone) :: List.replicate 4 (.run 1 noon)) ++
      (.start (.enableMfa 1 "123456" phone) :: List.replicate 5 (.run 2 noon)) ++
      (.start (.disableMfa 1 "correct horse battery" "AAAA-AAAA-AAAA-AAA" phone) ::
        List.replicate 6 (.run 3 noon)))

theorem codes_single_use_recovery :
    recovered.1.length = 23 ∧ SingleUse distinctConfig 1 recovered.1 := by
  refine ⟨by decide +kernel, codes_single_use (fun _ _ => rfl) ?_ drawnCode_injective
    ((Pool.courseUnder_recorded _ _ _ _).mono fun _ _ => OnCheckedRecord.of_check)⟩
  intro draw draw' same
  have lengths := congrArg (fun s : String => s.toList.length) same
  simpa [distinctConfig, distinctPrimitives] using lengths

end Finverse.Auth
