import Finverse.Auth.MfaSteps

/-! Whether a second factor that was switched on stays on. -/

namespace Finverse.Auth

open Interleave

/-! ### What the steps keep -/

namespace MfaStore

/-- The record is still there as it was switched on, and so is every unused code that was not spent. -/
structure StaysOn (spent : String → Prop) (userId : Nat) (st st' : MfaStore) : Prop where
  record : ∀ r, st.records.get? userId = some r → ∃ r', st'.records.get? userId = some r' ∧
    r'.enabledAt = r.enabledAt ∧ r'.encryptedSecret = r.encryptedSecret
  codes : ∀ row ∈ st.codes userId, row.usedAt = none → spent row.hash ∨ row ∈ st'.codes userId

section StaysOn

variable {spent spent' : String → Prop} {userId : Nat} {st st' st'' : MfaStore}

theorem StaysOn.of_same (records : st'.records.get? userId = st.records.get? userId)
    (recovery : st'.recovery.get? userId = st.recovery.get? userId) :
    StaysOn spent userId st st' where
  record := by
    intro r there
    exact ⟨r, records.trans there, rfl, rfl⟩
  codes := by
    intro row there _
    right
    rwa [MfaStore.codes, recovery]

theorem StaysOn.trans (h : StaysOn spent userId st st') (h' : StaysOn spent' userId st' st'') :
    StaysOn (fun hash => spent hash ∨ spent' hash) userId st st'' where
  record := by
    intro r there
    obtain ⟨r', there', at_, secret⟩ := h.record r there
    obtain ⟨r'', there'', at_', secret'⟩ := h'.record r' there'
    exact ⟨r'', there'', at_'.trans at_, secret'.trans secret⟩
  codes := by
    intro row there unused
    rcases h.codes row there unused with gone | there'
    · exact .inl (.inl gone)
    · exact (h'.codes row there' unused).imp_left .inr

theorem StaysOn.mono (h : StaysOn spent userId st st') (more : ∀ hash, spent hash → spent' hash) :
    StaysOn spent' userId st st' where
  record := h.record
  codes := fun row there unused => (h.codes row there unused).imp_left (more row.hash)

theorem StaysOn.enabled (h : StaysOn spent userId st st') (on : st.enabled userId = true) :
    st'.enabled userId = true := by
  obtain ⟨r, there, on⟩ := enabled_iff.mp on
  obtain ⟨r', there', at_, -⟩ := h.record r there
  exact enabled_iff.mpr ⟨r', there', by rwa [at_]⟩

end StaysOn

end MfaStore

/-- An accepted second factor of the user. -/
def Accepted (userId : Nat) (ev : Event ports) : Prop :=
  (∃ request step, ev = ⟨.acceptTotpStep request userId step, true⟩) ∨
    ∃ request codeHash at_, ev = ⟨.consumeRecoveryCode request userId codeHash at_, true⟩

theorem MfaStep.staysOn {P : Primitives} {now : Date} {st st' : MfaStore} {supply supply' : Nat}
    {ev : Event ports} {userId : Nat} (step : MfaStep P now st supply ev st' supply')
    (on : st.enabled userId = true) (notDisabled : ev.op ≠ .disableMfa userId)
    (notPending : ev.op ≠ .savePendingMfa userId) :
    st.StaysOn (Spends userId · ev) userId st' := by
  obtain ⟨r, there, enabledAt⟩ := MfaStore.enabled_iff.mp on
  cases step with
  | same => exact .of_same rfl rfl
  | challenged => exact .of_same rfl rfl
  | pending u =>
    have other : u ≠ userId := fun h => notPending (congrArg _ h)
    exact .of_same (OrdMap.get?_set_ne _ _ other) (OrdMap.get?_erase_ne _ other)
  | @enabled u st' codes drawn stored =>
    obtain ⟨row, found, off, rfl⟩ := MfaStore.enable_eq_some.mp stored
    have other : u ≠ userId := by
      rintro rfl
      rw [there] at found
      obtain rfl := Option.some.inj found
      rw [off] at enabledAt
      cases enabledAt
    exact .of_same (OrdMap.get?_set_ne _ _ other) (OrdMap.get?_set_ne _ _ other)
  | disabled u =>
    have other : u ≠ userId := fun h => notDisabled (congrArg _ h)
    exact .of_same (OrdMap.get?_erase_ne _ other) (OrdMap.get?_erase_ne _ other)
  | @step request u step st' stored =>
    obtain ⟨row, found, -, -, rfl⟩ := MfaStore.acceptTotpStep_eq_some.mp stored
    refine ⟨?_, fun row there _ => .inr there⟩
    intro r' there'
    by_cases same : u = userId
    · subst same
      rw [found] at there'
      obtain rfl := Option.some.inj there'
      exact ⟨_, OrdMap.get?_set_self _ _ _, rfl, rfl⟩
    · exact ⟨r', (OrdMap.get?_set_ne _ _ same).trans there', rfl, rfl⟩
  | @code request u codeHash at_ st' stored =>
    obtain ⟨rows, rows', found, spent, rfl⟩ := MfaStore.consumeRecoveryCode_eq_some.mp stored
    refine ⟨fun r' there' => ⟨r', there', rfl, rfl⟩, ?_⟩
    intro row there unused
    by_cases same : u = userId
    · subst same
      obtain ⟨before, hit, after, rfl, hash, -, rfl⟩ := spendRecovery_some spent
      simp only [MfaStore.codes, found, Option.getD_some, List.mem_append, List.mem_cons] at there
      simp only [MfaStore.codes, OrdMap.get?_set_self, Option.getD_some, List.mem_append,
        List.mem_cons]
      rcases there with h | rfl | h
      · exact .inr (.inl h)
      · exact .inl ⟨request, at_, by rw [hash]⟩
      · exact .inr (.inr (.inr h))
    · right
      rwa [MfaStore.codes, OrdMap.get?_set_ne _ _ same]
  | consumed stored =>
    obtain ⟨row, -, rfl⟩ := MfaStore.consumeChallenge_eq_some.mp stored
    exact .of_same rfl rfl
  | failed stored =>
    obtain ⟨row, -, -, rfl⟩ := MfaStore.failChallenge_eq_some.mp stored
    exact .of_same rfl rfl

/-! ### Who disables a factor -/

/-- A factor of the user was accepted before. -/
def AcceptedBefore (h : List (Event ports)) (userId : Nat) : Prop := ∃ ev ∈ h, Accepted userId ev

/-- A factor is disabled only after one was accepted. -/
def DisablesVerified (h : List (Event ports)) (op : Call) : Prop :=
  ∀ userId, op = .disableMfa userId → AcceptedBefore h userId

section Disabling

variable {K : Config} {n : Nat} {h : List (Event ports)}

/-- Everything but disabling is allowed at any time. -/
theorem plainly_disablesVerified : Plainly fun c => ∀ h, DisablesVerified h c := by
  intro c ordinary h userId same
  subst same
  cases ordinary


theorem disableMfa_asks (userId : Nat) (password code : String) (context : RequestContext) :
    Task.Asks (I := ports) DisablesVerified (fun _ _ => True) (fun _ _ => True) h
      (disableMfa K n userId password code context) := by
  have other : ∀ {h : List (Event ports)} {c : Call}, (∀ u, c ≠ .disableMfa u) → DisablesVerified h c :=
    fun no u same => absurd same (no u)
  unfold disableMfa
  refine Task.Asks.all_bind (requirePassword_plain plainly_disablesVerified userId password)
    (fun h _ allowed => allowed h) (fun _ _ _ => trivial) fun h user _ => ?_
  refine call_bind_asks.mpr ⟨other (by simp), fun now => ?_⟩
  have factor : ∀ h, Task.Asks (I := ports) DisablesVerified
      (fun h' accepted => accepted = true → AcceptedBefore h' user.id) (fun _ _ => True) h
      (verifyMfaFactor K n user.id code now) := by
    intro h
    refine verifyMfaFactor_asks (other (by simp)) (fun _ accepted => by cases accepted) ?_ ?_
      fun _ _ => trivial
    · intro mfa secret step _ _
      refine ⟨other (by simp), ?_⟩
      rintro accepted rfl
      exact ⟨_, List.mem_append_right _ (List.mem_singleton_self _), .inl ⟨n, step, rfl⟩⟩
    · intro mfa
      refine ⟨other (by simp), ?_⟩
      rintro accepted rfl
      exact ⟨_, List.mem_append_right _ (List.mem_singleton_self _), .inr ⟨n, _, now, rfl⟩⟩
  refine Task.asks_bind.mpr ((factor _).weaken (fun h accepted verified => ?_) fun _ _ _ => trivial)
  cases accepted with
  | true =>
    refine call_bind_asks.mpr ⟨?_, fun _ => ?_⟩
    · rintro u same
      obtain rfl := Call.disableMfa.inj same
      exact verified rfl
    · exact call_asks.mpr ⟨other (by simp), fun _ => trivial⟩
  | false =>
    exact call_bind_asks.mpr ⟨other (by simp), fun _ => trivial⟩

end Disabling

/-- The request is one to disable the factor. -/
def Request.disables : Request → Bool
  | .disableMfa .. => true
  | _ => false

section Runs

variable {K : Config} {w₀ : World} {cond : List Deed → Deed → Prop} {before after : List Deed}
  {e : Deed} {c : Pool ports World Request (Except AuthError Response)} {userId : Nat}

/-- Only a request to disable the factor does it, after a factor of the user was accepted. -/
theorem disabled_verified (recorded : Pool.Recorded (system K) w₀ cond (before ++ e :: after) c)
    (done : e.op = .disableMfa userId) :
    e.req.disables = true ∧ AcceptedBefore (own (machine K) before e.thread) userId := by
  have made := deed_made recorded (by rw [done]; rfl)
  rw [done] at made
  obtain ⟨thread, req, op, input, state⟩ := e
  cases req with
  | disableMfa u password code context =>
    have asks : Task.Asks (I := ports) DisablesVerified (fun _ _ => True) (fun _ _ => True) []
        (handle K thread (.disableMfa u password code context)) :=
      Task.asks_map.mpr (disableMfa_asks u password code context)
    exact ⟨rfl, recorded.asks asks userId done⟩
  | _ => cases made

/-- A new secret is stored only while the user's factor is off. -/
def PendingWhileOff (userId : Nat) (_ : List Deed) (e : Deed) : Prop :=
  e.op = .savePendingMfa userId → e.before.mfa.enabled userId = false

/-- Once it is on, the user's factor stays on as it is until a request disables it that has had a
factor of the user accepted. -/
def StaysOnUntilDisabled (K : Config) (w₀ : World) (userId : Nat) (before after : List Deed) : Prop :=
  (ending (machine K) w₀ before).mfa.enabled userId = true →
    (∃ mid e rest, after = mid ++ e :: rest ∧ e.op = .disableMfa userId ∧
      e.req.disables = true ∧ AcceptedBefore (own (machine K) (before ++ mid) e.thread) userId) ∨
    (ending (machine K) w₀ before).mfa.StaysOn
      (fun codeHash => ∃ e ∈ after, Spends userId codeHash (e.event (machine K))) userId
      (ending (machine K) w₀ (before ++ after)).mfa

/-- Nothing but disabling it changes a factor that is on, as long as no new secret replaces it. -/
theorem staysOn_since
    (recorded : Pool.Recorded (system K) w₀ (PendingWhileOff userId) (before ++ after) c)
    (on : (ending (machine K) w₀ before).mfa.enabled userId = true)
    (notDisabled : ∀ e ∈ after, e.op ≠ .disableMfa userId) :
    (ending (machine K) w₀ before).mfa.StaysOn
      (fun codeHash => ∃ e ∈ after, Spends userId codeHash (e.event (machine K))) userId
      (ending (machine K) w₀ (before ++ after)).mfa := by
  refine recorded.since
    (P := fun mid => (ending (machine K) w₀ before).mfa.StaysOn
      (fun codeHash => ∃ e ∈ mid, Spends userId codeHash (e.event (machine K))) userId
      (ending (machine K) w₀ (before ++ mid)).mfa) ?_ ?_
  · rw [List.append_nil]
    exact .of_same rfl rfl
  · intro mid e rest split from_ ok sofar
    have from_ : e.before = ending (machine K) w₀ (before ++ mid) := from_
    rw [← from_] at sofar
    have still : e.before.mfa.enabled userId = true := sofar.enabled on
    have here : e ∈ after := by
      rw [split]
      exact List.mem_append_right _ List.mem_cons_self
    have notPending : e.op ≠ .savePendingMfa userId := by
      intro pending
      rw [ok pending] at still
      cases still
    have step := (perform_mfaStep K e.op e.input e.before).staysOn still (notDisabled e here) notPending
    rw [← List.append_assoc, ending_snoc]
    refine (sofar.trans step).mono ?_
    rintro codeHash (⟨e', earlier, spends⟩ | spends)
    · exact ⟨e', List.mem_append_left _ earlier, spends⟩
    · exact ⟨e, List.mem_append_right _ (List.mem_singleton_self e), spends⟩

theorem factor_stays_on
    (recorded : Pool.Recorded (system K) w₀ (PendingWhileOff userId) (before ++ after) c) :
    StaysOnUntilDisabled K w₀ userId before after := by
  intro on
  by_cases disabled : ∃ e ∈ after, e.op = .disableMfa userId
  · left
    obtain ⟨e, there, done⟩ := disabled
    obtain ⟨mid, rest, rfl⟩ := List.append_of_mem there
    rw [← List.append_assoc] at recorded
    obtain ⟨request, accepted⟩ := disabled_verified recorded done
    exact ⟨mid, e, rest, rfl, done, request, accepted⟩
  · right
    exact staysOn_since recorded on fun e there done => disabled ⟨e, there, done⟩

end Runs

/-! ### Two enrolments at once -/

/-- Sam signs up. -/
def signsUp : List (Pool.Move Env Request) :=
  .start (.register "sam@example.com" "correct horse battery" none ⟨false, none, false, none⟩ phone) ::
    List.replicate 8 (.run 0 noon)

/-- Sam starts to set up an authenticator twice. The second request is about to save its secret when
the first one is confirmed. -/
def confirmedBetween : List (Pool.Move Env Request) :=
  signsUp ++
  (.start (.enrollMfa 1 "correct horse battery" phone) :: List.replicate 4 (.run 1 noon)) ++
  (.start (.enrollMfa 1 "correct horse battery" phone) :: List.replicate 2 (.run 2 noon)) ++
  (.start (.enableMfa 1 "123456" phone) :: List.replicate 5 (.run 3 noon))

/-- The second request saves its secret. -/
def overwritten : Pool.Course ports Env World Request (Except AuthError Response) :=
  Pool.course (system sampleConfig) .empty (confirmedBetween ++ [.run 2 noon])

/-- The secret that is saved last takes the factor away, and nobody disabled it. -/
theorem factor_overwritten :
    ∃ before after c, Pool.Recorded (system sampleConfig) .empty (fun _ _ => True)
      (before ++ after) c ∧ ¬StaysOnUntilDisabled sampleConfig .empty 1 before after := by
  refine ⟨overwritten.1.take 19, overwritten.1.drop 19, overwritten.2, ?_, fun staysOn => ?_⟩
  · rw [List.take_append_drop]
    exact Pool.course_recorded _ _ _
  · have on : (ending (machine sampleConfig) .empty (overwritten.1.take 19)).mfa.enabled 1 = true := by
      decide +kernel
    have off : (ending (machine sampleConfig) .empty overwritten.1).mfa.enabled 1 = false := by
      decide +kernel
    have nobody : ∀ e ∈ overwritten.1.drop 19, e.req.disables = false := by
      have all : (overwritten.1.drop 19).all (fun e => !e.req.disables) = true := by decide +kernel
      intro e there
      simpa using List.all_eq_true.mp all e there
    rcases staysOn on with ⟨mid, e, rest, split, -, disables, -⟩ | still
    · rw [nobody e (by rw [split]; simp)] at disables
      cases disables
    · rw [List.take_append_drop] at still
      have on' := still.enabled on
      rw [off] at on'
      cases on'

/-- Whether a step is one of these. -/
def PendingWhileOff.check (userId : Nat) (_ : List Deed) (e : Deed) : Bool :=
  match e.op with
  | .savePendingMfa u => !(u == userId && e.before.mfa.enabled userId)
  | _ => true

theorem PendingWhileOff.of_check {userId : Nat} {log : List Deed} {e : Deed}
    (h : PendingWhileOff.check userId log e = true) : PendingWhileOff userId log e := by
  intro saves
  simpa [PendingWhileOff.check, saves] using h

/-- Sam sets up an authenticator and disables it with a code. -/
def enabledThenDisabled : Pool.Course ports Env World Request (Except AuthError Response) :=
  Pool.courseUnder (system sampleConfig) (PendingWhileOff.check 1) .empty
    (signsUp ++
      (.start (.enrollMfa 1 "correct horse battery" phone) :: List.replicate 4 (.run 1 noon)) ++
      (.start (.enableMfa 1 "123456" phone) :: List.replicate 5 (.run 2 noon)) ++
      (.start (.disableMfa 1 "correct horse battery" "123456" phone) ::
        List.replicate 6 (.run 3 noon)))

theorem factor_stays_on_sam :
    (ending (machine sampleConfig) .empty (enabledThenDisabled.1.take 17)).mfa.enabled 1 = true ∧
      StaysOnUntilDisabled sampleConfig .empty 1 (enabledThenDisabled.1.take 17)
        (enabledThenDisabled.1.drop 17) := by
  refine ⟨by decide +kernel, factor_stays_on (c := enabledThenDisabled.2) ?_⟩
  rw [List.take_append_drop]
  exact (Pool.courseUnder_recorded _ _ _ _).mono fun _ _ => PendingWhileOff.of_check

end Finverse.Auth
