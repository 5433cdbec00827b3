import Finverse.Auth.SecondFactor

/-! Every way to sign in, and the second factor it must meet. -/

namespace Finverse.Auth

open Interleave

section Walks

variable {K : Config} {w : World} {n : Nat}

/-- Request `n` keeps the contract with this task, of whose end nothing is asked. -/
abbrev Keeps (K : Config) (n : Nat) (w : World) {α : Type} (m : Service α) : Prop :=
  Task.Meets (factors K) n (fun _ _ => True) (fun _ _ => True) w m

theorem keeps_of_all {α : Type} {m : Service α} (h : Calls ((factors K).Safe n) m) : Keeps K n w m :=
  Task.Meets.of_all h

theorem keeps_throw {α : Type} (e : AuthError) : Keeps K n w (throw e : Service α) := trivial

/-- Over safe calls that matter to nothing that follows. -/
theorem keeps_bind {α β : Type} {m : Service α} {f : α → Service β}
    (hm : Calls ((factors K).Safe n) m) (hf : ∀ a t, Keeps K n t (f a)) : Keeps K n w (m >>= f) := by
  refine Task.meets_bind.mpr ((keeps_of_all hm).weaken ?_ fun _ _ h => h)
  intro a t _
  exact hf a t

/-- Over silent calls. -/
theorem keeps_bind_idle {α β : Type} {m : Service α} {f : α → Service β}
    (hm : Calls ((factors K).Idle n) m) (hf : ∀ a t, (factors K).rely n w t → Keeps K n t (f a)) :
    Keeps K n w (m >>= f) :=
  Task.meets_bind.mpr ((Task.Meets.of_idle hm).weaken hf fun _ _ _ => trivial)

theorem issueSession_keeps {user : User} (cleared : w.Cleared n user.id) (context : RequestContext) :
    Keeps K n w (issueSession n user context) := by
  refine Task.meets_bind.mpr ?_
  refine meets_call_own ?_
  intro env t hr hi guard
  refine ⟨hi.perform guard ?_ ?_, factors_guarantee (by simp [Call.madeBy]), trivial⟩
  · intro request user' context' h
    obtain ⟨rfl, rfl, -⟩ := Call.createSession.inj h
    exact cleared.moved hr
  · intro userId h
    cases h

theorem record_idle (kind : AuthEventKind) (succeeded : Bool) (userId : Option Nat)
    (emailAttempted : Option String) (context : RequestContext) (detail : Option String) :
    Calls ((factors K).Idle n) (record kind succeeded userId emailAttempted context detail) :=
  silent_all rfl rfl rfl

theorem issueAuthAction_idle (user : User) (kind : AuthActionKind) :
    Calls ((factors K).Idle n) (issueAuthAction user kind) := by
  refine Task.all_bind (silent_all rfl rfl rfl) fun token => ?_
  refine Task.all_bind (silent_all rfl rfl rfl) fun delivered => ?_
  split
  · exact Task.all_pure _
  · exact Task.all_throw _

/-- The event that ends a sign-in, and the session. -/
theorem record_issue_keeps {user : User} (cleared : w.Cleared n user.id) (kind : AuthEventKind)
    (userId : Option Nat) (email : Option String) (detail : Option String)
    (context : RequestContext) {α : Type} (f : AuthResult → Service α)
    (hf : ∀ result t, Keeps K n t (f result)) :
    Keeps K n w (do
      record kind true userId email context detail
      let result ← issueSession n user context
      f result) := by
  refine keeps_bind_idle (record_idle ..) fun _ t hr => ?_
  refine Task.meets_bind.mpr ((issueSession_keeps (cleared.moved hr) context).weaken ?_ fun _ _ h => h)
  intro result t' _
  exact hf result t'

/-! ### Registration -/

/-- A new user has no factor yet. -/
theorem createRegistration_cleared {email passwordHash : String} {displayName : Option String}
    {env : Env} {user : User}
    (h : (perform K (.createRegistration n email passwordHash displayName) env w).1 = some user) :
    (perform K (.createRegistration n email passwordHash displayName) env w).2.Cleared n user.id := by
  simp only [perform, World.createRegistration] at h ⊢
  split at h
  · simp at h
  · rename_i user' users hc
    obtain rfl := Option.some.inj h
    simp only [UserStore.create] at hc
    split at hc
    · simp at hc
    · obtain ⟨rfl, -⟩ := Prod.mk.inj (Option.some.inj hc)
      refine .inl ?_
      simp [World.Undecided, World.deeds, World.note, Trail.request]

theorem register_keeps (email password : String) (displayName : Option String)
    (legalAcceptance : LegalAcceptanceInput) (context : RequestContext) :
    Keeps K n w (register K n email password displayName legalAcceptance context) := by
  have ordinarily : Ordinarily n ((factors K).Safe n) := factors_ordinarily
  unfold register
  dsimp only
  split
  · exact keeps_throw _
  · split
    · exact keeps_throw _
    · refine keeps_bind (assertPasswordNotCompromised_all ordinarily _) fun _ _ => ?_
      split
      · exact keeps_throw _
      · refine keeps_bind (call_all ordinarily rfl rfl) fun passwordHash t => ?_
        refine Task.meets_bind.mpr ?_
        refine meets_call_safe_own (ordinarily _ rfl (by simp [Call.madeBy])) ?_
        intro env t' _ _ _ _ _
        split
        · exact keeps_bind (record_all ordinarily ..) fun _ _ => keeps_throw _
        · rename_i user huser
          have cleared := createRegistration_cleared huser
          refine keeps_bind_idle (record_idle ..) fun _ u hu => ?_
          refine keeps_bind_idle (Task.all_tryCatch ?_ fun _ => record_idle ..) fun _ v hv => ?_
          · exact Task.all_bind (issueAuthAction_idle ..) fun _ => record_idle ..
          · exact issueSession_keeps ((cleared.moved hu).moved hv) context

/-! ### Password -/

/-- The factor is looked up: a user without one owes none. -/
theorem getMfaForLogin_cleared {userId : Nat} {env : Env}
    (h : ¬((perform K (.getMfaForLogin n userId) env w).1.bind MfaRecord.enabledAt).isSome) :
    (perform K (.getMfaForLogin n userId) env w).2.Cleared n userId := by
  have off : w.mfa.enabled userId = false := by
    change ¬((w.mfa.records.get? userId).bind MfaRecord.enabledAt).isSome at h
    cases hr : w.mfa.records.get? userId with
    | none => simp [MfaStore.enabled, hr]
    | some row => simpa [MfaStore.enabled, hr] using h
  refine .inl ?_
  simp [perform, off, World.Undecided, World.deeds, World.note, Trail.request]

theorem login_keeps (email password : String) (context : RequestContext) :
    Keeps K n w (login K n email password context) := by
  have ordinarily : Ordinarily n ((factors K).Safe n) := factors_ordinarily
  unfold login
  refine keeps_bind (call_all ordinarily rfl rfl) fun now _ => ?_
  refine keeps_bind (call_all ordinarily rfl rfl) fun failures _ => ?_
  dsimp only
  split
  · exact keeps_bind (record_all ordinarily ..) fun _ _ => keeps_throw _
  · refine keeps_bind (call_all ordinarily rfl rfl) fun found _ => ?_
    refine keeps_bind (passwordOk_all ordinarily ..) fun ok t => ?_
    split
    · rename_i user
      split
      · exact keeps_bind (record_all ordinarily ..) fun _ _ => keeps_throw _
      · have decided : ∀ t, Keeps K n t (do
            let mfa ← call (.getMfaForLogin n user.id)
            if (mfa.bind MfaRecord.enabledAt).isSome then do
              let expiresAt := now + 5 * 60 * 1000
              let challengeToken ← call (.createChallenge user.id expiresAt)
              record .mfaChallenge true (some user.id) (some (normalizeEmail K.prims email)) context
                (some "password verified")
              pure (LoginResult.mfaRequired challengeToken expiresAt)
            else do
              record .login true (some user.id) (some (normalizeEmail K.prims email)) context none
              let result ← issueSession n user context
              pure (.signedIn result)) := by
          intro t
          refine Task.meets_bind.mpr ?_
          refine meets_call_safe_own (ordinarily _ rfl (by simp [Call.madeBy])) ?_
          intro env t' _ _ _ _ _
          split
          · refine keeps_bind (call_all ordinarily rfl rfl) fun _ _ => ?_
            exact keeps_bind (record_all ordinarily ..) fun _ _ => trivial
          · rename_i hoff
            exact record_issue_keeps (getMfaForLogin_cleared hoff) _ _ _ _ context _
              fun _ _ => trivial
        split
        · refine keeps_bind (call_all ordinarily rfl rfl) fun upgraded _ => ?_
          exact keeps_bind (call_all ordinarily rfl rfl) fun _ t => decided t
        · exact decided t
    · exact keeps_bind (record_all ordinarily ..) fun _ _ => keeps_throw _

/-! ### Second factors -/

theorem verifyMfaFactor_meets (userId : Nat) (candidate : String) (now : Date) :
    Task.Meets (factors K) n (fun accepted t => accepted = true → t.Met n userId)
      (fun _ _ => True) w (verifyMfaFactor K n userId candidate now) := by
  have ordinarily : Ordinarily n ((factors K).Safe n) := factors_ordinarily
  have accepted_mem : ∀ t : World, .accepted n userId ∈ (t.note (.accepted n userId)).trail := by
    intro t
    simp [World.note]
  unfold verifyMfaFactor
  refine Task.meets_bind.mpr ?_
  refine meets_call_safe (ordinarily _ rfl rfl) ?_
  intro env t _ _ _ _ _
  split
  · exact fun rejected => absurd rejected (by simp)
  · split
    · exact fun rejected => absurd rejected (by simp)
    · dsimp only
      generalize isSixDigits (trim candidate) = digits
      cases digits with
      | true =>
        refine Task.meets_bind.mpr ((keeps_of_all (decryptMfaSecret_all _)).weaken ?_ fun _ _ h => h)
        intro secret t' _
        cases verifyTotp K.prims secret (trim candidate) now with
        | none => exact fun rejected => absurd rejected (by simp)
        | some step =>
          refine meets_call_safe (ordinarily _ rfl (by simp [Call.madeBy])) ?_
          intro env' t'' _ _ _ _ _ hok
          simp only [perform] at hok ⊢
          split at hok
          · exact .inl (accepted_mem t'')
          · simp at hok
      | false =>
        refine meets_call_safe (ordinarily _ rfl (by simp [Call.madeBy])) ?_
        intro env' t'' _ _ _ _ _ hok
        simp only [perform] at hok ⊢
        split at hok
        · exact .inl (accepted_mem t'')
        · simp at hok

theorem challengeFactor_meets (found : Option User) (code : String) (now : Date) :
    Task.Meets (factors K) n
      (fun accepted t => accepted = true → ∀ user, found = some user → t.Met n user.id)
      (fun _ _ => True) w (challengeFactor K n found code now) := by
  unfold challengeFactor
  split
  · exact nofun
  · rename_i user huser
    refine (verifyMfaFactor_meets user.id code now).weaken ?_ fun _ _ h => h
    intro accepted t hmet hok user' hfound
    obtain ⟨hsome, -⟩ := Option.filter_eq_some_iff.mp huser
    rw [hfound] at hsome
    obtain rfl := Option.some.inj hsome
    exact hmet hok

theorem verifyMfaChallenge_keeps (challengeToken : Nat) (code : String) (context : RequestContext) :
    Keeps K n w (verifyMfaChallenge K n challengeToken code context) := by
  have ordinarily : Ordinarily n ((factors K).Safe n) := factors_ordinarily
  unfold verifyMfaChallenge
  refine keeps_bind (call_all ordinarily rfl rfl) fun now _ => ?_
  refine keeps_bind (call_all ordinarily rfl rfl) fun owner _ => ?_
  split
  · exact keeps_throw _
  · refine keeps_bind (call_all ordinarily rfl rfl) fun found _ => ?_
    refine Task.meets_bind.mpr ((challengeFactor_meets found code now).weaken ?_ fun _ _ h => h)
    intro accepted t hmet
    split
    · rename_i user
      have cleared : t.Cleared n user.id := .inr (hmet rfl user rfl)
      refine keeps_bind_idle (silent_all rfl rfl rfl) fun consumed u hu => ?_
      split
      · refine keeps_bind_idle (record_idle ..) fun _ v hv => ?_
        refine keeps_bind_idle (record_idle ..) fun _ v' hv' => ?_
        exact issueSession_keeps (((cleared.moved hu).moved hv).moved hv') context
      · exact keeps_throw _
    · refine keeps_bind (call_all ordinarily rfl rfl) fun remaining _ => ?_
      exact keeps_bind (record_all ordinarily ..) fun _ _ => keeps_throw _

/-! ### Passkeys -/

theorem loginWithVerifiedPasskey_keeps (userId : Nat) (context : RequestContext) :
    Keeps K n w (loginWithVerifiedPasskey n userId context) := by
  have ordinarily : Ordinarily n ((factors K).Safe n) := factors_ordinarily
  unfold loginWithVerifiedPasskey
  refine Task.meets_bind.mpr ?_
  refine meets_call_safe (ordinarily _ rfl (by simp [Call.madeBy])) ?_
  intro env t _ _ _ _ _
  have met : (perform K (.passkeyAsserted n userId) env t).2.Met n userId :=
    .inr (by simp [perform, World.note])
  refine Task.meets_bind.mpr ?_
  refine meets_call_safe (ordinarily _ rfl rfl) ?_
  intro env' t' he hi _ _ _
  have owner : ∀ user, (perform K (.findUserById userId) env' t').1 = some user →
      user.id = userId := by
    intro user huser
    exact (hi.users _ _ (UserStore.findById_some huser)).1
  have still : (perform K (.findUserById userId) env' t').2.Met n userId := met.evolved he
  generalize (perform K (.findUserById userId) env' t').1 = found at owner ⊢
  generalize (perform K (.findUserById userId) env' t').2 = t₁ at still ⊢
  have unlocked : Calls ((factors K).Idle n) (assertPasskeyNotLocked (found.map User.email) context) := by
    unfold assertPasskeyNotLocked
    split
    · exact Task.all_pure _
    · refine Task.all_bind (silent_all rfl rfl rfl) fun _ => ?_
      refine Task.all_bind (silent_all rfl rfl rfl) fun _ => ?_
      dsimp only
      split
      · exact Task.all_bind (record_idle ..) fun _ => Task.all_throw _
      · exact Task.all_pure _
  refine keeps_bind_idle unlocked fun _ u hu => ?_
  split
  · exact keeps_bind (record_all ordinarily ..) fun _ _ => keeps_throw _
  · rename_i user
    split
    · exact keeps_bind (record_all ordinarily ..) fun _ _ => keeps_throw _
    · have cleared : u.Cleared n user.id := by
        rw [owner user rfl]
        exact .inr (still.evolved hu.1)
      refine keeps_bind_idle (record_idle ..) fun _ v hv => ?_
      refine keeps_bind_idle (record_idle ..) fun _ v' hv' => ?_
      exact issueSession_keeps ((cleared.moved hv).moved hv') context

/-! ### Restored accounts -/

/-- The restored account has no enabled factor: this is where the guard is needed. -/
theorem cancelDeletion_cleared {userId : Nat} {env : Env}
    (h : (perform K (.cancelDeletion n userId) env w).1 = true) :
    (perform K (.cancelDeletion n userId) env w).2.Cleared n userId := by
  simp only [perform] at h ⊢
  split at h
  · refine .inl ?_
    simp [World.Undecided, World.deeds, World.note, Trail.request]
  · simp at h

theorem cancelAccountDeletion_keeps (email password : String) (context : RequestContext) :
    Keeps K n w (cancelAccountDeletion K n email password context) := by
  have ordinarily : Ordinarily n ((factors K).Safe n) := factors_ordinarily
  unfold cancelAccountDeletion
  refine keeps_bind (call_all ordinarily rfl rfl) fun found _ => ?_
  refine keeps_bind (passwordOk_all ordinarily ..) fun ok _ => ?_
  split
  · rename_i user
    refine Task.meets_bind.mpr ?_
    refine meets_call_safe_own (ordinarily _ rfl (by simp [Call.madeBy])) ?_
    intro env t _ _ _ _ _
    split
    · rename_i hcancelled
      refine keeps_bind_idle (record_idle ..) fun _ u hu => ?_
      exact issueSession_keeps ((cancelDeletion_cleared hcancelled).moved hu) context
    · exact keeps_throw _
  · exact keeps_bind (record_all ordinarily ..) fun _ _ => keeps_throw _

/-! ### Enrolment -/

theorem requirePassword_meets (userId : Nat) (password : String) :
    Task.Meets (factors K) n (fun user t => user.id < t.supply) (fun _ _ => True) w
      (requirePassword K userId password) := by
  unfold requirePassword
  refine Task.meets_bind.mpr ?_
  refine meets_call_safe (factors_ordinarily _ rfl rfl) ?_
  intro env t _ hi _ _ _
  split
  · trivial
  · rename_i user huser
    have stored := hi.users _ _ (UserStore.findById_some huser)
    split
    · trivial
    · split
      · rw [Task.meets_pure, stored.1]
        exact stored.2
      · trivial

theorem enrollMfa_keeps (userId : Nat) (password : String) (context : RequestContext) :
    Keeps K n w (enrollMfa K userId password context) := by
  have ordinarily : Ordinarily n ((factors K).Safe n) := factors_ordinarily
  unfold enrollMfa
  split
  · exact keeps_throw _
  · refine Task.meets_bind.mpr ((requirePassword_meets userId password).weaken ?_ fun _ _ h => h)
    intro user t known
    refine keeps_bind_idle (silent_all rfl rfl rfl) fun current u hu => ?_
    split
    · exact keeps_throw _
    · refine Task.meets_bind.mpr ?_
      refine meets_call_own ?_
      intro env v hv hi guard
      refine ⟨hi.perform guard (fun _ _ _ h => Call.noConfusion h) ?_, factors_guarantee rfl, ?_⟩
      · intro userId' h
        obtain rfl := Call.savePendingMfa.inj h
        exact Nat.lt_of_lt_of_le (Nat.lt_of_lt_of_le known hu.1.1) hv.1.1
      · exact keeps_bind (record_all ordinarily ..) fun _ _ => trivial

/-! ### Refresh -/

theorem refresh_keeps (refreshToken : Nat) (context : RequestContext) :
    Keeps K n w (refresh K n refreshToken context) := by
  have ordinarily : Ordinarily n ((factors K).Safe n) := factors_ordinarily
  refine keeps_of_all ?_
  unfold refresh
  refine Task.all_bind (call_all ordinarily rfl rfl) fun now => ?_
  refine Task.all_bind (call_all ordinarily rfl rfl) fun session => ?_
  split
  · exact Task.all_bind (revokeReused_all ordinarily ..) fun _ => Task.all_throw _
  · refine Task.all_bind (call_all ordinarily rfl rfl) fun found => ?_
    split
    · exact Task.all_bind (call_all ordinarily rfl rfl) fun _ => Task.all_throw _
    · rename_i user _
      refine Task.all_bind ((Task.all_call (I := ports) _).mpr ?_) fun rotated => ?_
      · exact factors_safe (by simp [Call.madeBy]) (fun _ _ _ h => Call.noConfusion h)
          fun _ h => Call.noConfusion h
      · split
        · refine Task.all_bind (call_all ordinarily rfl rfl) fun current => ?_
          split
          · exact Task.all_bind (revokeReused_all ordinarily ..) fun _ => Task.all_throw _
          · exact Task.all_throw _
        · exact Task.all_bind (record_all ordinarily ..) fun _ => Task.all_pure _
  · exact Task.all_throw _

end Walks

/-! ### Runs -/

section Runs

variable {K : Config}

theorem handle_keeps (n : Nat) (r : Request) (w : World) : Keeps K n w (handle K n r) := by
  cases r with
  | register => exact Task.Meets.map (register_keeps _ _ _ _ _)
  | login => exact Task.Meets.map (login_keeps _ _ _)
  | loginWithVerifiedPasskey => exact Task.Meets.map (loginWithVerifiedPasskey_keeps _ _)
  | verifyMfaChallenge => exact Task.Meets.map (verifyMfaChallenge_keeps _ _ _)
  | cancelAccountDeletion => exact Task.Meets.map (cancelAccountDeletion_keeps _ _ _)
  | enrollMfa => exact Task.Meets.map (enrollMfa_keeps _ _ _)
  | refresh => exact Task.Meets.map (refresh_keeps _ _)
  | _ => exact keeps_of_all (plain_all factors_ordinarily rfl)

theorem system_keeps_factors (w₀ : World) :
    Pool.Serves (S := system K) (factors K) (fun _ _ _ _ => True) w₀ := by
  intro n r w _ _
  refine Sat.weaken (handle_keeps n r w) ?_
  intro a t _
  trivial

/-- In every run in which no account with an enabled second factor is restored, every session of
such a user was issued after its request had met the factor. -/
theorem second_factor_met {c : Pool ports World Request (Except AuthError Response)}
    (run : Pool.Run (system K) (fun call env w => factorGuard call env w = true) (.idle .empty) c) :
    Justified c.state.trail :=
  have sound : Pool.Sound (S := system K) (factors K) (fun _ _ _ _ => True) c :=
    ((Pool.Sound.idle FactorInv.empty).run (system_keeps_factors .empty) (Contract.refl _ _) run).1
  sound.inv.justified

end Runs

/-- Sam signs up and sets up an authenticator. -/
def protectedAccount : List (Pool.Move Env Request) :=
  (.start (.register "sam@example.com" "correct horse battery" none ⟨false, none, false, none⟩ phone) ::
    List.replicate 8 (.run 0 noon)) ++
  (.start (.enrollMfa 1 "correct horse battery" phone) :: List.replicate 4 (.run 1 noon)) ++
  (.start (.enableMfa 1 "123456" phone) :: List.replicate 5 (.run 2 noon))

/-- Sam signs in with the password and a one-time code. -/
def signedInTwice : Pool ports World Request (Except AuthError Response) :=
  Pool.afterUnder (system sampleConfig) factorGuard
    (protectedAccount ++
      (.start (.login "sam@example.com" "correct horse battery" phone) ::
        List.replicate 6 (.run 3 noon)) ++
      (.start (.verifyMfaChallenge 24 "123456" phone) :: List.replicate 9 (.run 4 noon)))
    (.idle .empty)

theorem second_factor_met_by_code :
    (∃ a, signedInTwice.Finished 4 (.verifyMfaChallenge 24 "123456" phone) (.ok a)) ∧
      .issued 4 1 true ∈ signedInTwice.state.trail ∧ Justified signedInTwice.state.trail :=
  ⟨⟨_, rfl⟩, by decide +kernel, second_factor_met (Pool.afterUnder_run _ _ _ _)⟩

/-- Sam asks for the account to be deleted. Whoever knows the password takes that back. -/
def restored : Pool ports World Request (Except AuthError Response) :=
  Pool.after (system sampleConfig)
    (protectedAccount ++
      (.start (.requestAccountDeletion 1 "correct horse battery" (some "123456") phone) ::
        List.replicate 11 (.run 3 noon)) ++
      (.start (.cancelAccountDeletion "sam@example.com" "correct horse battery" phone) ::
        List.replicate 4 (.run 4 noon)))
    (.idle .empty)

/-- The restored account has its factor enabled, and the session is issued without it. -/
theorem restored_without_factor :
    Pool.Run (system sampleConfig) (fun _ _ _ => True) (.idle .empty) restored ∧
      (∃ a, restored.Finished 4
        (.cancelAccountDeletion "sam@example.com" "correct horse battery" phone) (.ok a)) ∧
      ¬Justified restored.state.trail := by
  have trail : restored.state.trail =
      [.waived 0 1, .issued 0 1 false, .accepted 3 1, .waived 4 1] ++ .issued 4 1 true :: [] := by
    decide +kernel
  refine ⟨Pool.after_run _ _ _, ⟨_, rfl⟩, ?_⟩
  intro justified
  have met := justified _ _ 4 1 trail
  simp at met

end Finverse.Auth
