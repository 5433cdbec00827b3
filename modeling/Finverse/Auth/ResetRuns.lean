import Finverse.Auth.PasswordReset
import Finverse.Auth.EnrolmentRace
import Mathlib.Data.List.TakeWhile

/-! Password resets next to sign-ins and refreshes: what the runs come to. -/

namespace Finverse.Auth

open Interleave

variable {K : Config} {w₀ : World} {cond : List Deed → Deed → Prop} {before mid after log : List Deed}
  {e : Deed} {userId : Nat} {c : Pool ports World Request (Except AuthError Response)}

/-! ### What a reset has done -/

/-- A record that a password was reset. -/
def Call.completesReset : Call → Bool
  | .record .passwordResetCompleted true (some _) _ _ _ => true
  | _ => false

/-- A reset completes once, when it has stored the hash and then revoked the sessions. -/
def ResetAsks (h : List (Event ports)) (op : Call) : Prop :=
  ∀ id email context detail, op = .record .passwordResetCompleted true (some id) email context detail →
    (∃ earlier hash at_ count, ⟨.updatePasswordHash id hash, ()⟩ ∈ earlier ∧
      h = earlier ++ [⟨.revokeAllForUser id .admin at_, count⟩]) ∧
    ∀ ev ∈ h, Call.completesReset ev.op = false

theorem resetAsks_other {h : List (Event ports)} {op : Call} (other : op.completesReset = false) :
    ResetAsks h op := by
  rintro id email context detail rfl
  cases other

theorem confirmPasswordReset_asks (token : Nat) (password : String) (context : RequestContext) :
    Task.Asks (I := ports) ResetAsks (fun _ _ => True) (fun _ _ => True) []
      (confirmPasswordReset K token password context) := by
  unfold confirmPasswordReset
  split
  · trivial
  · have screened : Calls (fun c => c.completesReset = false) (assertPasswordNotCompromised K password) := by
      unfold assertPasswordNotCompromised
      refine Task.all_bind ((Task.all_call (I := ports) _).mpr rfl) fun found => ?_
      split
      · exact Task.all_throw _
      · split
        · exact Task.all_throw _
        · exact Task.all_pure _
      · exact Task.all_pure _
    refine Task.Asks.all_bind screened (fun _ _ other => resetAsks_other other) (fun _ _ _ => trivial) ?_
    rintro _ _ ⟨screening, rfl, quiet⟩
    refine call_bind_asks.mpr ⟨resetAsks_other rfl, fun now => ?_⟩
    refine call_bind_asks.mpr ⟨resetAsks_other rfl, fun consumed => ?_⟩
    cases consumed with
    | none => trivial
    | some owner =>
      refine call_bind_asks.mpr ⟨resetAsks_other rfl, fun found => ?_⟩
      cases found with
      | none => trivial
      | some user =>
        dsimp only
        split
        · trivial
        · refine call_bind_asks.mpr ⟨resetAsks_other rfl, fun passwordHash => ?_⟩
          refine call_bind_asks.mpr ⟨resetAsks_other rfl, fun _ => ?_⟩
          refine call_bind_asks.mpr ⟨resetAsks_other rfl, fun count => ?_⟩
          refine call_asks.mpr ⟨?_, fun _ => trivial⟩
          intro id email context' detail same
          obtain ⟨rfl⟩ : user.id = id := by
            cases same
            rfl
          refine ⟨⟨_, passwordHash, now, count, List.mem_append_right _ (List.mem_singleton_self _), rfl⟩, ?_⟩
          intro ev there
          simp only [List.mem_append, List.mem_cons, List.not_mem_nil, or_false] at there
          rcases there with (((((there | rfl) | rfl) | rfl) | rfl) | rfl) | rfl
          · exact quiet ev there
          all_goals rfl

theorem completes_iff : completes userId e = true ↔ e.req.resets = true ∧ ∃ email context detail,
    e.op = .record .passwordResetCompleted true (some userId) email context detail := by
  unfold completes
  split
  · rename_i id email context detail done
    rw [done, Bool.and_eq_true, beq_iff_eq]
    constructor
    · rintro ⟨resets, rfl⟩
      exact ⟨resets, email, context, detail, rfl⟩
    · rintro ⟨resets, _, _, _, same⟩
      cases same
      exact ⟨resets, rfl⟩
  · rename_i other
    simp only [Bool.false_eq_true, false_iff]
    rintro ⟨-, email, context, detail, done⟩
    exact absurd done (other userId email context detail)

/-- The reset that completes stored the hash, then revoked the sessions, and had not completed. -/
theorem reset_done (recorded : Pool.Recorded (system K) w₀ cond (log ++ e :: after) c)
    (completed : completes userId e = true) :
    (∃ before r mid, log = before ++ r :: mid ∧ r.thread = e.thread ∧ revokes userId r = true ∧
      ∃ w ∈ before, w.thread = e.thread ∧ writes userId w = true) ∧
    ∀ d ∈ log, d.thread = e.thread → completes userId d = false := by
  obtain ⟨resets, email, context, detail, done⟩ := completes_iff.mp completed
  have asks : Task.Asks (I := ports) ResetAsks (fun _ _ => True) (fun _ _ => True) []
      (handle K e.thread e.req) := by
    cases req : e.req with
    | confirmPasswordReset token password context =>
      exact Task.asks_map.mpr (confirmPasswordReset_asks token password context)
    | _ =>
      rw [req] at resets
      cases resets
  obtain ⟨⟨earlier, hash, at_, count, stored, did⟩, once⟩ :=
    recorded.asks asks userId email context detail done
  have resets' {d : Deed} (there : d ∈ log) (thread : d.thread = e.thread) : d.req.resets = true := by
    rw [recorded.same_req (List.mem_append_left _ there) (List.mem_append_right _ List.mem_cons_self) thread]
    exact resets
  constructor
  · have did : own (machine K) log e.thread = earlier ++ [⟨.revokeAllForUser userId .admin at_, count⟩] := did
    obtain ⟨before, r, mid, rfl, thread, event, first, -⟩ := own_split did
    have revoked : r.op = .revokeAllForUser userId .admin at_ := (Entry.of_event event).1
    rw [← first] at stored
    obtain ⟨w, there, thread', wrote⟩ := mem_own.mp stored
    have wrote : w.op = .updatePasswordHash userId hash := (Entry.of_event wrote).1
    refine ⟨before, r, mid, rfl, thread, ?_, w, there, thread', ?_⟩
    · rw [revokes, revoked, resets' (by simp) thread]
      simp
    · rw [writes, wrote, resets' (by simp [there]) thread']
      simp
  · intro d there thread
    by_contra done'
    obtain ⟨-, email', context', detail', done'⟩ := completes_iff.mp (Bool.eq_true_of_not_eq_false done')
    have open_ := once (d.event (machine K)) (mem_own.mpr ⟨d, there, thread, rfl⟩)
    have open_ : Call.completesReset d.op = false := open_
    rw [done'] at open_
    cases open_

/-- A reset that has stored its hash goes on: the checks before are those it found. -/
theorem beforeWrite_append {n : Nat} (wrote : ∃ w ∈ before, w.thread = n ∧ writes userId w = true) :
    beforeWrite userId n (before ++ after) = beforeWrite userId n before := by
  obtain ⟨w, there, thread, wrote⟩ := wrote
  rw [beforeWrite, List.takeWhile_append, if_neg]
  · rfl
  · intro whole
    have all := List.takeWhile_eq_self_iff.mp (List.takeWhile_prefix _ |>.eq_of_length whole) w there
    simp [thread, wrote] at all

theorem beforeWrite_subset {n : Nat} (there : e ∈ beforeWrite userId n log) : e ∈ log :=
  (List.takeWhile_prefix _).subset there

/-- Who signed in by password is let in once. -/
theorem signIn_once (recorded : Pool.Recorded (system K) w₀ cond (before ++ e :: after) c) {checked : List Deed}
    (sub : ∀ e' ∈ checked, e' ∈ before ++ e :: after) (signsIn : signsInOn K userId checked e = true)
    (admits : Call.admits e.op = true) :
    ∀ e' ∈ before, e'.thread = e.thread → settles (e'.event (machine K)) = false := by
  obtain ⟨e₀, there, signed⟩ := List.any_eq_true.mp signsIn
  rw [Bool.and_eq_true, beq_iff_eq] at signed
  obtain ⟨thread, checks_⟩ := signed
  have req : e₀.req = e.req :=
    recorded.same_req (sub e₀ there) (List.mem_append_right _ List.mem_cons_self) thread
  have accepts : ∃ user, e.req.accepts K user = true := by
    unfold checks at checks_
    split at checks_
    · obtain ⟨user, -, accepted⟩ := (Option.any_eq_true _ _).mp checks_
      rw [Bool.and_eq_true, req] at accepted
      exact ⟨user, accepted.2⟩
    · cases checks_
  obtain ⟨user, accepts⟩ := accepts
  have asks : Task.Asks (I := ports) SignInAsks (fun _ _ => True) (fun _ _ => True) []
      (handle K e.thread e.req) := by
    have nothing : Tentative [] := fun _ none_ => nomatch none_
    cases request : e.req with
    | login email password context =>
      exact Task.asks_map.mpr ((login_signsIn email password context).asks [] nothing)
    | cancelAccountDeletion email password context =>
      exact Task.asks_map.mpr ((cancelAccountDeletion_signsIn email password context).asks [] nothing)
    | _ =>
      rw [request] at accepts
      cases accepts
  have tentative : Tentative (own (machine K) before e.thread) := recorded.asks asks admits
  exact fun e' there same => tentative _ (mem_own.mpr ⟨e', there, same, rfl⟩)

/-! ### Challenges -/

/-- An unused challenge that has been drawn before a step was unused before it, and expired as late. -/
theorem challenge_before (collisionFree : Function.Injective K.prims.hashToken) {d : Nat}
    (drawn : d < e.before.supply) {row : ChallengeRow}
    (there : (e.after (machine K)).mfa.challenges.get? (K.prims.hashToken d) = some row)
    (unused : row.usedAt = none) :
    ∃ row₀, e.before.mfa.challenges.get? (K.prims.hashToken d) = some row₀ ∧ row₀.usedAt = none ∧
      row₀.expiresAt = row.expiresAt := by
  have step := deed_mfaStep K e
  revert there step
  generalize (e.after (machine K)).mfa = st'
  generalize (e.after (machine K)).supply = supply'
  generalize e.event (machine K) = ev
  intro there step
  cases step with
  | same | pending => exact ⟨row, there, unused, rfl⟩
  | enabled _ stored =>
    obtain ⟨_, -, -, rfl⟩ := MfaStore.enable_eq_some.mp stored
    exact ⟨row, there, unused, rfl⟩
  | disabled u =>
    rw [MfaStore.disable, OrdMap.get?_filter, Option.filter_eq_some_iff] at there
    exact ⟨row, there.1, unused, rfl⟩
  | step stored =>
    obtain ⟨_, -, -, -, rfl⟩ := MfaStore.acceptTotpStep_eq_some.mp stored
    exact ⟨row, there, unused, rfl⟩
  | code stored =>
    obtain ⟨_, _, -, -, rfl⟩ := MfaStore.consumeRecoveryCode_eq_some.mp stored
    exact ⟨row, there, unused, rfl⟩
  | challenged owner expiresAt =>
    have other : K.prims.hashToken e.before.supply ≠ K.prims.hashToken d := by
      intro same
      have := collisionFree same
      omega
    rw [MfaStore.createChallenge, OrdMap.get?_set_ne _ _ other] at there
    exact ⟨row, there, unused, rfl⟩
  | @consumed tokenHash at_ _ stored =>
    obtain ⟨row₀, live, rfl⟩ := MfaStore.consumeChallenge_eq_some.mp stored
    by_cases same : tokenHash = K.prims.hashToken d
    · rw [same, OrdMap.get?_set_self] at there
      obtain rfl := Option.some.inj there
      cases unused
    · rw [OrdMap.get?_set_ne _ _ same] at there
      exact ⟨row, there, unused, rfl⟩
  | @failed tokenHash at_ _ remaining stored =>
    obtain ⟨row₀, live, rfl, rfl⟩ := MfaStore.failChallenge_eq_some.mp stored
    by_cases same : tokenHash = K.prims.hashToken d
    · rw [same, OrdMap.get?_set_self] at there
      obtain rfl := Option.some.inj there
      obtain ⟨stored', unused', -⟩ := MfaStore.live_eq_some.mp live
      exact ⟨row₀, same ▸ stored', unused', rfl⟩
    · rw [OrdMap.get?_set_ne _ _ same] at there
      exact ⟨row, there, unused, rfl⟩

theorem supply_since (recorded : Pool.Recorded (system K) w₀ cond (before ++ after) c) :
    (ending (machine K) w₀ before).supply ≤ (ending (machine K) w₀ (before ++ after)).supply := by
  refine recorded.since (P := fun mid =>
    (ending (machine K) w₀ before).supply ≤ (ending (machine K) w₀ (before ++ mid)).supply) ?_ ?_
  · rw [List.append_nil]
  · intro mid e rest _ here _ sofar
    have here : e.before = ending (machine K) w₀ (before ++ mid) := here
    rw [← List.append_assoc, ending_snoc]
    rw [← here] at sofar
    exact sofar.trans (deed_mfaStep K e).drawn

/-- An unused challenge that was drawn at some point was unused there, and expired as late. -/
theorem challenge_since (collisionFree : Function.Injective K.prims.hashToken)
    (recorded : Pool.Recorded (system K) w₀ cond (before ++ after) c) {d : Nat}
    (drawn : d < (ending (machine K) w₀ before).supply) {row : ChallengeRow}
    (there : (ending (machine K) w₀ (before ++ after)).mfa.challenges.get? (K.prims.hashToken d) = some row)
    (unused : row.usedAt = none) :
    ∃ row₀, (ending (machine K) w₀ before).mfa.challenges.get? (K.prims.hashToken d) = some row₀ ∧
      row₀.usedAt = none ∧ row₀.expiresAt = row.expiresAt := by
  refine (recorded.since (P := fun mid => d < (ending (machine K) w₀ (before ++ mid)).supply ∧ ∀ row,
    (ending (machine K) w₀ (before ++ mid)).mfa.challenges.get? (K.prims.hashToken d) = some row →
      row.usedAt = none → ∃ row₀,
        (ending (machine K) w₀ before).mfa.challenges.get? (K.prims.hashToken d) = some row₀ ∧
          row₀.usedAt = none ∧ row₀.expiresAt = row.expiresAt) ?_ ?_).2 row there unused
  · rw [List.append_nil]
    exact ⟨drawn, fun row there unused => ⟨row, there, unused, rfl⟩⟩
  · rintro mid e rest - here - ⟨below, sofar⟩
    have here : e.before = ending (machine K) w₀ (before ++ mid) := here
    rw [← List.append_assoc, ending_snoc]
    rw [← here] at below sofar
    refine ⟨below.trans_le (deed_mfaStep K e).drawn, fun row there unused => ?_⟩
    obtain ⟨row₁, there₁, unused₁, same₁⟩ := challenge_before collisionFree below there unused
    obtain ⟨row₀, there₀, unused₀, same₀⟩ := sofar row₁ there₁ unused₁
    exact ⟨row₀, there₀, unused₀, same₀.trans same₁⟩

/-- The challenges that were given had been drawn. -/
theorem issued_drawn (recorded : Pool.Recorded (system K) w₀ cond before c) {checked : List Deed}
    {tokenHash : Nat} (given : tokenHash ∈ issued K userId checked before) :
    ∃ d < (ending (machine K) w₀ before).supply, tokenHash = K.prims.hashToken d := by
  obtain ⟨e, there, rfl⟩ := List.mem_map.mp given
  obtain ⟨there, created⟩ := List.mem_filter.mp there
  obtain ⟨sofar, rest, rfl⟩ := List.append_of_mem there
  refine ⟨e.before.supply, ?_, rfl⟩
  rw [List.append_cons] at recorded ⊢
  have later := supply_since recorded
  rw [ending_snoc] at later
  refine lt_of_lt_of_le ?_ later
  obtain ⟨thread, req, op, input, state⟩ := e
  cases op with
  | createChallenge => exact Nat.lt_succ_self _
  | _ => cases created

/-! ### Nobody is let in after the reset -/

section CutOff

variable {checked : List Deed} {x : Deed}

/-- Whose sign-in has come to something is not let in again. -/
theorem not_admitted (recorded : Pool.Recorded (system K) w₀ cond (before ++ after) c)
    (sub : ∀ e ∈ checked, e ∈ before)
    (settled : ∀ e ∈ checked, checks K userId e = true →
      ∃ e' ∈ before, e'.thread = e.thread ∧ settles (e'.event (machine K)) = true)
    (there : x ∈ after) (signsIn : signsInOn K userId checked x = true) : Call.admits x.op = false := by
  by_contra admits
  obtain ⟨mid, rest, rfl⟩ := List.append_of_mem there
  rw [← List.append_assoc] at recorded
  have tentative := signIn_once recorded
    (fun e' there => List.mem_append_left _ (List.mem_append_left _ (sub e' there))) signsIn
    (Bool.eq_true_of_not_eq_false admits)
  obtain ⟨e, there, signed⟩ := List.any_eq_true.mp signsIn
  rw [Bool.and_eq_true, beq_iff_eq] at signed
  obtain ⟨e', there', thread, came⟩ := settled e there signed.2
  have nothing := tentative e' (List.mem_append_left _ there') (thread.trans signed.1)
  rw [nothing] at came
  cases came

theorem issued_before (recorded : Pool.Recorded (system K) w₀ cond (before ++ after) c)
    (sub : ∀ e ∈ checked, e ∈ before)
    (settled : ∀ e ∈ checked, checks K userId e = true →
      ∃ e' ∈ before, e'.thread = e.thread ∧ settles (e'.event (machine K)) = true)
    {tokenHash : Nat} (given : tokenHash ∈ issued K userId checked (before ++ after)) :
    tokenHash ∈ issued K userId checked before := by
  obtain ⟨e, there, rfl⟩ := List.mem_map.mp given
  obtain ⟨there, created⟩ := List.mem_filter.mp there
  refine List.mem_map.mpr ⟨e, List.mem_filter.mpr ⟨?_, created⟩, rfl⟩
  refine (List.mem_append.mp there).resolve_right fun late => ?_
  rw [Bool.and_eq_true] at created
  have refused := not_admitted recorded sub settled late created.2
  obtain ⟨thread, req, op, input, state⟩ := e
  cases op with
  | createChallenge => cases refused
  | _ => cases created.1

theorem opensSession_admits {op : Call} (opens : op.opensSession = true) : op.admits = true := by
  cases op <;> first | rfl | cases opens

end CutOff

/-- A challenge of before gives no session any more. -/
theorem not_opened_through (collisionFree : Function.Injective K.prims.hashToken) {r : Deed}
    (recorded : Pool.Recorded (system K) w₀ (SignInsOver K userId) (before ++ r :: mid ++ e :: after) c)
    (revoked : revokes userId r = true) {tokenHash : Nat}
    (given : tokenHash ∈ issued K userId (beforeWrite userId r.thread before) before) :
    opensThrough K tokenHash e = false := by
  by_contra opens
  obtain ⟨⟨u, there, thread, used⟩, once⟩ := session_opened recorded (Bool.eq_true_of_not_eq_false opens)
  rw [List.append_assoc, List.cons_append] at recorded
  obtain ⟨here, heard⟩ := recorded.step
  have here : r.before = ending (machine K) w₀ before := here
  obtain ⟨-, closed, opened⟩ := heard.done revoked
  rcases List.mem_append.mp there with early | late
  · obtain ⟨e', there', same, opens'⟩ := opened tokenHash given u early used
    rw [once e' (List.mem_append_left _ there') (same.trans thread)] at opens'
    cases opens'
  · obtain ⟨at_, consumed, row, live⟩ := usesUp_iff.mp used
    have late : u ∈ mid := by
      refine (List.mem_cons.mp late).resolve_left ?_
      rintro rfl
      rw [revokes, consumed] at revoked
      cases revoked
    obtain ⟨first, rest, rfl⟩ := List.append_of_mem late
    have recorded : Pool.Recorded (system K) w₀ (SignInsOver K userId)
        ((before ++ r :: first) ++ u :: (rest ++ e :: after)) c := by simpa using recorded
    obtain ⟨here', heard'⟩ := recorded.step
    have here' : u.before = ending (machine K) w₀ (before ++ r :: first) := here'
    have past := heard'.later tokenHash at_ consumed before r first rfl revoked given
    obtain ⟨stored, unused, unexpired⟩ := MfaStore.live_eq_some.mp live
    obtain ⟨c', recorded⟩ := recorded.of_append
    obtain ⟨c'', earlier⟩ := recorded.of_append
    obtain ⟨d, drawn, rfl⟩ := issued_drawn earlier given
    rw [here'] at stored
    obtain ⟨row₀, stored₀, unused₀, same⟩ := challenge_since collisionFree recorded drawn stored unused
    have expired := closed _ given row₀ (here ▸ stored₀) unused₀
    rw [same] at expired
    exact absurd unexpired (not_lt.mpr (expired.trans past))

/-- No session is opened on a check against a hash before the reset. -/
theorem not_opened (collisionFree : Function.Injective K.prims.hashToken) {r : Deed}
    (recorded : Pool.Recorded (system K) w₀ (SignInsOver K userId) (before ++ r :: mid ++ e :: after) c)
    (revoked : revokes userId r = true) :
    opensOn K userId (beforeWrite userId r.thread before) (before ++ r :: mid ++ e :: after) e = false := by
  have whole : before ++ r :: mid ++ e :: after = before ++ (r :: mid ++ e :: after) := by simp
  have sub : ∀ e' ∈ beforeWrite userId r.thread before, e' ∈ before := fun _ => beforeWrite_subset
  have recorded' := recorded
  rw [whole, List.cons_append] at recorded'
  obtain ⟨-, heard⟩ := recorded'.step
  have settled := (heard.done revoked).settled
  by_contra opens
  rw [Bool.not_eq_false, opensOn, Bool.and_eq_true, Bool.or_eq_true] at opens
  obtain ⟨opens, strength⟩ := opens
  rcases strength with signsIn | through
  · have refused := not_admitted recorded' sub settled (by simp) signsIn
    rw [opensSession_admits opens] at refused
    cases refused
  · obtain ⟨tokenHash, given, through⟩ := List.any_eq_true.mp through
    rw [whole] at given
    have given := issued_before recorded' sub settled given
    rw [not_opened_through collisionFree recorded revoked given] at through
    cases through

/-! ### Sessions -/

/-- A refresh spends a session that it found, of a user that it found. -/
def RefreshAsks (h : List (Event ports)) (op : Call) : Prop :=
  ∀ request session user context at_, op = .rotateSession request session user context at_ →
    (∃ tokenHash, ⟨.findSessionByTokenHash tokenHash, some session⟩ ∈ h) ∧
      ⟨.findUserById session.userId, some user⟩ ∈ h

theorem refreshAsks_of_all {α : Type} {m : Service α} (all : Calls (fun c => ¬c.IsRotate) m) :
    Task.Always (I := ports) RefreshAsks m := by
  refine Task.Always.of_all all fun _ op other => ?_
  rintro request session user context at_ rfl
  exact absurd trivial other

theorem refresh_asks (n refreshToken : Nat) (context : RequestContext) :
    Task.Always (I := ports) RefreshAsks (refresh K n refreshToken context) := by
  have plainly : Plainly fun c => ¬c.IsRotate := by
    intro c plain
    cases c <;> first | exact id | cases plain
  have reused (familyId userId : Nat) (now : Date) : Task.Always (I := ports) RefreshAsks (do
      revokeReused familyId userId now context
      throw sessionInvalid : Service AuthResult) :=
    refreshAsks_of_all (Task.all_bind (revokeReused_plain plainly ..) fun _ => Task.all_throw _)
  have other {c : Call} (plain : ¬c.IsRotate) (h : List (Event ports)) : RefreshAsks h c := by
    rintro request session user context at_ rfl
    exact absurd trivial plain
  constructor
  intro h
  unfold refresh
  refine call_bind_asks.mpr ⟨other id _, fun now => call_bind_asks.mpr ⟨other id _, fun found => ?_⟩⟩
  split
  · exact (reused ..).asks _
  · rename_i session live
    obtain ⟨rfl, -⟩ := evaluateRefresh_ok.mp live
    refine call_bind_asks.mpr ⟨other id _, fun owner => ?_⟩
    split
    · exact (refreshAsks_of_all (Task.all_bind ((Task.all_call (I := ports) _).mpr id)
        fun _ => Task.all_throw _)).asks _
    · rename_i user active
      obtain ⟨rfl, -⟩ := Option.filter_eq_some_iff.mp active
      refine call_bind_asks.mpr ⟨?_, fun rotated => ?_⟩
      · intro request session' user' context' at_ same
        obtain ⟨-, rfl, rfl, -, -⟩ := Call.rotateSession.inj same
        exact ⟨⟨K.prims.hashToken refreshToken, by simp⟩, by simp⟩
      · cases rotated with
        | none =>
          refine call_bind_asks.mpr ⟨other id _, fun current => ?_⟩
          split
          · exact (reused ..).asks _
          · trivial
        | some tokens =>
          exact (refreshAsks_of_all (Task.all_bind (record_plain plainly ..) fun _ => Task.all_pure _)).asks _
  · trivial

/-- Where the session that a call leaves comes from. -/
theorem sessions_from (call : Call) (env : Env) {w : World} (keyed : w.sessions.Keyed) {k : Nat} {s : Session}
    (there : (perform K call env w).2.sessions.get? k = some s) :
    (∃ s₀, w.sessions.get? k = some s₀ ∧ Continues s₀ s) ∨
    (∃ request user context, call = .createSession request user context ∧ s.userId = user.id) ∨
    ∃ request session user context at_, call = .rotateSession request session user context at_ ∧
      s.userId = user.id ∧ ∃ current, w.sessions.get? session.id = some current ∧ current.revokedAt = none := by
  have kept {s : Session} (there : w.sessions.get? k = some s) :
      ∃ s₀, w.sessions.get? k = some s₀ ∧ Continues s₀ s := ⟨s, there, .refl s⟩
  have closed {p : Session → Bool} (reason : RevokedReason) (at_ : Date)
      (there : (w.sessions.get? k).map (fun s =>
        if p s && s.revokedAt.isNone then SessionStore.revoked s reason at_ else s) = some s) :
      ∃ s₀, w.sessions.get? k = some s₀ ∧ Continues s₀ s := by
    obtain ⟨s₀, stored, rfl⟩ := Option.map_eq_some_iff.mp there
    refine ⟨s₀, stored, ?_⟩
    split
    · rename_i hit
      rw [Bool.and_eq_true, Option.isNone_iff_eq_none] at hit
      exact .inr ⟨hit.2, reason, at_, rfl⟩
    · exact .refl s₀
  cases call with
  | createSession request user context =>
    have there : (w.sessions.create (buildSession K.prims w.supply user none context env.now).1).get? k =
        some s := there
    rw [SessionStore.get?_create] at there
    split at there
    · obtain rfl := Option.some.inj there
      exact .inr (.inl ⟨request, user, context, rfl, rfl⟩)
    · exact .inl (kept there)
  | rotateSession request session user context at_ =>
    rcases rotateSession_step K w request session user context at_ env.now with
      ⟨-, n, same⟩ | ⟨sessions, rotated, same⟩
    · simp only [perform, same] at there
      exact .inl (kept there)
    · simp only [perform, same] at there
      obtain ⟨current, stored, live, rows⟩ := SessionStore.rotate_some rotated
      rw [rows] at there
      split at there
      · obtain rfl := Option.some.inj there
        exact .inr (.inr ⟨request, session, user, context, at_, rfl, rfl, current, stored, live⟩)
      · split at there
        · rename_i here
          obtain rfl := Option.some.inj there
          exact .inl ⟨current, here ▸ stored, .inr ⟨live, _, _, rfl⟩⟩
        · exact .inl (kept there)
  | revokeSession sessionId reason at_ =>
    exact .inl (closed reason at_ (SessionStore.get?_revoke keyed sessionId reason at_ k ▸ there))
  | revokeFamily familyId reason at_ =>
    exact .inl (closed reason at_ (SessionStore.get?_revokeWhere keyed _ reason at_ k ▸ there))
  | revokeAllForUser userId reason at_ =>
    exact .inl (closed reason at_ (SessionStore.get?_revokeWhere keyed _ reason at_ k ▸ there))
  | _ =>
    refine .inl (kept ?_)
    first
    | exact there
    | simp only [perform, World.createRegistration] at there
      split at there <;> exact there

/-- Along a run the families of sessions are kept, and the sessions continue. -/
theorem evolves_since (collisionFree : Function.Injective K.prims.hashToken)
    (recorded : Pool.Recorded (system K) .empty cond (before ++ after) c) :
    FamilyInv K.prims (ending (machine K) .empty before) ∧
      Evolves (ending (machine K) .empty before) (ending (machine K) .empty (before ++ after)) := by
  obtain ⟨c', earlier, run⟩ := recorded.resume
  have serves := system_serves (fun _ _ _ => True) collisionFree World.empty
  obtain ⟨sound, evolved⟩ :=
    (Pool.Sound.idle (FamilyInv.empty K.prims)).run serves (Contract.refl _ _) earlier.toRun
  have state : c'.state = ending (machine K) .empty before := earlier.state
  have state' : c.state = ending (machine K) .empty (before ++ after) := recorded.state
  rw [← state, ← state']
  exact ⟨sound.inv, (sound.run serves evolved run).2.1⟩

theorem users_drawn (recorded : Pool.Recorded (system K) .empty cond log c) :
    (ending (machine K) .empty log).users.Drawn (ending (machine K) .empty log).supply := by
  refine recorded.induct (P := fun log =>
    (ending (machine K) .empty log).users.Drawn (ending (machine K) .empty log).supply) ?_ ?_
  · intro k user stored
    cases stored
  · intro log e _ _ here _ drawn
    have here : e.before = ending (machine K) .empty log := here
    rw [ending_snoc]
    exact perform_users_drawn (here ▸ drawn)

/-- The session that is spent is one of the user who gets the next one. -/
theorem rotated_owner (collisionFree : Function.Injective K.prims.hashToken)
    (recorded : Pool.Recorded (system K) .empty cond (before ++ e :: after) c) {request : Nat}
    {session : Session} {user : User} {context : RequestContext} {at_ : Date}
    (rotates : e.op = .rotateSession request session user context at_) {current : Session}
    (stored : e.before.sessions.get? session.id = some current) : current.userId = user.id := by
  have made : e.req.makes e.op = true := deed_made recorded (by rw [rotates]; rfl)
  have asks : Task.Asks (I := ports) RefreshAsks (fun _ _ => True) (fun _ _ => True) []
      (handle K e.thread e.req) := by
    cases req : e.req with
    | refresh refreshToken context => exact Task.asks_map.mpr ((refresh_asks _ refreshToken context).asks [])
    | _ =>
      rw [req, rotates] at made
      cases made
  obtain ⟨⟨tokenHash, looked⟩, owner⟩ := recorded.asks asks request session user context at_ rotates
  obtain ⟨here, -⟩ := recorded.step
  have here : e.before = ending (machine K) .empty before := here
  obtain ⟨c', sofar⟩ := recorded.of_append
  obtain ⟨f, there, -, found⟩ := mem_own.mp looked
  obtain ⟨u, there', -, identified⟩ := mem_own.mp owner
  have kept : current.userId = session.userId := by
    obtain ⟨first, rest, rfl⟩ := List.append_of_mem there
    obtain ⟨inv, evolves⟩ := evolves_since collisionFree sofar
    obtain ⟨from_, -⟩ := sofar.step
    have from_ : f.before = ending (machine K) .empty first := from_
    obtain ⟨-, replied⟩ := Entry.of_event found
    have replied : f.before.sessions.findByTokenHash tokenHash = some session := replied
    obtain ⟨-, k, listed⟩ := SessionStore.findByTokenHash_some replied
    rw [from_] at listed
    obtain ⟨s', stored', continues⟩ := evolves.sessions k session listed
    obtain rfl : session.id = k := inv.keyed k session listed
    rw [← here, stored] at stored'
    obtain rfl := Option.some.inj stored'
    exact continues.userId
  have named : user.id = session.userId := by
    obtain ⟨first, rest, rfl⟩ := List.append_of_mem there'
    obtain ⟨c'', earlier⟩ := sofar.of_append
    obtain ⟨from_, -⟩ := sofar.step
    have from_ : u.before = ending (machine K) .empty first := from_
    obtain ⟨-, replied⟩ := Entry.of_event identified
    have replied : u.before.users.findById session.userId = some user := replied
    exact (users_drawn earlier _ user (from_ ▸ UserStore.findById_some replied)).1
  rw [kept, named]

/-- Every session of the user is revoked. -/
def AllRevoked (userId : Nat) (w : World) : Prop :=
  ∀ k s, w.sessions.get? k = some s → s.userId = userId → s.revokedAt.isSome = true

theorem AllRevoked.step (collisionFree : Function.Injective K.prims.hashToken)
    (recorded : Pool.Recorded (system K) .empty cond (before ++ e :: after) c)
    (all : AllRevoked userId e.before) (quiet : opensFor userId e = false) :
    AllRevoked userId (e.after (machine K)) := by
  intro k s there mine
  obtain ⟨here, -⟩ := recorded.step
  have here : e.before = ending (machine K) .empty before := here
  have keyed : e.before.sessions.Keyed := here ▸ (evolves_since collisionFree recorded).1.keyed
  rcases sessions_from e.op e.input keyed there with ⟨s₀, stored, continues⟩ |
    ⟨request, user, context, opens, owner⟩ |
    ⟨request, session, user, context, at_, rotates, owner, current, stored, live⟩
  · have revoked := all k s₀ stored (continues.userId.symm.trans mine)
    rwa [continues.eq_of_revoked revoked]
  · rw [opensFor, opens, ← mine, owner] at quiet
    simp at quiet
  · have revoked := all _ current stored
      ((rotated_owner collisionFree recorded rotates stored).trans (owner.symm.trans mine))
    rw [live] at revoked
    cases revoked

theorem AllRevoked.since (collisionFree : Function.Injective K.prims.hashToken)
    (recorded : Pool.Recorded (system K) .empty cond (before ++ after) c)
    (all : AllRevoked userId (ending (machine K) .empty before))
    (quiet : ∀ e ∈ after, opensFor userId e = false) :
    AllRevoked userId (ending (machine K) .empty (before ++ after)) := by
  refine recorded.since (P := fun mid => AllRevoked userId (ending (machine K) .empty (before ++ mid))) ?_ ?_
  · rwa [List.append_nil]
  · rintro mid e rest rfl here - sofar
    have here : e.before = ending (machine K) .empty (before ++ mid) := here
    rw [← List.append_assoc, ending_snoc]
    rw [← List.append_assoc] at recorded
    exact AllRevoked.step collisionFree recorded (here ▸ sofar) (quiet e (by simp))

theorem revokes_all (collisionFree : Function.Injective K.prims.hashToken) {r : Deed}
    (recorded : Pool.Recorded (system K) .empty cond (before ++ r :: after) c)
    (revoked : revokes userId r = true) : AllRevoked userId (r.after (machine K)) := by
  obtain ⟨here, -⟩ := recorded.step
  have here : r.before = ending (machine K) .empty before := here
  have keyed : r.before.sessions.Keyed := here ▸ (evolves_since collisionFree recorded).1.keyed
  intro k s there mine
  obtain ⟨thread, req, op, input, state⟩ := r
  cases op with
  | revokeAllForUser id reason at_ =>
    simp only [revokes, Bool.and_eq_true, beq_iff_eq] at revoked
    have there := (SessionStore.get?_revokeWhere keyed (fun session => session.userId == id) reason at_ k) ▸
      there
    obtain ⟨s₀, stored, rfl⟩ := Option.map_eq_some_iff.mp there
    split at mine
    · rename_i hit
      rw [if_pos hit]
      rfl
    · rename_i missed
      rw [if_neg missed]
      by_contra live
      refine missed ?_
      rw [revoked.2, Bool.and_eq_true, beq_iff_eq, Option.isNone_iff_eq_none]
      exact ⟨mine, by simpa using live⟩
  | _ => cases revoked

/-! ### Resets -/

/-- Nobody opens a session of the user between the revocation and the end of a reset. -/
theorem not_opens_between {r d : Deed}
    (recorded : Pool.Recorded (system K) w₀ (SignInsOver K userId) (before ++ r :: mid ++ d :: after) c)
    (revoked : revokes userId r = true) (thread : r.thread = d.thread) (completed : completes userId d = true) :
    ∀ e ∈ mid, opensFor userId e = false := by
  intro e there
  by_contra opens
  obtain ⟨-, once⟩ := reset_done recorded completed
  obtain ⟨first, rest, rfl⟩ := List.append_of_mem there
  have recorded : Pool.Recorded (system K) w₀ (SignInsOver K userId)
      ((before ++ r :: first) ++ e :: (rest ++ d :: after)) c := by simpa using recorded
  obtain ⟨-, heard⟩ := recorded.step
  obtain ⟨d', there', thread', completed'⟩ :=
    heard.apart (Bool.eq_true_of_not_eq_false opens) r (by simp) revoked
  have open_ := once d' (by
    rcases List.mem_append.mp there' with early | late
    · simp [early]
    · rcases List.mem_cons.mp late with rfl | late <;> simp [*]) (thread'.trans thread)
  rw [completed'] at open_
  cases open_

theorem reset_cuts_off (collisionFree : Function.Injective K.prims.hashToken)
    (recorded : Pool.Recorded (system K) .empty (SignInsOver K userId) log c) : ResetCutsOff K userId log where
  unissued := by
    rintro sofar d after rfl completed e there
    obtain ⟨⟨before, r, mid, rfl, thread, revoked, wrote⟩, -⟩ := reset_done recorded completed
    obtain ⟨first, rest, rfl⟩ := List.append_of_mem there
    rw [beforeWrite_append wrote, ← thread]
    have whole : before ++ r :: mid ++ d :: (first ++ e :: rest) =
        before ++ r :: (mid ++ d :: first) ++ e :: rest := by simp
    rw [whole] at recorded ⊢
    exact not_opened collisionFree recorded revoked
  inactive := by
    rintro sofar d after rfl completed k s there mine
    obtain ⟨⟨before, r, mid, rfl, thread, revoked, -⟩, -⟩ := reset_done recorded completed
    have quiet := not_opens_between recorded revoked thread completed
    have all : AllRevoked userId (d.after (machine K)) := by
      have recorded : Pool.Recorded (system K) .empty (SignInsOver K userId)
          ((before ++ r :: (mid ++ [d])) ++ after) c := by simpa using recorded
      obtain ⟨c', recorded⟩ := recorded.of_append
      have first : AllRevoked userId (ending (machine K) .empty (before ++ [r])) := by
        rw [ending_snoc]
        exact revokes_all collisionFree recorded revoked
      rw [List.append_cons] at recorded
      have last := AllRevoked.since collisionFree recorded first (by
        intro e there
        rcases List.mem_append.mp there with earlier | now
        · exact quiet e earlier
        · obtain rfl := List.mem_singleton.mp now
          obtain ⟨-, _, _, _, done⟩ := completes_iff.mp completed
          rw [opensFor, done])
      rw [← List.append_assoc, ending_snoc] at last
      exact last
    rw [List.append_cons] at recorded ⊢
    obtain ⟨-, evolves⟩ := evolves_since collisionFree recorded
    rw [ending_snoc] at evolves
    obtain ⟨s', there', continues⟩ := evolves.sessions k s there
    refine ⟨s', there', ?_⟩
    rw [continues.eq_of_revoked (all k s there mine)]
    exact all k s there mine

/-! ### A challenge that outlives a reset -/

/-- Sam's password is reset, with the link that was mailed under this token. -/
def reset (first token : Nat) : List (Pool.Move Env Request) :=
  .start (.requestPasswordReset "sam@example.com" phone) :: List.replicate 4 (.run first noon) ++
    .start (.confirmPasswordReset token "another horse battery" phone) ::
      List.replicate 8 (.run (first + 1) noon)

/-- The old password got a challenge, and its code comes after the reset. -/
def answeredLate : Pool.Course ports Env World Request (Except AuthError Response) :=
  Pool.course (system sampleConfig) .empty
    (challenged ++ reset 4 26 ++
      (.start (.verifyMfaChallenge 24 "123456" phone) :: List.replicate 9 (.run 6 noon)))

theorem challenge_outlives_reset :
    ∃ log c, Pool.Recorded (system sampleConfig) .empty (fun _ _ => True) log c ∧
      ¬ResetCutsOff sampleConfig 1 log := by
  refine ⟨answeredLate.1, answeredLate.2, Pool.course_recorded _ _ _, fun cutsOff => ?_⟩
  have there : ((answeredLate.1[34]?).any fun d => d.thread == 5 && completes 1 d) = true := by decide +kernel
  have opened : ((answeredLate.1.drop 35).any fun e => opensOn sampleConfig 1
      (beforeWrite 1 5 (answeredLate.1.take 34)) answeredLate.1 e) = true := by decide +kernel
  obtain ⟨d, found, done⟩ := (Option.any_eq_true _ _).mp there
  rw [Bool.and_eq_true, beq_iff_eq] at done
  obtain ⟨e, late, opens⟩ := List.any_eq_true.mp opened
  have split : answeredLate.1 = answeredLate.1.take 34 ++ d :: answeredLate.1.drop 35 := by
    obtain ⟨inside, rfl⟩ := List.getElem?_eq_some_iff.mp found
    simp
  have nobody := cutsOff.unissued _ d _ split done.2 e late
  rw [done.1, opens] at nobody
  cases nobody

/-! ### A reset after the sign-ins -/

/-- Whether the sign-ins before a reset are over, in a run without second factors. -/
def SignInsOver.check (K : Config) (userId : Nat) (log : List Deed) (e : Deed) : Bool :=
  let checked := beforeWrite userId e.thread log
  (!revokes userId e ||
    checked.all (fun e' => !checks K userId e' ||
      log.any fun e'' => e''.thread == e'.thread && settles (e''.event (machine K))) &&
      (issued K userId checked log).isEmpty) &&
  (match e.op with | .consumeChallenge .. => false | _ => true) &&
  (!opensFor userId e || log.all fun r => !revokes userId r ||
    log.any fun d => d.thread == r.thread && completes userId d)

theorem SignInsOver.of_check {K : Config} {log : List Deed} {e : Deed}
    (checked : SignInsOver.check K userId log e = true) : SignInsOver K userId log e := by
  simp only [SignInsOver.check, Bool.and_eq_true] at checked
  obtain ⟨⟨done, unused⟩, apart⟩ := checked
  constructor
  · intro revoked
    rw [revoked, Bool.not_true, Bool.false_or, Bool.and_eq_true, List.isEmpty_iff] at done
    obtain ⟨settled, nothing⟩ := done
    refine ⟨fun e' there checks_ => ?_, by simp [nothing], by simp [nothing]⟩
    have came := List.all_eq_true.mp settled e' there
    rw [checks_, Bool.not_true, Bool.false_or, List.any_eq_true] at came
    simpa using came
  · intro tokenHash at_ consumes
    rw [consumes] at unused
    cases unused
  · intro opens r there revoked
    rw [opens, Bool.not_true, Bool.false_or] at apart
    have done := List.all_eq_true.mp apart r there
    rw [revoked, Bool.not_true, Bool.false_or, List.any_eq_true] at done
    simpa using done

/-- Sam signs in, resets the password, and signs in with the new one. -/
def resetBetween : Pool.Course ports Env World Request (Except AuthError Response) :=
  Pool.courseUnder (system sampleConfig) (SignInsOver.check sampleConfig 1) .empty
    (signsUp ++
      (.start (.login "sam@example.com" "correct horse battery" phone) :: List.replicate 6 (.run 1 noon)) ++
      reset 2 14 ++
      (.start (.login "sam@example.com" "another horse battery" phone) :: List.replicate 6 (.run 4 noon)))

theorem reset_cuts_off_between :
    resetBetween.1.length = 32 ∧ resetBetween.1.any (completes 1) = true ∧
      ResetCutsOff sampleConfig 1 resetBetween.1 :=
  ⟨by decide +kernel, by decide +kernel, reset_cuts_off Function.injective_id
    ((Pool.courseUnder_recorded _ _ _ _).mono fun _ _ => SignInsOver.of_check)⟩

/-! ### Mailed links -/

/-- The link that the request presents. -/
def Request.link : Request → Option (AuthActionKind × Nat)
  | .confirmEmailVerification token _ => some (.verifyEmail, token)
  | .confirmPasswordReset token _ _ => some (.resetPassword, token)
  | _ => none

def AuthActionKind.lifetime : AuthActionKind → Int
  | .verifyEmail => 24 * 60 * 60 * 1000
  | .resetPassword => 60 * 60 * 1000

/-- A link of the kind is drawn for the user. -/
def DrawsLink (K : Config) (userId : Nat) (kind : AuthActionKind) (token : Nat) (e : Deed) : Prop :=
  e.event (machine K) = ⟨.issueAction userId kind, token⟩

/-- The link of the user is taken, at the time that is given. -/
def TakesLink (K : Config) (userId : Nat) (kind : AuthActionKind) (token : Nat) (at_ : Date) (e : Deed) : Prop :=
  e.event (machine K) = ⟨.consumeAction kind (K.prims.hashToken token) at_, some userId⟩

/-- The row is that of a link that was drawn for the user after any other of the kind, and is not taken. -/
structure Mailed (K : Config) (log : List Deed) (row : ActionRow) (i : Deed) (after : List Deed) (token : Nat) : Prop where
  split : ∃ before, log = before ++ i :: after
  drawn : DrawsLink K row.userId row.kind token i
  tokenHash : row.tokenHash = K.prims.hashToken token
  expiresAt : row.expiresAt = i.input.now + row.kind.lifetime
  latest : ∀ d ∈ after, ∀ token', ¬DrawsLink K row.userId row.kind token' d
  untaken : ∀ d ∈ log, ∀ userId at_, ¬TakesLink K userId row.kind token at_ d

/-- The rows have hashes of their own, of tokens that were drawn, and those that are unused are of links
that may still be taken. -/
structure LinkInv (K : Config) (log : List Deed) (w : World) : Prop where
  drawn : ∀ row ∈ w.actions, ∃ token < w.supply, row.tokenHash = K.prims.hashToken token
  taken : ∀ d ∈ log, ∀ userId kind token at_, TakesLink K userId kind token at_ d → token < w.supply
  unique : (w.actions.map ActionRow.tokenHash).Nodup
  mailed : ∀ row ∈ w.actions, row.usedAt = none → ∃ i after token, Mailed K log row i after token

/-- The first row that may be taken is marked, and nothing else. -/
theorem consumeAction_some {kind : AuthActionKind} {tokenHash : Nat} {at_ : Date} {rows rows' : List ActionRow}
    (took : consumeAction kind tokenHash at_ rows = some (userId, rows')) :
    ∃ first row rest, rows = first ++ row :: rest ∧ rows' = first ++ { row with usedAt := some at_ } :: rest ∧
      row.userId = userId ∧ row.kind = kind ∧ row.tokenHash = tokenHash ∧ row.usedAt = none ∧ row.expiresAt > at_ := by
  induction rows generalizing rows' with
  | nil => cases took
  | cons row rows ih =>
    rw [consumeAction] at took
    by_cases hit : row.kind = kind ∧ row.tokenHash = tokenHash ∧ row.usedAt = none ∧ row.expiresAt > at_
    · rw [if_pos hit] at took
      obtain ⟨rfl, rfl⟩ := Prod.mk.inj (Option.some.inj took)
      exact ⟨[], row, rows, rfl, rfl, rfl, hit.1, hit.2.1, hit.2.2.1, hit.2.2.2⟩
    · rw [if_neg hit] at took
      obtain ⟨⟨owner, rows₁⟩, took', same⟩ := Option.map_eq_some_iff.mp took
      obtain ⟨rfl, rfl⟩ := Prod.mk.inj same
      obtain ⟨first, found, rest, rfl, rfl, facts⟩ := ih took'
      exact ⟨row :: first, found, rest, rfl, rfl, facts⟩

/-- Links are drawn and taken by these two calls only. -/
theorem perform_actions {call : Call} {env : Env} {w : World}
    (notDrawn : ∀ userId kind, call ≠ .issueAction userId kind)
    (notTaken : ∀ kind tokenHash at_, call ≠ .consumeAction kind tokenHash at_) :
    (perform K call env w).2.actions = w.actions := by
  cases call with
  | issueAction userId kind => exact absurd rfl (notDrawn userId kind)
  | consumeAction kind tokenHash at_ => exact absurd rfl (notTaken kind tokenHash at_)
  | createRegistration =>
    simp only [perform, World.createRegistration]
    split <;> rfl
  | rotateSession =>
    simp only [perform, World.rotateSession]
    split <;> rfl
  | getMfaForLogin =>
    simp only [perform]
    split <;> rfl
  | _ =>
    first
    | rfl
    | simp only [perform]
      split <;> rfl

theorem Mailed.snoc {row : ActionRow} {i : Deed} {token : Nat} (mailed : Mailed K log row i after token)
    (other : ∀ token', ¬DrawsLink K row.userId row.kind token' e)
    (untaken : ∀ userId at_, ¬TakesLink K userId row.kind token at_ e) :
    Mailed K (log ++ [e]) row i (after ++ [e]) token where
  split := by
    obtain ⟨before, rfl⟩ := mailed.split
    exact ⟨before, by simp⟩
  drawn := mailed.drawn
  tokenHash := mailed.tokenHash
  expiresAt := mailed.expiresAt
  latest d there := by
    rcases List.mem_append.mp there with there | here
    · exact mailed.latest d there
    · obtain rfl := List.mem_singleton.mp here
      exact other
  untaken d there := by
    rcases List.mem_append.mp there with there | here
    · exact mailed.untaken d there
    · obtain rfl := List.mem_singleton.mp here
      exact untaken

theorem DrawsLink.op {kind : AuthActionKind} {token : Nat} (draws : DrawsLink K userId kind token e) :
    e.op = .issueAction userId kind := (Entry.of_event draws).1

theorem TakesLink.op {kind : AuthActionKind} {token : Nat} {at_ : Date} (takes : TakesLink K userId kind token at_ e) :
    e.op = .consumeAction kind (K.prims.hashToken token) at_ := (Entry.of_event takes).1

/-- A call that does not take a link keeps what is known of those that were taken. -/
theorem LinkInv.taken_snoc {w w' : World} (inv : LinkInv K log w) (grows : w.supply ≤ w'.supply)
    (now : ∀ userId kind token at_, TakesLink K userId kind token at_ e → token < w'.supply) :
    ∀ d ∈ log ++ [e], ∀ userId kind token at_, TakesLink K userId kind token at_ d → token < w'.supply := by
  intro d there owner kind token at_ takes
  rcases List.mem_append.mp there with there | here
  · exact Nat.lt_of_lt_of_le (inv.taken d there owner kind token at_ takes) grows
  · obtain rfl := List.mem_singleton.mp here
    exact now owner kind token at_ takes

theorem LinkInv.drawing {userId : Nat} {kind : AuthActionKind} (collisionFree : Function.Injective K.prims.hashToken)
    (inv : LinkInv K log e.before) (op : e.op = .issueAction userId kind) :
    LinkInv K (log ++ [e]) (e.after (machine K)) := by
  obtain ⟨thread, req, call, input, w⟩ := e
  obtain rfl : call = .issueAction userId kind := op
  have inv : LinkInv K log w := inv
  have untaken {owner kind' token at_} (takes : TakesLink K owner kind' token at_
      ⟨thread, req, .issueAction userId kind, input, w⟩) : False := by
    cases takes.op
  have fresh : K.prims.hashToken w.supply ∉ w.actions.map ActionRow.tokenHash := by
    intro known
    obtain ⟨row, listed, same⟩ := List.mem_map.mp known
    obtain ⟨token, earlier, tokenHash⟩ := inv.drawn row listed
    have := collisionFree (same.symm.trans tokenHash)
    omega
  have hashes : ∀ row : ActionRow, (if row.userId = userId ∧ row.kind = kind ∧ row.usedAt = none then
      { row with usedAt := some input.now } else row).tokenHash = row.tokenHash := by
    intro row
    split <;> rfl
  constructor
  · intro row listed
    change ∃ token < w.supply + 1, _
    rcases List.mem_append.mp listed with listed | new
    · obtain ⟨old, stored, rfl⟩ := List.mem_map.mp listed
      obtain ⟨token, earlier, tokenHash⟩ := inv.drawn old stored
      exact ⟨token, by omega, by rw [hashes, tokenHash]⟩
    · obtain rfl := List.mem_singleton.mp new
      exact ⟨w.supply, by omega, rfl⟩
  · exact inv.taken_snoc (Nat.le_succ _) fun _ _ _ _ takes => (untaken takes).elim
  · change ((w.actions.map _ ++ [_]).map ActionRow.tokenHash).Nodup
    have same : (w.actions.map fun row => if row.userId = userId ∧ row.kind = kind ∧ row.usedAt = none then
        { row with usedAt := some input.now } else row).map ActionRow.tokenHash =
          w.actions.map ActionRow.tokenHash := by
      rw [List.map_map]
      exact List.map_congr_left fun row _ => hashes row
    rw [List.map_append, same, List.nodup_append]
    refine ⟨inv.unique, List.nodup_singleton _, ?_⟩
    rintro known listed _ new rfl
    obtain rfl := List.mem_singleton.mp new
    exact fresh listed
  · intro row listed unused
    rcases List.mem_append.mp listed with listed | new
    · obtain ⟨old, stored, rfl⟩ := List.mem_map.mp listed
      by_cases hit : old.userId = userId ∧ old.kind = kind ∧ old.usedAt = none
      · rw [if_pos hit] at unused
        cases unused
      · rw [if_neg hit] at unused ⊢
        obtain ⟨i, after, token, mailed⟩ := inv.mailed old stored unused
        refine ⟨i, _, token, mailed.snoc (fun token' draws => hit ?_) fun _ _ takes => untaken takes⟩
        obtain ⟨rfl, rfl⟩ := Call.issueAction.inj draws.op
        exact ⟨rfl, rfl, unused⟩
    · obtain rfl := List.mem_singleton.mp new
      refine ⟨_, [], w.supply, ⟨log, rfl⟩, rfl, rfl, ?_, by simp, ?_⟩
      · cases kind <;> rfl
      · intro d there owner at_ takes
        rcases List.mem_append.mp there with there | here
        · have := inv.taken d there owner kind w.supply at_ takes
          omega
        · obtain rfl := List.mem_singleton.mp here
          exact untaken takes

theorem TakesLink.took {kind : AuthActionKind} {token : Nat} {at_ : Date} (takes : TakesLink K userId kind token at_ e) :
    ∃ rows, consumeAction kind (K.prims.hashToken token) at_ e.before.actions = some (userId, rows) := by
  have reply := (Entry.of_event takes).2
  change (perform K (.consumeAction kind (K.prims.hashToken token) at_) e.input e.before).1 = some userId at reply
  rw [perform] at reply
  split at reply
  · rename_i owner rows took
    obtain rfl := Option.some.inj reply
    exact ⟨rows, took⟩
  · cases reply

/-- A taken link leaves the other rows, which have other hashes. -/
theorem LinkInv.taking {kind : AuthActionKind} {tokenHash : Nat} {at_ : Date}
    (collisionFree : Function.Injective K.prims.hashToken)
    (inv : LinkInv K log e.before) (op : e.op = .consumeAction kind tokenHash at_) :
    LinkInv K (log ++ [e]) (e.after (machine K)) := by
  have undrawn {owner kind' token} (draws : DrawsLink K owner kind' token e) : False := by
    rw [draws.op] at op
    cases op
  have same {owner kind' token at'} (takes : TakesLink K owner kind' token at' e) :
      kind' = kind ∧ K.prims.hashToken token = tokenHash ∧ at' = at_ := by
    rw [takes.op] at op
    obtain ⟨rfl, rfl, rfl⟩ := Call.consumeAction.inj op
    exact ⟨rfl, rfl, rfl⟩
  have state : e.after (machine K) = (perform K (.consumeAction kind tokenHash at_) e.input e.before).2 := by
    rw [Entry.after, op]
    rfl
  rw [state, perform]
  cases took : consumeAction kind tokenHash at_ e.before.actions with
  | none =>
    have untaken {owner kind' token at'} (takes : TakesLink K owner kind' token at' e) : False := by
      obtain ⟨rows, took'⟩ := takes.took
      obtain ⟨rfl, rfl, rfl⟩ := same takes
      rw [took] at took'
      cases took'
    refine ⟨inv.drawn, inv.taken_snoc (Nat.le_refl _) fun _ _ _ _ takes => (untaken takes).elim, inv.unique, ?_⟩
    intro row listed unused
    obtain ⟨i, after, token, mailed⟩ := inv.mailed row listed unused
    exact ⟨i, _, token, mailed.snoc (fun _ draws => undrawn draws) fun _ _ takes => untaken takes⟩
  | some found =>
    obtain ⟨owner, rows⟩ := found
    obtain ⟨first, row, rest, stored, rfl, rfl, rfl, rfl, -, -⟩ := consumeAction_some took
    have hashes : (first ++ { row with usedAt := some at_ } :: rest).map ActionRow.tokenHash =
        e.before.actions.map ActionRow.tokenHash := by
      rw [stored]
      simp
    obtain ⟨drawn, earlier, tokenHash⟩ := inv.drawn row (by simp [stored])
    refine ⟨?_, inv.taken_snoc (Nat.le_refl _) ?_, ?_, ?_⟩
    · intro row' listed
      obtain ⟨old, listed, same⟩ := List.mem_map.mp (hashes ▸ List.mem_map_of_mem listed)
      rw [← same]
      exact inv.drawn old listed
    · intro owner kind token at' takes
      obtain ⟨-, hashed, -⟩ := same takes
      rwa [collisionFree (hashed.trans tokenHash)]
    · change ((first ++ { row with usedAt := some at_ } :: rest).map ActionRow.tokenHash).Nodup
      rw [hashes]
      exact inv.unique
    · intro row' listed unused
      have unique := inv.unique
      rw [stored, List.map_append, List.map_cons, List.nodup_append, List.nodup_cons] at unique
      have other : row' ∈ e.before.actions ∧ row'.tokenHash ≠ row.tokenHash := by
        rw [stored]
        rcases List.mem_append.mp listed with listed | listed
        · exact ⟨by simp [listed], unique.2.2 _ (List.mem_map_of_mem listed) _ List.mem_cons_self⟩
        · rcases List.mem_cons.mp listed with rfl | listed
          · cases unused
          · exact ⟨by simp [listed], fun same => unique.2.1.1 (same ▸ List.mem_map_of_mem listed)⟩
      obtain ⟨i, after, token, mailed⟩ := inv.mailed row' other.1 unused
      refine ⟨i, _, token, mailed.snoc (fun _ draws => undrawn draws) fun _ _ takes => other.2 ?_⟩
      rw [mailed.tokenHash, (same takes).2.1]

/-- Every call keeps it. -/
theorem LinkInv.next (collisionFree : Function.Injective K.prims.hashToken) (inv : LinkInv K log e.before) :
    LinkInv K (log ++ [e]) (e.after (machine K)) := by
  by_cases draws : ∃ userId kind, e.op = .issueAction userId kind
  · obtain ⟨userId, kind, op⟩ := draws
    exact inv.drawing collisionFree op
  · by_cases takes : ∃ kind tokenHash at_, e.op = .consumeAction kind tokenHash at_
    · obtain ⟨kind, tokenHash, at_, op⟩ := takes
      exact inv.taking collisionFree op
    · have actions : (e.after (machine K)).actions = e.before.actions :=
        perform_actions (fun userId kind op => draws ⟨userId, kind, op⟩)
          fun kind tokenHash at_ op => takes ⟨kind, tokenHash, at_, op⟩
      have supply : e.before.supply ≤ (e.after (machine K)).supply := perform_supply
      constructor
      · intro row listed
        rw [actions] at listed
        obtain ⟨token, earlier, tokenHash⟩ := inv.drawn row listed
        exact ⟨token, Nat.lt_of_lt_of_le earlier supply, tokenHash⟩
      · exact inv.taken_snoc supply fun _ _ _ _ took => absurd ⟨_, _, _, took.op⟩ takes
      · rw [actions]
        exact inv.unique
      · intro row listed unused
        rw [actions] at listed
        obtain ⟨i, after, token, mailed⟩ := inv.mailed row listed unused
        exact ⟨i, _, token, mailed.snoc (fun _ drew => draws ⟨_, _, drew.op⟩)
          fun _ _ took => takes ⟨_, _, _, took.op⟩⟩

theorem links_inv (collisionFree : Function.Injective K.prims.hashToken)
    (recorded : Pool.Recorded (system K) .empty cond log c) : LinkInv K log (ending (machine K) .empty log) := by
  refine recorded.induct (P := fun log => LinkInv K log (ending (machine K) .empty log)) ?_ ?_
  · exact ⟨by simp [World.empty], by simp, by simp [World.empty], by simp [World.empty]⟩
  · intro log e c _ here _ sofar
    have here : e.before = ending (machine K) .empty log := here
    rw [ending_snoc]
    rw [← here] at sofar
    exact sofar.next collisionFree

/-- What the link is for. -/
def Call.serves (userId : Nat) : AuthActionKind → Call → Prop
  | .verifyEmail, call => ∃ at_, call = .markEmailVerified userId at_
  | .resetPassword, call => ∃ passwordHash, call = .updatePasswordHash userId passwordHash

/-- What a request with a link has done when it succeeds. -/
def LinkServed (K : Config) (kind : AuthActionKind) (token : Nat) (h : List (Event ports)) : Prop :=
  ∃ earlier userId at_ later user, h = earlier ++ ⟨.consumeAction kind (K.prims.hashToken token) at_, some userId⟩ :: later ∧
    ⟨.findUserById userId, some user⟩ ∈ later ∧ ∃ d ∈ later, Call.serves user.id kind d.op

theorem link_asks {n : Nat} {r : Request} {kind : AuthActionKind} {token : Nat} (link : r.link = some (kind, token)) :
    Task.Asks (I := ports) (fun _ _ => True) (fun h _ => LinkServed K kind token h) (fun _ _ => True) []
      (handle K n r) := by
  cases r with
  | confirmEmailVerification token' context =>
    obtain ⟨rfl, rfl⟩ := Prod.mk.inj (Option.some.inj link)
    refine Task.asks_map.mpr ?_
    unfold confirmEmailVerification
    refine call_bind_asks.mpr ⟨trivial, fun now => call_bind_asks.mpr ⟨trivial, fun consumed => ?_⟩⟩
    cases consumed with
    | none => trivial
    | some userId =>
      refine call_bind_asks.mpr ⟨trivial, fun found => ?_⟩
      cases found with
      | none => trivial
      | some user =>
        dsimp only
        split
        · trivial
        · refine call_bind_asks.mpr ⟨trivial, fun _ => ?_⟩
          refine (call_asks (c := .record ..)).mpr ⟨trivial, fun _ => ?_⟩
          exact ⟨[⟨.now, now⟩], userId, now, _, user, rfl, List.mem_cons_self,
            ⟨.markEmailVerified user.id now, ()⟩, by simp, now, rfl⟩
  | confirmPasswordReset token' password context =>
    obtain ⟨rfl, rfl⟩ := Prod.mk.inj (Option.some.inj link)
    refine Task.asks_map.mpr ?_
    unfold confirmPasswordReset
    split
    · trivial
    · have screened : Calls (fun _ => True) (assertPasswordNotCompromised K password) :=
        Prog.all_of_forall (fun _ => trivial) _
      refine Task.Asks.all_bind screened (fun _ _ _ => trivial) (fun _ _ _ => trivial) ?_
      rintro h _ -
      refine call_bind_asks.mpr ⟨trivial, fun now => call_bind_asks.mpr ⟨trivial, fun consumed => ?_⟩⟩
      cases consumed with
      | none => trivial
      | some userId =>
        refine call_bind_asks.mpr ⟨trivial, fun found => ?_⟩
        cases found with
        | none => trivial
        | some user =>
          dsimp only
          split
          · trivial
          · refine call_bind_asks.mpr ⟨trivial, fun passwordHash => call_bind_asks.mpr ⟨trivial, fun _ =>
              call_bind_asks.mpr ⟨trivial, fun _ => ?_⟩⟩⟩
            refine (call_asks (c := .record ..)).mpr ⟨trivial, fun _ => ?_⟩
            refine ⟨h ++ [⟨.now, now⟩], userId, now, _, user, by simp; rfl, List.mem_cons_self,
              ⟨.updatePasswordHash user.id passwordHash, ()⟩, by simp, passwordHash, rfl⟩
  | _ => cases link

/-- The link that is taken was the last one of its kind, and had time left. -/
theorem taken_live (collisionFree : Function.Injective K.prims.hashToken)
    (recorded : Pool.Recorded (system K) .empty cond (log ++ e :: after) c) {kind : AuthActionKind} {token : Nat} {at_ : Date}
    (takes : TakesLink K userId kind token at_ e) :
    (∃ before i between, log = before ++ i :: between ∧ DrawsLink K userId kind token i ∧
      at_ < i.input.now + kind.lifetime ∧ ∀ d ∈ between, ∀ token', ¬DrawsLink K userId kind token' d) ∧
    ∀ d ∈ log, ∀ owner at', ¬TakesLink K owner kind token at' d := by
  obtain ⟨here, -⟩ := recorded.step
  obtain ⟨c', recorded⟩ := recorded.of_append
  have inv := links_inv collisionFree recorded
  have here : e.before = ending (machine K) .empty log := here
  obtain ⟨rows, took⟩ := takes.took
  obtain ⟨first, row, rest, stored, -, rfl, rfl, hashed, unused, later⟩ := consumeAction_some took
  obtain ⟨i, between, token', mailed⟩ := inv.mailed row (by rw [← here, stored]; simp) unused
  obtain rfl := collisionFree (hashed.symm.trans mailed.tokenHash)
  obtain ⟨before, split⟩ := mailed.split
  exact ⟨⟨before, i, between, split, mailed.drawn, mailed.expiresAt ▸ later, mailed.latest⟩, mailed.untaken⟩

/-- Sam signs up, and resets the password. -/
def resetOnce : Pool.Course ports Env World Request (Except AuthError Response) :=
  Pool.course (system sampleConfig) .empty (signsUp ++ reset 1 10)

end Finverse.Auth
