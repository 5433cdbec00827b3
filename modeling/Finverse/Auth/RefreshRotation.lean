import Finverse.Auth.Effects
import Finverse.Auth.SessionFamilies

/-! Refresh-token rotation under concurrency. -/

namespace Finverse.Auth

open Interleave

/-! ### The contract of the service towards sessions -/

def activeUser (w : World) (userId : Nat) : Prop :=
  ∃ user, w.users.findById userId = some user ∧ user.status = .active

/-- Users stay as they are, and only sessions of active users are rotated. -/
structure UsersFixed (w w' : World) : Prop where
  users : w'.users = w.users
  owner : ∀ k s s', w.sessions.get? k = some s → s.revokedAt = none →
    w'.sessions.get? k = some s' → s'.revokedAt.isSome → s'.revokedReason = some .rotated →
      activeUser w s.userId

theorem UsersFixed.of_same {w w' : World} (users : w'.users = w.users)
    (sessions : w'.sessions = w.sessions) : UsersFixed w w' := by
  refine ⟨users, ?_⟩
  intro k s s' hs hu hs' hr
  rw [sessions, hs] at hs'
  obtain rfl := Option.some.inj hs'
  simp [hu] at hr

theorem UsersFixed.trans {u v w : World} (huv : Evolves u v) (hvw : Evolves v w)
    (h : UsersFixed u v) (h' : UsersFixed v w) : UsersFixed u w := by
  refine ⟨h'.users.trans h.users, ?_⟩
  intro k s s' hs hu hs' hr hrot
  obtain ⟨t, ht, hst⟩ := huv.sessions k s hs
  cases htu : t.revokedAt with
  | none =>
    have active := h'.owner k t s' ht htu hs' hr hrot
    rw [hst.userId] at active
    simpa only [activeUser, h.users] using active
  | some at_ =>
    have revoked : t.revokedAt.isSome := by simp [htu]
    obtain ⟨t', ht', htt'⟩ := hvw.sessions k t ht
    rw [hs'] at ht'
    obtain rfl := Option.some.inj ht'
    rw [htt'.eq_of_revoked revoked] at hrot
    exact h.owner k s t hs hu ht revoked hrot

/-- With `fixed`, no request that changes users runs alongside. -/
def families (K : Config) (fixed : Prop) (cond : Call → Env → World → Prop) :
    Contract (machine K) where
  inv := FamilyInv K.prims
  evolves := fun w w' => Evolves w w' ∧ (fixed → UsersFixed w w')
  own := fun _ _ _ => True
  cond := cond
  refl := fun w => ⟨.refl w, fun _ => .of_same rfl rfl⟩
  trans := fun h h' => ⟨h.1.trans h'.1, fun hf => .trans h.1 h'.1 (h.2 hf) (h'.2 hf)⟩
  ownRefl := fun _ _ => trivial
  ownTrans := fun _ _ => trivial

instance (K : Config) (fixed : Prop) (cond : Call → Env → World → Prop) :
    Contract.Shared (families K fixed cond) :=
  ⟨fun _ _ _ => trivial⟩

/-- Calls that neither change a user nor rotate a session. -/
def Call.sessional : Call → Bool
  | .createRegistration .. | .updatePasswordHash .. | .markEmailVerified .. | .requestDeletion ..
  | .cancelDeletion .. | .rotateSession .. => false
  | .revokeSession _ reason _ | .revokeFamily _ reason _ | .revokeAllForUser _ reason _ =>
    reason != .rotated
  | _ => true

section Safe

variable {K : Config} {fixed : Prop} {cond : Call → Env → World → Prop} {n : Nat}

theorem sessional_users {call : Call} (h : call.sessional = true) (env : Env) (w : World) :
    (perform K call env w).2.users = w.users := by
  cases call with
  | createRegistration | updatePasswordHash | markEmailVerified | requestDeletion
  | cancelDeletion | rotateSession => simp [Call.sessional] at h
  | _ =>
    first
    | rfl
    | simp only [perform]
      split <;> rfl

theorem sessional_usersFixed {call : Call} (h : call.sessional = true) (env : Env) {w : World}
    (inv : FamilyInv K.prims w) : UsersFixed w (perform K call env w).2 := by
  have users := sessional_users (K := K) h env w
  rcases perform_sessionStep K call env w inv.keyed with
    ⟨sessions, -, -⟩ | ⟨user, context, now, sessions, -, -⟩ |
    ⟨request, session, user, context, at_, now, isRotate, -, -, -⟩ |
    ⟨p, reason, at_, closes, sessions, -, -⟩
  · exact .of_same users sessions
  · refine ⟨users, ?_⟩
    intro k s s' hs hu hs' hr
    let new := (buildSession K.prims w.supply user none context now).1
    have hk : ¬new.id = k := (inv.below k s hs).1.ne'
    rw [sessions, SessionStore.get?_create, if_neg hk, hs] at hs'
    obtain rfl := Option.some.inj hs'
    simp [hu] at hr
  · cases call <;> simp [Call.IsRotate, Call.sessional] at isRotate h
  · refine ⟨users, ?_⟩
    intro k s s' hs hu hs' hr hrot
    rw [sessions, hs, Option.map_some, Option.some.injEq] at hs'
    split at hs'
    · have hreason : reason = .rotated := by simpa [← hs', SessionStore.revoked] using hrot
      subst hreason
      cases call <;> simp_all [Call.Closes, Call.sessional]
    · rw [← hs'] at hr
      simp [hu] at hr

theorem safe_of_ordinary (collisionFree : Function.Injective K.prims.hashToken) {call : Call}
    (hr : ¬call.IsRotate) (hf : fixed → call.sessional = true) :
    (families K fixed cond).Safe n call := by
  intro env w inv _ _
  obtain ⟨h1, h2⟩ := inv.perform collisionFree hr env
  exact ⟨h1, Contract.guarantee_of_evolves ⟨h2, fun h => sessional_usersFixed (hf h) env inv⟩⟩

/-- A rotation decided on a snapshot, for a user that was active, keeps the contract. -/
theorem rotateSession_keeps (cond : Call → Env → World → Prop)
    (collisionFree : Function.Injective K.prims.hashToken) {w : World}
    (inv : FamilyInv K.prims w) (request : Nat) {session : Session} (user : User)
    (context : RequestContext) (at_ : Date) (env : Env) (snapshot : Snapshot w session)
    (active : fixed → activeUser w session.userId) :
    let r := perform K (.rotateSession request session user context at_) env w
    (families K fixed cond).inv r.2 ∧ (families K fixed cond).evolves w r.2 ∧
      (r.1.isSome → (request, session.tokenHash) ∈ r.2.redeemed) := by
  rcases rotateSession_step K w request session user context at_ env.now with
    ⟨hnone, n, h⟩ | ⟨sessions, hs, h⟩
  · have hw : (perform K (.rotateSession request session user context at_) env w).2 = w.draw n := h
    have hr : (perform K (.rotateSession request session user context at_) env w).1 = none := hnone
    simp only [hw, hr]
    obtain ⟨h1, h2⟩ := @FamilyInv.quiet K w (w.draw n) inv rfl rfl (Nat.le_add_right _ _)
    exact ⟨h1, ⟨h2, fun _ => .of_same rfl rfl⟩, by simp⟩
  · have hw : (perform K (.rotateSession request session user context at_) env w).2 =
        { w.draw 3 with sessions, redeemed := (request, session.tokenHash) :: w.redeemed } :=
      congrArg Prod.snd h
    simp only [hw]
    let w' : World :=
      { w.draw 3 with sessions, redeemed := (request, session.tokenHash) :: w.redeemed }
    obtain ⟨h1, h2, -⟩ : FamilyInv K.prims w' ∧ Evolves w w' ∧ _ :=
      inv.rotated collisionFree snapshot hs rfl rfl
    refine ⟨h1, ⟨h2, fun hf => ⟨rfl, ?_⟩⟩, fun _ => List.mem_cons_self⟩
    intro k s s' hk hu hk' hr _
    obtain ⟨current, hc, -, get⟩ := SessionStore.rotate_some hs
    have hks : session.id = k := by
      by_contra hne
      let new := (buildSession K.prims w.supply user (some session.familyId) context env.now).1
      have hnew : ¬new.id = k := (inv.below k s hk).1.ne'
      have same : sessions.get? k = some s := by
        rw [get, if_neg hnew, if_neg hne, hk]
      rw [same] at hk'
      obtain rfl := Option.some.inj hk'
      simp [hu] at hr
    obtain ⟨stored, hstored, hcont⟩ := snapshot
    rw [hks, hk] at hstored
    obtain rfl := Option.some.inj hstored
    rw [hcont.userId]
    exact active hf

end Safe

/-! ### What a refresh ends in -/

/-- If the token of this hash has been rotated away, its family is dead. -/
def LostRace (w : World) (tokenHash : Nat) : Prop :=
  ∀ k s, w.sessions.get? k = some s → s.tokenHash = tokenHash →
    s.revokedReason = some .rotated → Dead w s.familyId

section Refresh

variable {K : Config} {w : World} {tokenHash : Nat}

theorem LostRace.of_dead (inv : FamilyInv K.prims w) {k : Nat} {s : Session}
    (hs : w.sessions.get? k = some s) (hh : s.tokenHash = tokenHash) (dead : Dead w s.familyId) :
    LostRace w tokenHash := by
  intro j t ht hth _
  have hjk := inv.distinct j k t s ht hs (hth.trans hh.symm)
  subst hjk
  rw [hs] at ht
  obtain rfl := Option.some.inj ht
  exact dead

/-- A lookup that does not detect reuse did not find a rotated token. -/
theorem LostRace.of_not_reuse (inv : FamilyInv K.prims w) {now : Date}
    (h : ∀ familyId userId,
      evaluateRefresh (w.sessions.findByTokenHash tokenHash) now ≠ .reuseDetected familyId userId) :
    LostRace w tokenHash := by
  intro k s hs hh hrot
  exfalso
  cases hf : w.sessions.findByTokenHash tokenHash with
  | none => exact SessionStore.findByTokenHash_none hf hs hh
  | some t =>
    obtain ⟨hth, j, ht⟩ := SessionStore.findByTokenHash_some hf
    have hjk := inv.distinct j k t s ht hs (hth.trans hh.symm)
    subst hjk
    rw [hs] at ht
    obtain rfl := Option.some.inj ht
    have hrev := inv.reasoned j s hs
    refine h s.familyId s.userId ?_
    rw [evaluateRefresh_reuseDetected]
    exact ⟨s, hf, by simpa [hrot] using hrev.symm, hrot, rfl, rfl⟩

theorem dead_of_revokeFamily (inv : FamilyInv K.prims w) {k : Nat} {s : Session}
    (hs : w.sessions.get? k = some s) (reason : RevokedReason) (at_ : Date) (env : Env) :
    Dead (perform K (.revokeFamily s.familyId reason at_) env w).2 s.familyId := by
  refine ⟨(inv.below k s hs).2.1, ?_⟩
  intro j t' ht' hf
  have get := SessionStore.get?_revokeWhere inv.keyed (fun t => t.familyId == s.familyId) reason at_ j
  change (w.sessions.revokeFamily s.familyId reason at_).1.get? j = some t' at ht'
  rw [SessionStore.revokeFamily, get, Option.map_eq_some_iff] at ht'
  obtain ⟨t, ht, rfl⟩ := ht'
  cases hr : t.revokedAt with
  | none =>
    have hft : t.familyId = s.familyId := by
      split at hf <;> exact hf
    simp [hft, SessionStore.revoked]
  | some _ => simp [hr]

/-- No session under this token has been revoked. -/
def Unspent (w : World) (tokenHash : Nat) : Prop :=
  ∀ k s, w.sessions.get? k = some s → s.tokenHash = tokenHash → s.revokedAt = none

theorem Unspent.before {w' : World} (inv : FamilyInv K.prims w') (he : Evolves w w') {k : Nat}
    {s : Session} (hs : w'.sessions.get? k = some s) (hh : s.tokenHash = tokenHash)
    (hr : s.revokedAt = none) : Unspent w tokenHash := by
  intro j t ht hth
  obtain ⟨t', ht', hc⟩ := he.sessions j t ht
  have hjk := inv.distinct j k t' s ht' hs (hc.tokenHash.trans (hth.trans hh.symm))
  subst hjk
  rw [hs] at ht'
  obtain rfl := Option.some.inj ht'
  by_contra hn
  rw [hc.eq_of_revoked (Option.isSome_iff_ne_none.mpr hn)] at hr
  exact hn hr

variable {fixed : Prop} {cond : Call → Env → World → Prop} {n : Nat}

theorem safe_now (collisionFree : Function.Injective K.prims.hashToken) {call : Call}
    (hr : ¬call.IsRotate := by exact id) (hf : call.sessional = true := by rfl) :
    (families K fixed cond).Safe n call :=
  safe_of_ordinary collisionFree hr fun _ => hf

theorem revokeReused_meets (collisionFree : Function.Injective K.prims.hashToken)
    {k : Nat} {s : Session} (hs : w.sessions.get? k = some s) (hh : s.tokenHash = tokenHash)
    (now : Date) (context : RequestContext) {ok : Unit → World → Prop}
    {err : AuthError → World → Prop} (h : ∀ t, LostRace t tokenHash → ok () t) :
    Task.Meets (families K fixed cond) n ok err w
      (revokeReused s.familyId s.userId now context) := by
  unfold revokeReused
  rw [Task.meets_bind]
  refine meets_call_safe (safe_now collisionFree) ?_
  intro env t he hi _ hi' he'
  obtain ⟨s', hs', hc⟩ := he.1.sessions k s hs
  have dead := dead_of_revokeFamily hi hs' .reuseDetected now env
  rw [hc.familyId] at dead
  refine meets_call_safe (safe_now collisionFree) ?_
  intro env' t' het hi'' _ hi3 het'
  obtain ⟨s3, hs3, hc3⟩ := (he.1.trans (he'.1.trans (het.1.trans het'.1))).sessions k s hs
  refine h _ (LostRace.of_dead hi3 hs3 (hc3.tokenHash.trans hh) ?_)
  rw [hc3.familyId]
  exact (het.1.trans het'.1).dead _ dead

/-- A refresh that succeeds has redeemed its token; one that fails leaves no rotated token whose
family is alive. -/
theorem refresh_meets (fixed : Prop) (cond : Call → Env → World → Prop)
    (collisionFree : Function.Injective K.prims.hashToken) (w : World) (request refreshToken : Nat) (context : RequestContext) :
    Task.Meets (families K fixed cond) request
      (fun _ t => (request, K.prims.hashToken refreshToken) ∈ t.redeemed ∧
        Unspent w (K.prims.hashToken refreshToken))
      (fun _ t => fixed → LostRace t (K.prims.hashToken refreshToken)) w
      (refresh K request refreshToken context) := by
  unfold refresh
  rw [Task.meets_bind]
  refine meets_call_safe (safe_now collisionFree) ?_
  intro env t0 he0 _ _ _ _
  generalize (perform K .now env t0).1 = now
  dsimp only
  rw [Task.meets_bind]
  refine meets_call_safe (safe_now collisionFree) ?_
  intro env1 t1 he1 hi1 _ _ _
  have h01 : (families K fixed cond).evolves w t1 := (families K fixed cond).trans he0 he1
  split
  · rename_i familyId userId houtcome
    obtain ⟨s, hs, -, -, rfl, rfl⟩ := evaluateRefresh_reuseDetected.mp houtcome
    obtain ⟨hh, k, hk⟩ := SessionStore.findByTokenHash_some hs
    rw [Task.meets_bind]
    exact revokeReused_meets collisionFree hk hh _ _ fun t hl _ => hl
  · rename_i session houtcome
    obtain ⟨hs, hactive⟩ := evaluateRefresh_ok.mp houtcome
    obtain ⟨hh, k, hk⟩ := SessionStore.findByTokenHash_some hs
    have hrev : session.revokedAt = none := by simpa using (isSessionActive_iff.mp hactive).1
    have unspent : Unspent w (K.prims.hashToken refreshToken) :=
      Unspent.before hi1 h01.1 hk hh hrev
    rw [Task.meets_bind]
    refine meets_call_safe (safe_now collisionFree) ?_
    intro env2 t2 he2 hi2 _ _ _
    split
    · -- The user is gone: the session is revoked unless another request did so before.
      rename_i hnone
      rw [Task.meets_bind]
      refine meets_call_safe (safe_now collisionFree) ?_
      intro env3 t3 he3 hi3 _ hi3' he3' hf j s' hs' hh' hrot
      have h13 := (families K fixed cond).trans he2 ((families K fixed cond).trans he3 he3')
      obtain ⟨s'', hs'', hc⟩ := h13.1.sessions k session hk
      have hjk := hi3'.distinct j k s' s'' hs' hs'' (hh'.trans (hc.tokenHash.trans hh).symm)
      subst hjk
      rw [hs'] at hs''
      obtain rfl := Option.some.inj hs''
      have hrev' := hi3'.reasoned j s' hs'
      obtain ⟨user, huser, hstatus⟩ :=
        (h13.2 hf).owner j session s' hk hrev hs' (by simpa [hrot] using hrev'.symm) hrot
      have huser2 : t2.users.findById session.userId = some user := by
        rw [(he2.2 hf).users]
        exact huser
      have hfilter : (t2.users.findById session.userId).filter
          (fun x => decide (x.status = .active)) = none := hnone
      rw [huser2] at hfilter
      simp [Option.filter, hstatus] at hfilter
    · rename_i user hsome
      rw [Task.meets_bind]
      refine meets_call ?_
      intro env3 t3 he3 hi3 _
      have h13 := (families K fixed cond).trans he2 he3
      have active : fixed → activeUser t3 session.userId := by
        intro hf
        refine ⟨user, ?_, ?_⟩
        · rw [(he3.2 hf).users]
          exact (Option.filter_eq_some_iff.mp hsome).1
        · simpa using (Option.filter_eq_some_iff.mp hsome).2
      obtain ⟨h1, h2, h3⟩ := rotateSession_keeps cond collisionFree hi3 request user
        context now env3 ((Snapshot.of_get hi1 hk).evolves h13.1) active
      refine ⟨h1, h2, ?_⟩
      split
      · rw [Task.meets_bind]
        refine meets_call_safe (safe_now collisionFree) ?_
        intro env4 t4 he4 hi4 _ _ _
        split
        · rename_i familyId userId houtcome4
          obtain ⟨s, hs4, -, -, rfl, rfl⟩ := evaluateRefresh_reuseDetected.mp houtcome4
          obtain ⟨hh4, k4, hk4⟩ := SessionStore.findByTokenHash_some hs4
          rw [Task.meets_bind]
          exact revokeReused_meets collisionFree hk4 hh4 _ _ fun t hl _ => hl
        · rename_i houtcome4
          exact fun _ => LostRace.of_not_reuse hi4 fun familyId userId => houtcome4 familyId userId
      · rename_i tokens hrotated
        have redeemed := h3 (by rw [hrotated]; rfl)
        rw [hh] at redeemed
        rw [Task.meets_bind]
        refine meets_call_safe (safe_now collisionFree) ?_
        intro env4 t4 he4 hi4 _ _ he4'
        exact ⟨(he4.1.trans he4'.1).redeemed _ redeemed, unspent⟩
  · rename_i houtcome houtcome'
    exact fun _ => LostRace.of_not_reuse hi1 fun familyId userId => houtcome familyId userId

end Refresh

/-! ### Runs of the service -/

section Runs

variable {K : Config} {fixed : Prop} {cond : Call → Env → World → Prop}

/-- What the end of a request says about the token it carried. -/
def outcome (K : Config) (fixed : Prop) (n : Nat) (r : Request) (a : Except AuthError Response)
    (w : World) : Prop :=
  match r, a with
  | .refresh refreshToken _, .ok _ => (n, K.prims.hashToken refreshToken) ∈ w.redeemed
  | .refresh refreshToken _, .error _ => fixed → LostRace w (K.prims.hashToken refreshToken)
  | _, _ => True

theorem refresh_sat (fixed : Prop) (cond : Call → Env → World → Prop) (collisionFree : Function.Injective K.prims.hashToken) (n refreshToken : Nat)
    (context : RequestContext) (w : World) :
    Sat (families K fixed cond) n (fun a t => outcome K fixed n (.refresh refreshToken context) a t ∧
        (a.isOk → Unspent w (K.prims.hashToken refreshToken))) w
      (handle K n (.refresh refreshToken context)).run := by
  have h := refresh_meets fixed cond collisionFree w n refreshToken context
  have hm : Task.Meets (families K fixed cond) n (fun _ t =>
      (n, K.prims.hashToken refreshToken) ∈ t.redeemed ∧ Unspent w (K.prims.hashToken refreshToken))
      (fun _ t => fixed → LostRace t (K.prims.hashToken refreshToken)) w
      (handle K n (.refresh refreshToken context)) := Task.meets_map.mpr h
  refine Sat.weaken hm ?_
  intro a t ha
  cases a with
  | ok a => exact ⟨ha.1, fun _ => ha.2⟩
  | error e => exact ⟨ha, fun h => by cases h⟩

/-- Every request of the whole service keeps the families. -/
theorem system_serves (cond : Call → Env → World → Prop)
    (collisionFree : Function.Injective K.prims.hashToken) (w₀ : World) :
    Pool.Serves (S := system K) (families K False cond) (outcome K False) w₀ := by
  intro n r w _ _
  have safe : ∀ c : Call, ¬c.IsRotate → (families K False cond).Safe n c :=
    fun c hc => safe_of_ordinary collisionFree hc False.elim
  have ordinarily : Ordinarily n ((families K False cond).Safe n) := by
    intro c hc _
    refine safe c ?_
    cases c <;> simp_all [Call.ordinary, Call.IsRotate]
  have signIns : OfSignIns n ((families K False cond).Safe n) := fun _ _ => safe _ id
  have others : (∀ refreshToken context, r ≠ .refresh refreshToken context) →
      Sat (families K False cond) n (fun _ _ => True) w (handle K n r).run :=
    fun hr => Sat.of_all (others_all ordinarily signIns (fun _ => safe _ id) hr)
  cases r with
  | refresh refreshToken context =>
    exact (refresh_sat _ _ collisionFree n refreshToken context w).weaken fun _ _ h => h.1
  | _ => exact (others (by simp)).weaken fun _ _ _ => trivial

/-- Worlds that some run of the service reaches. -/
def Reachable (K : Config) (w : World) : Prop :=
  ∃ c, Pool.Run (system K) (fun _ _ _ => True) (.idle .empty) c ∧ c.state = w

theorem reachable_families (collisionFree : Function.Injective K.prims.hashToken) {w : World}
    (h : Reachable K w) : FamilyInv K.prims w := by
  obtain ⟨c, hr, rfl⟩ := h
  have serves := system_serves (fun _ _ _ => True) collisionFree World.empty
  exact ((Pool.Sound.idle (FamilyInv.empty K.prims)).run serves (Contract.refl _ _) hr).1.inv

end Runs

/-! ### Requests on sessions -/

inductive SessionRequest
  | refresh (refreshToken : Nat) (context : RequestContext)
  | logout (userId sessionId : Nat) (context : RequestContext)
  | logoutAll (userId : Nat) (context : RequestContext)
  | revokeSession (userId sessionId : Nat) (context : RequestContext)

def SessionRequest.toRequest : SessionRequest → Request
  | .refresh refreshToken context => .refresh refreshToken context
  | .logout userId sessionId context => .logout userId sessionId context
  | .logoutAll userId context => .logoutAll userId context
  | .revokeSession userId sessionId context => .revokeSession userId sessionId context

/-- The service while only refreshes, sign-outs and revocations run. -/
def sessionSystem (K : Config) :
    System ports Env World SessionRequest (Except AuthError Response) where
  machine := machine K
  serve := fun n r => (handle K n r.toRequest).run

section SessionRuns

variable {K : Config} {cond : Call → Env → World → Prop}

theorem sessionSystem_serves (cond : Call → Env → World → Prop)
    (collisionFree : Function.Injective K.prims.hashToken) (w₀ : World) :
    Pool.Serves (S := sessionSystem K) (families K True cond)
      (fun n r => outcome K True n r.toRequest) w₀ := by
  intro n r w _ _
  have safe : ∀ c : Call, c.sessional = true → (families K True cond).Safe n c := by
    intro c hc
    refine safe_of_ordinary collisionFree ?_ fun _ => hc
    cases c <;> simp_all [Call.sessional, Call.IsRotate]
  have called : ∀ c : Call, c.sessional = true → Calls ((families K True cond).Safe n) (call c) :=
    fun c hc => (Task.all_call (I := ports) c).mpr (safe c hc)
  cases r with
  | refresh refreshToken context =>
    exact (refresh_sat _ _ collisionFree n refreshToken context w).weaken fun _ _ h => h.1
  | logout userId sessionId context =>
    refine Sat.weaken (Sat.of_all (Task.all_map ?_)) fun _ _ _ => trivial
    exact Task.all_bind (called _ rfl) fun _ => Task.all_bind (called _ rfl) fun _ => called _ rfl
  | logoutAll userId context =>
    refine Sat.weaken (Sat.of_all (Task.all_map ?_)) fun _ _ _ => trivial
    exact Task.all_bind (called _ rfl) fun _ => Task.all_bind (called _ rfl) fun _ =>
      Task.all_bind (called _ rfl) fun _ => Task.all_pure _
  | revokeSession userId sessionId context =>
    refine Sat.weaken (Sat.of_all (Task.all_map ?_)) fun _ _ _ => trivial
    refine Task.all_bind (called _ rfl) fun found => ?_
    cases found with
    | none => exact Task.all_throw _
    | some _ =>
      exact Task.all_bind (called _ rfl) fun _ => Task.all_bind (called _ rfl) fun _ => called _ rfl

abbrev SessionPool := Pool ports World SessionRequest (Except AuthError Response)

/-- Runs of session requests without any restriction on their interleaving. -/
def SessionRun (K : Config) : SessionPool → SessionPool → Prop :=
  Pool.Run (sessionSystem K) fun _ _ _ => True

/-- The history of redemptions starts in this world. -/
def World.fresh (w : World) : World := { w with redeemed := [] }

theorem FamilyInv.fresh_history {P : Primitives} {w : World} (inv : FamilyInv P w) :
    FamilyInv P w.fresh where
  keyed := inv.keyed
  below := inv.below
  distinct := inv.distinct
  reasoned := inv.reasoned
  single := inv.single
  ended := inv.ended
  spent := by simp [World.fresh]
  once := List.nodup_nil

/-- The contract of session requests under any interleaving. -/
abbrev sessionContract (K : Config) : Contract (machine K) := families K True fun _ _ _ => True

def sessionOutcome (K : Config) (n : Nat) (r : SessionRequest) (a : Except AuthError Response)
    (w : World) : Prop :=
  outcome K True n r.toRequest a w

theorem sessionRun_sound (collisionFree : Function.Injective K.prims.hashToken) {w : World}
    (inv : FamilyInv K.prims w) {c : SessionPool} (run : SessionRun K (.idle w) c) :
    Pool.Sound (S := sessionSystem K) (sessionContract K) (sessionOutcome K) c ∧
      (sessionContract K).evolves w c.state :=
  (Pool.Sound.idle inv).run (sessionSystem_serves _ collisionFree w) (Contract.refl _ _) run

variable {w : World} {c c' : SessionPool}

/-- No session of the family is active, now or after any further step. -/
def NeverActiveAgain (K : Config) (c : SessionPool) (familyId : Nat) : Prop :=
  ∀ c', SessionRun K c c' → ∀ k s now, c'.state.sessions.get? k = some s →
    s.familyId = familyId → isSessionActive s now = false

theorem dead_neverActiveAgain (collisionFree : Function.Injective K.prims.hashToken)
    (sound : Pool.Sound (S := sessionSystem K) (sessionContract K) (sessionOutcome K) c)
    {familyId : Nat} (dead : Dead c.state familyId) : NeverActiveAgain K c familyId := by
  intro c' run k s now hs hf
  obtain ⟨-, he⟩ := sound.run (sessionSystem_serves _ collisionFree c.state) (Contract.refl _ _) run
  have revoked := (he.1.dead familyId dead).2 k s hs hf
  cases hr : s.revokedAt with
  | none => simp [hr] at revoked
  | some at_ => simp [isSessionActive, hr]

/-- Two requests never redeem the same token. -/
theorem redeemed_once (collisionFree : Function.Injective K.prims.hashToken)
    (inv : FamilyInv K.prims w) (run : SessionRun K (.idle w) c) {m n refreshToken : Nat}
    {context context' : RequestContext} {a b : Response}
    (hm : c.Finished m (.refresh refreshToken context) (.ok a))
    (hn : c.Finished n (.refresh refreshToken context') (.ok b)) : m = n := by
  obtain ⟨sound, -⟩ := sessionRun_sound collisionFree inv run
  obtain ⟨t, -, htc, hm⟩ := sound.finished hm
  obtain ⟨t', -, htc', hn⟩ := sound.finished hn
  have h1 := htc.1.redeemed _ hm
  have h2 := htc'.1.redeemed _ hn
  have heq := List.inj_on_of_nodup_map sound.inv.once h1 h2 rfl
  exact congrArg Prod.fst heq

theorem active_single (collisionFree : Function.Injective K.prims.hashToken)
    (inv : FamilyInv K.prims w) (run : SessionRun K (.idle w) c) {j k : Nat} {s t : Session}
    {now now' : Date} (hs : c.state.sessions.get? j = some s)
    (ht : c.state.sessions.get? k = some t) (family : s.familyId = t.familyId)
    (active : isSessionActive s now = true) (active' : isSessionActive t now' = true) : j = k :=
  (sessionRun_sound collisionFree inv run).1.inv.single j k s t hs ht family
    (isSessionActive_iff.mp active).1 (isSessionActive_iff.mp active').1

/-- A refresh that fails while its token is known to be rotated leaves the family dead. -/
theorem lost_refresh_dead (collisionFree : Function.Injective K.prims.hashToken)
    (sound : Pool.Sound (S := sessionSystem K) (sessionContract K) (sessionOutcome K) c)
    (run : SessionRun K c c') {n refreshToken k : Nat} {context : RequestContext} {s : Session}
    {e : AuthError} (hs : c.state.sessions.get? k = some s)
    (hh : s.tokenHash = K.prims.hashToken refreshToken) (rotated : s.revokedReason = some .rotated)
    (running : c.Running n (.refresh refreshToken context))
    (finished : c'.Finished n (.refresh refreshToken context) (.error e)) :
    Dead c'.state s.familyId := by
  obtain ⟨t, -, hct, htc, hpost⟩ := sound.finished_after
    (sessionSystem_serves _ collisionFree c.state) (Contract.refl _ _) run running finished
  have hrev : s.revokedAt.isSome := by simpa [rotated] using (sound.inv.reasoned k s hs).symm
  obtain ⟨s', hs', hc⟩ := hct.1.sessions k s hs
  rw [hc.eq_of_revoked hrev] at hs'
  exact htc.1.dead _ (hpost trivial k s hs' hh rotated)

/-- A refresh that starts with a rotated token fails. -/
theorem replay_fails (collisionFree : Function.Injective K.prims.hashToken)
    (sound : Pool.Sound (S := sessionSystem K) (sessionContract K) (sessionOutcome K) c)
    {refreshToken k : Nat} {context : RequestContext} {s : Session} {a : Except AuthError Response}
    (hs : c.state.sessions.get? k = some s) (hh : s.tokenHash = K.prims.hashToken refreshToken)
    (rotated : s.revokedReason = some .rotated)
    (run : SessionRun K (c.start (sessionSystem K) (.refresh refreshToken context)) c')
    (finished : c'.Finished c.threads.length (.refresh refreshToken context) a) :
    a.isOk = false := by
  obtain ⟨t, -, -, -, hpost⟩ := sound.finished_of_start
    (sessionSystem_serves _ collisionFree c.state) (Contract.refl _ _) run
    (refresh_sat _ _ collisionFree c.threads.length refreshToken context c.state) finished
  have hrev : s.revokedAt.isSome := by simpa [rotated] using (sound.inv.reasoned k s hs).symm
  by_contra hok
  have := hpost.2 (by simpa using hok) k s hs hh
  simp [this] at hrev

/-- Over any interleaving of refreshes, replays, sign-outs and revocations: a token is redeemed at
most once, a family has at most one active session, a completed refresh with a rotated token ends
its family for good, and a recorded revoke reason stays. -/
theorem refresh_rotation (collisionFree : Function.Injective K.prims.hashToken)
    (reachable : Reachable K w) (run : SessionRun K (.idle w.fresh) c) :
    (∀ m n refreshToken context context' a b,
      c.Finished m (.refresh refreshToken context) (.ok a) →
      c.Finished n (.refresh refreshToken context') (.ok b) → m = n) ∧
    (∀ j k s t now now', c.state.sessions.get? j = some s → c.state.sessions.get? k = some t →
      s.familyId = t.familyId → isSessionActive s now = true → isSessionActive t now' = true →
        j = k) ∧
    (∀ k s refreshToken context, c.state.sessions.get? k = some s →
      s.tokenHash = K.prims.hashToken refreshToken → s.revokedReason = some .rotated →
        -- The request was under way when the token was rotated, and lost.
        (∀ n e c', SessionRun K c c' → c.Running n (.refresh refreshToken context) →
          c'.Finished n (.refresh refreshToken context) (.error e) →
            NeverActiveAgain K c' s.familyId) ∧
        -- The request started with a rotated token.
        (∀ a c', SessionRun K (c.start (sessionSystem K) (.refresh refreshToken context)) c' →
          c'.Finished c.threads.length (.refresh refreshToken context) a →
            a.isOk = false ∧ NeverActiveAgain K c' s.familyId)) ∧
    (∀ k s reason c', SessionRun K c c' → c.state.sessions.get? k = some s →
      s.revokedReason = some reason →
        ∃ s', c'.state.sessions.get? k = some s' ∧ s'.revokedReason = some reason) := by
  have inv := (reachable_families collisionFree reachable).fresh_history
  obtain ⟨sound, -⟩ := sessionRun_sound collisionFree inv run
  have soundAfter : ∀ {d d'}, SessionRun K d d' →
      Pool.Sound (S := sessionSystem K) (sessionContract K) (sessionOutcome K) d →
        Pool.Sound (S := sessionSystem K) (sessionContract K) (sessionOutcome K) d' :=
    fun {d} _ hr hd =>
      (hd.run (sessionSystem_serves _ collisionFree d.state) (Contract.refl _ _) hr).1
  refine ⟨fun _ _ _ _ _ _ _ => redeemed_once collisionFree inv run,
    fun _ _ _ _ _ _ => active_single collisionFree inv run, ?_, ?_⟩
  · intro k s refreshToken context hs hh rotated
    refine ⟨?_, ?_⟩
    · intro n e c' run' running finished
      exact dead_neverActiveAgain collisionFree (soundAfter run' sound)
        (lost_refresh_dead collisionFree sound run' hs hh rotated running finished)
    · intro a c' run' finished
      have hfail := replay_fails collisionFree sound hs hh rotated run' finished
      refine ⟨hfail, ?_⟩
      cases a with
      | ok a => cases hfail
      | error e =>
        let d := c.start (sessionSystem K) (.refresh refreshToken context)
        have soundStart : Pool.Sound (S := sessionSystem K) (sessionContract K)
            (sessionOutcome K) d := soundAfter (.single (.start _ c)) sound
        have running : d.Running c.threads.length (.refresh refreshToken context) :=
          ⟨_, _, by simp [d, Pool.start]; rfl⟩
        exact dead_neverActiveAgain collisionFree (soundAfter run' soundStart)
          (lost_refresh_dead collisionFree soundStart run' hs hh rotated running finished)
  · intro k s reason c' run' hs hreason
    obtain ⟨-, he⟩ := sound.run (sessionSystem_serves _ collisionFree c.state) (Contract.refl _ _)
      run'
    obtain ⟨s', hs', hc⟩ := he.1.sessions k s hs
    have hrev : s.revokedAt.isSome := by simpa [hreason] using (sound.inv.reasoned k s hs).symm
    exact ⟨s', hs', by rw [hc.eq_of_revoked hrev, hreason]⟩

end SessionRuns

/-- One refresh of the token, to its end. -/
def refreshed : SessionPool :=
  Pool.after (sessionSystem sampleConfig)
    (.start (.refresh 8 phone) :: List.replicate 5 (.run 0 noon)) (.idle signedUp.fresh)

/-- The same token again. -/
def replayed : SessionPool :=
  Pool.after (sessionSystem sampleConfig) (List.replicate 4 (.run 1 noon))
    (refreshed.start (sessionSystem sampleConfig) (.refresh 8 phone))

theorem refresh_rotation_replayed :
    refreshed.threads.length = 1 ∧ NeverActiveAgain sampleConfig replayed 9 := by
  have spent : refreshed.state.sessions.get? 7 =
      some ⟨7, 1, 9, 8, 1000, 2592001000, none, some 1000, some .rotated, some "phone", none⟩ := by
    decide +kernel
  have finished : replayed.Finished 1 (.refresh 8 phone) (.error sessionInvalid) := by rfl
  have reachable : Reachable sampleConfig signedUp := ⟨_, Pool.after_run _ _ _, rfl⟩
  have run : SessionRun sampleConfig (.idle signedUp.fresh) refreshed := Pool.after_run _ _ _
  refine ⟨by decide +kernel, ?_⟩
  exact ((((refresh_rotation Function.injective_id reachable run).2.2.1 7 _ 8 phone spent rfl
    rfl).2 (.error sessionInvalid) replayed (Pool.after_run _ _ _) finished).2)

end Finverse.Auth
