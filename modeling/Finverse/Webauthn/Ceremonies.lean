import Finverse.Auth.Footprints
import Finverse.Auth.SecondFactor
import Finverse.Webauthn.Service

/-! What becomes of the challenge of a passkey ceremony. -/

namespace Finverse.Webauthn

open Interleave
open Auth (AuthError AuthResult RequestContext User)

/-! ### What a request does with its ceremony -/

/-- A session is opened. -/
def Call.signsIn : Call → Bool
  | .auth (.createSession ..) => true
  | _ => false

/-- A credential is stored. -/
def Call.stores : Call → Bool
  | .register .. => true
  | _ => false

/-- What a ceremony is for. -/
def Call.yields (op : Call) : Bool := op.signsIn || op.stores

/-- The calls that consume a challenge or give what it is for. -/
def Call.ceremonial : Call → Bool
  | .consume .. => true
  | op => op.yields

/-- The challenge that a request presents, and what as. -/
def Request.ceremony : Request → Option (Nat × WebAuthnCeremonyPurpose)
  | .registrationVerify _ body _ => some (body.ceremonyId, .register)
  | .loginVerify body _ => some (body.ceremonyId, .login)
  | _ => none

/-- What a request may ask for: it consumes its own challenge only, and it yields once, for the user
that the challenge allows. -/
structure CeremonyAsks (r : Request) (h : List (Event ports)) (op : Call) : Prop where
  consumed : ∀ c p, op = .consume c p → r.ceremony = some (c, p)
  stored : ∀ userId id pem, op = .register userId id pem →
    (∃ c, r.ceremony = some (c, .register)) ∧ ∀ ev ∈ h, Call.yields ev.op = false
  session : ∀ c p, r.ceremony = some (c, p) → ∀ n user context, op = .auth (.createSession n user context) →
    p = .login ∧ (∃ record owner, ⟨.consume c .login, some record⟩ ∈ h ∧
      (∀ u, record.userId = some u → u = owner) ∧ ⟨.auth (.findUserById owner), some user⟩ ∈ h) ∧
        ∀ ev ∈ h, Call.yields ev.op = false

section Asks

variable {K : Config} {n : Nat} {h : List (Event ports)} {r : Request} {context : RequestContext}

abbrev Calls (P : Call → Prop) {α : Type} (m : Service α) : Prop := Task.All (I := ports) P m

theorem call_calls {P : Call → Prop} {c : Call} (hc : P c) : Calls P (call c) :=
  (Task.all_call (I := ports) c).mpr hc

theorem call_bind_asks {α : Type} {D : List (Event ports) → Call → Prop} {c : Call}
    {f : c.Reply → Service α} {ok : List (Event ports) → α → Prop}
    {err : List (Event ports) → AuthError → Prop} :
    Task.Asks (I := ports) D ok err h (call c >>= f) ↔
      D h c ∧ ∀ r : c.Reply, Task.Asks (I := ports) D ok err (h ++ [⟨c, r⟩]) (f r) :=
  Task.asks_call_bind (I := ports)

theorem asks_other {c : Call} (quiet : c.ceremonial = false) : CeremonyAsks r h c where
  consumed := by
    rintro _ _ rfl
    cases quiet
  stored := by
    rintro _ _ _ rfl
    cases quiet
  session := by
    rintro _ _ - _ _ _ rfl
    cases quiet

theorem yields_of_quiet {c : Call} (quiet : c.ceremonial = false) : c.yields = false := by
  cases c <;> first | exact quiet | rfl

theorem auth_bind {α β : Type} (m : Auth.Service α) (f : α → Auth.Service β) :
    auth (m >>= f) = auth m >>= fun a => auth (f a) :=
  Task.via_bind authPorts m f

theorem auth_all {P : Call → Prop} {α : Type} {m : Auth.Service α}
    (all : Auth.Calls (fun c => P (.auth c)) m) : Calls P (auth m) :=
  Task.all_via authPorts all

theorem auth_plain : Auth.Plainly fun c => Call.ceremonial (.auth c) = false := by
  intro c plain
  cases c <;> first | rfl | cases plain

/-! ### The steps of the requests -/

abbrev Quiet {α : Type} (m : Service α) : Prop := Calls (fun c => c.ceremonial = false) m

theorem recordAuthEvent_quiet (kind : Auth.AuthEventKind) (succeeded : Bool) (userId : Option Nat)
    (email : Option String) (detail : Option String) :
    Quiet (recordAuthEvent kind succeeded userId email context detail) :=
  call_calls rfl

theorem requireConfig_quiet : Quiet (requireConfig K) := by
  unfold requireConfig
  split
  · exact Task.all_pure _
  · exact Task.all_throw _

theorem findOwner_quiet (owned : Option (Nat × WebAuthnCredential)) : Quiet (findOwner owned) := by
  cases owned with
  | none => exact Task.all_pure _
  | some owned => exact call_calls rfl

theorem findByAddress_quiet (email : Option String) : Quiet (findByAddress email) := by
  unfold findByAddress
  cases email.filter (· ≠ "") with
  | none => exact Task.all_pure _
  | some email => exact call_calls rfl

theorem notifyChange_quiet (user : Option User) (added : Bool) : Quiet (notifyChange user added) := by
  unfold notifyChange
  cases (user.map User.email).filter (· ≠ "") with
  | none => exact Task.all_pure _
  | some email => exact call_calls rfl

theorem assertOwnerNotLocked_quiet (owned : Option (Nat × WebAuthnCredential)) (email : Option String) :
    Quiet (assertOwnerNotLocked owned email context) := by
  unfold assertOwnerNotLocked
  split
  · exact auth_all (Auth.assertPasskeyNotLocked_plain auth_plain _ context)
  · exact Task.all_pure _

theorem assertion_quiet (body : LoginBody) (challenge userId : Nat) (publicKeyPem : String) :
    Quiet (assertion K body challenge userId publicKeyPem) := by
  unfold assertion
  refine Task.all_bind (call_calls rfl) fun verified => ?_
  cases verified with
  | false => exact Task.all_pure _
  | true =>
    cases K.readCounter body.authenticatorData with
    | none => exact Task.all_pure _
    | some counter => exact call_calls rfl

/-- The rule for a step that is not about ceremonies, and what follows it. -/
theorem quiet_bind_asks {α β : Type} {m : Service α} {f : α → Service β} (quiet : Quiet m)
    (next : ∀ more a, (∀ ev ∈ more, Call.ceremonial ev.op = false) →
      Task.Asks (I := ports) (CeremonyAsks r) (fun _ _ => True) (fun _ _ => True) (h ++ more) (f a)) :
    Task.Asks (I := ports) (CeremonyAsks r) (fun _ _ => True) (fun _ _ => True) h (m >>= f) := by
  refine Task.Asks.all_bind quiet (fun _ _ => asks_other) (fun _ _ _ => trivial) ?_
  rintro _ a ⟨more, rfl, such⟩
  exact next more a such

theorem quiet_asks {α : Type} {m : Service α} (quiet : Quiet m) :
    Task.Asks (I := ports) (CeremonyAsks r) (fun _ _ => True) (fun _ _ => True) h m :=
  (Task.Asks.of_all quiet fun _ _ => asks_other).weaken (fun _ _ _ => trivial) fun _ _ _ => trivial

/-- The session of a passkey login is asked for at the end, for the user that was looked up. -/
theorem loginWithVerifiedPasskey_asks {userId : Nat}
    (session : ∀ more user, (∀ ev ∈ more, Call.ceremonial ev.op = false) →
      ⟨.auth (.findUserById userId), some user⟩ ∈ more →
        CeremonyAsks r (h ++ more) (.auth (.createSession n user context))) :
    Task.Asks (I := ports) (CeremonyAsks r) (fun _ _ => True) (fun _ _ => True) h
      (auth (Auth.loginWithVerifiedPasskey n userId context)) := by
  unfold Auth.loginWithVerifiedPasskey
  rw [auth_bind]
  refine call_bind_asks.mpr ⟨asks_other rfl, fun _ => ?_⟩
  rw [auth_bind]
  refine call_bind_asks.mpr ⟨asks_other rfl, fun found => ?_⟩
  rw [auth_bind]
  refine quiet_bind_asks (auth_all (Auth.assertPasskeyNotLocked_plain auth_plain _ context)) ?_
  intro more _ quiet
  cases found with
  | none =>
    rw [auth_bind]
    exact call_bind_asks.mpr ⟨asks_other rfl, fun _ => trivial⟩
  | some user =>
    by_cases inactive : user.status ≠ .active
    · simp only [if_pos inactive]
      rw [auth_bind]
      exact call_bind_asks.mpr ⟨asks_other rfl, fun _ => trivial⟩
    · simp only [if_neg inactive]
      rw [auth_bind]
      refine call_bind_asks.mpr ⟨asks_other rfl, fun _ => ?_⟩
      rw [auth_bind]
      refine call_bind_asks.mpr ⟨asks_other rfl, fun _ => ?_⟩
      rw [Auth.issueSession, auth_bind]
      refine call_bind_asks.mpr ⟨?_, fun _ => trivial⟩
      have asked := session ([⟨.auth (.passkeyAsserted n userId), ()⟩,
        ⟨.auth (.findUserById userId), some user⟩] ++ more ++
          [⟨.auth (.record .passkeyLogin true (some user.id) (some user.email) context none), ()⟩,
            ⟨.auth (.record .login true (some user.id) (some user.email) context (some "passkey")), ()⟩])
        user ?_ (by simp)
      · simp only [List.append_assoc, List.cons_append, List.nil_append] at asked ⊢
        exact asked
      · intro ev there
        simp only [List.mem_append, List.mem_cons, List.not_mem_nil, or_false] at there
        rcases there with ((rfl | rfl) | earlier) | (rfl | rfl)
        · rfl
        · rfl
        · exact quiet ev earlier
        · rfl
        · rfl

theorem loginVerify_asks (body : LoginBody) :
    Task.Asks (I := ports) (CeremonyAsks (.loginVerify body context)) (fun _ _ => True)
      (fun _ _ => True) [] (loginVerify K n body context) := by
  unfold loginVerify
  refine quiet_bind_asks requireConfig_quiet fun before _ started => ?_
  refine call_bind_asks.mpr ⟨?_, fun ceremony => ?_⟩
  · refine ⟨?_, fun _ _ _ same => (nomatch same), fun _ _ _ _ _ _ same => (nomatch same)⟩
    rintro c p same
    obtain ⟨rfl, rfl⟩ := Call.consume.inj same
    rfl
  cases ceremony with
  | none => trivial
  | some ceremony =>
    refine call_bind_asks.mpr ⟨asks_other rfl, fun owned => ?_⟩
    refine quiet_bind_asks (findOwner_quiet owned) fun found owner quiet => ?_
    refine quiet_bind_asks (assertOwnerNotLocked_quiet owned _) fun checked _ quiet' => ?_
    cases allowed : accepted ceremony owned with
    | none => exact call_bind_asks.mpr ⟨asks_other rfl, fun _ => trivial⟩
    | some owned' =>
      obtain ⟨userId, credential⟩ := owned'
      refine quiet_bind_asks (assertion_quiet ..) fun verified right quiet'' => ?_
      cases right with
      | false => exact call_bind_asks.mpr ⟨asks_other rfl, fun _ => trivial⟩
      | true =>
        refine loginWithVerifiedPasskey_asks fun more user last looked => ?_
        refine ⟨fun _ _ same => (nomatch same), fun _ _ _ same => (nomatch same), ?_⟩
        rintro c p mine n' user' context' same
        obtain ⟨rfl, rfl⟩ := Prod.mk.inj (Option.some.inj mine)
        obtain ⟨-, rfl, -⟩ := Auth.Call.createSession.inj (Call.auth.inj same)
        have owner_ : ∀ u, ceremony.userId = some u → u = userId := by
          have kept := (Option.filter_eq_some_iff.mp allowed).2
          intro u issued
          simpa [issued] using kept
        refine ⟨rfl, ⟨ceremony, userId, by simp, owner_, by simp [looked]⟩, ?_⟩
        intro ev there
        simp only [List.mem_append, List.mem_singleton] at there
        rcases there with (((((((none_ | there) | rfl) | rfl) | there) | there) | there) | there)
        · exact absurd none_ List.not_mem_nil
        · exact yields_of_quiet (started ev there)
        · rfl
        · rfl
        · exact yields_of_quiet (quiet ev there)
        · exact yields_of_quiet (quiet' ev there)
        · exact yields_of_quiet (quiet'' ev there)
        · exact yields_of_quiet (last ev there)

theorem registrationVerify_asks (userId : Nat) (body : RegistrationBody) :
    Task.Asks (I := ports) (CeremonyAsks (.registrationVerify userId body context)) (fun _ _ => True)
      (fun _ _ => True) [] (registrationVerify K userId body context) := by
  unfold registrationVerify
  refine quiet_bind_asks requireConfig_quiet fun before _ started => ?_
  refine call_bind_asks.mpr ⟨?_, fun ceremony => ?_⟩
  · refine ⟨?_, fun _ _ _ same => (nomatch same), fun _ _ _ _ _ _ same => (nomatch same)⟩
    rintro c p same
    obtain ⟨rfl, rfl⟩ := Call.consume.inj same
    rfl
  cases ceremony with
  | none => trivial
  | some ceremony =>
    by_cases other : ceremony.userId ≠ some userId
    · simp only [if_pos other]
      trivial
    · simp only [if_neg other]
      refine call_bind_asks.mpr ⟨asks_other rfl, fun verified => ?_⟩
      rcases verified with _ | ⟨credentialId, publicKeyPem⟩
      · trivial
      · by_cases wrong : credentialId ≠ body.id
        · simp only [if_pos wrong]
          trivial
        · simp only [if_neg wrong]
          refine call_bind_asks.mpr ⟨?_, fun _ => ?_⟩
          · refine ⟨fun _ _ same => (nomatch same), fun _ _ _ _ => ⟨⟨body.ceremonyId, rfl⟩, ?_⟩,
              fun _ _ _ _ _ _ same => (nomatch same)⟩
            intro ev there
            simp only [List.mem_append, List.mem_singleton] at there
            rcases there with ((none_ | there) | rfl) | rfl
            · exact absurd none_ List.not_mem_nil
            · exact yields_of_quiet (started ev there)
            · rfl
            · rfl
          · refine call_bind_asks.mpr ⟨asks_other rfl, fun user => ?_⟩
            refine quiet_bind_asks (recordAuthEvent_quiet ..) fun _ _ _ => ?_
            exact quiet_bind_asks (notifyChange_quiet user true) fun _ _ _ => trivial

/-- A request without a ceremony stores nothing, and consumes nothing. -/
theorem plain_asks {α : Type} {m : Service α} (none_ : r.ceremony = none)
    (quiet : Calls (fun c => c.stores = false ∧ ∀ c' p, c ≠ .consume c' p) m) :
    Task.Asks (I := ports) (CeremonyAsks r) (fun _ _ => True) (fun _ _ => True) h m := by
  refine (Task.Asks.of_all quiet fun h op such => ⟨?_, ?_, ?_⟩).weaken (fun _ _ _ => trivial)
    fun _ _ _ => trivial
  · exact fun c p same => absurd same (such.2 c p)
  · rintro _ _ _ rfl
    cases such.1
  · intro c p mine
    rw [none_] at mine
    cases mine

theorem handle_asks (r : Request) :
    Task.Asks (I := ports) (CeremonyAsks r) (fun _ _ => True) (fun _ _ => True) [] (handle K n r) := by
  cases r with
  | registrationVerify userId body context =>
    exact Task.asks_map.mpr (registrationVerify_asks userId body)
  | loginVerify body context => exact Task.asks_map.mpr (loginVerify_asks body)
  | registrationOptions user =>
    refine Task.asks_map.mpr (quiet_bind_asks requireConfig_quiet fun _ _ _ => ?_)
    refine call_bind_asks.mpr ⟨asks_other rfl, fun issued => ?_⟩
    exact call_bind_asks.mpr ⟨asks_other rfl, fun existing => trivial⟩
  | loginOptions email =>
    refine Task.asks_map.mpr (quiet_bind_asks requireConfig_quiet fun _ _ _ => ?_)
    refine quiet_bind_asks (findByAddress_quiet _) fun _ user _ => ?_
    exact call_bind_asks.mpr ⟨asks_other rfl, fun issued => trivial⟩
  | listCredentials userId =>
    exact Task.asks_map.mpr (call_bind_asks.mpr ⟨asks_other rfl, fun rows => trivial⟩)
  | removeCredential userId credentialId context =>
    refine Task.asks_map.mpr (call_bind_asks.mpr ⟨asks_other rfl, fun removed => ?_⟩)
    refine call_bind_asks.mpr ⟨asks_other rfl, fun user => ?_⟩
    refine quiet_bind_asks (recordAuthEvent_quiet ..) fun _ _ _ => ?_
    cases removed with
    | false => exact trivial
    | true => exact quiet_bind_asks (notifyChange_quiet user false) fun _ _ _ => trivial
  | purgeUser userId => exact Task.asks_map.mpr (quiet_asks (call_calls rfl))
  | deleteExpired => exact Task.asks_map.mpr (quiet_asks (call_calls rfl))
  | auth request =>
    refine Task.asks_map.mpr (plain_asks rfl (auth_all (Task.all_of_forall fun c => ?_)))
    exact ⟨rfl, fun _ _ same => nomatch same⟩

end Asks

/-! ### The course of a challenge -/

namespace InMemoryWebAuthnChallengeStore

variable {rows : InMemoryWebAuthnChallengeStore} {hash : Nat} {purpose : WebAuthnCeremonyPurpose}
  {at_ : Date}

theorem consume_some {record : WebAuthnChallengeRecord}
    (consumed : (rows.consume hash purpose at_).1 = some record) :
    ∃ row, rows.get? hash = some row ∧ row.purpose = purpose ∧ row.consumedAt = none ∧
      record = row.toWebAuthnChallengeRecord ∧
        (rows.consume hash purpose at_).2 = rows.set hash { row with consumedAt := some at_ } := by
  unfold consume at consumed ⊢
  cases stored : rows.get? hash with
  | none =>
    rw [stored] at consumed
    cases consumed
  | some row =>
    simp only [stored] at consumed ⊢
    split at consumed
    · rename_i fit
      have unused := fit
      simp only [consumable, Bool.and_eq_true, decide_eq_true_eq, Option.isNone_iff_eq_none] at unused
      refine ⟨row, rfl, unused.1.1, unused.1.2, (Option.some.inj consumed).symm, ?_⟩
      rw [if_pos fit]
    · cases consumed

theorem consume_none (refused : (rows.consume hash purpose at_).1 = none) :
    (rows.consume hash purpose at_).2 = rows := by
  unfold consume at refused ⊢
  split <;> rename_i stored
  · rfl
  · simp only [stored] at refused
    split at refused <;> rename_i fit
    · cases refused
    · rw [if_neg fit]

end InMemoryWebAuthnChallengeStore

abbrev Deed : Type := Entry ports Auth.Env World Request

section Course

variable (K : Config) (c : Nat)

/-- The deed issued the challenge, for a purpose and maybe for a user. -/
def IssuedBy (purpose : WebAuthnCeremonyPurpose) (userId : Option Nat) (e : Deed) : Prop :=
  ∃ email challenge, e.event (machine K) = ⟨.issue purpose userId email, (c, challenge)⟩

/-- The deed consumed the challenge, and was told of it. -/
def ConsumedBy (purpose : WebAuthnCeremonyPurpose) (record : WebAuthnChallengeRecord) (e : Deed) : Prop :=
  e.event (machine K) = ⟨.consume c purpose, some record⟩

/-- The deed consumed the challenge. -/
def consumes (e : Deed) : Bool :=
  match e with
  | ⟨_, _, .consume c' purpose, input, before⟩ =>
    c' == c && (perform K (.consume c' purpose) input before).1.isSome
  | _ => false

end Course

section Inv

variable {K : Config} {c : Nat} {log : List Deed} {e : Deed} {purpose : WebAuthnCeremonyPurpose}
  {userId : Option Nat} {record : WebAuthnChallengeRecord}

theorem consumes_iff : consumes K c e = true ↔ ∃ purpose record, ConsumedBy K c purpose record e := by
  obtain ⟨thread, req, op, input, before⟩ := e
  constructor
  · intro h
    cases op with
    | consume c' purpose =>
      simp only [consumes, Bool.and_eq_true, beq_iff_eq] at h
      obtain ⟨rfl, some_⟩ := h
      obtain ⟨record, replied⟩ := Option.isSome_iff_exists.mp some_
      refine ⟨purpose, record, ?_⟩
      simp only [ConsumedBy, Entry.event, Entry.reply, machine]
      rw [replied]
    | _ => cases h
  · rintro ⟨purpose, record, event⟩
    obtain ⟨op, replied⟩ := Entry.of_event event
    obtain rfl : _ = Call.consume c purpose := op
    have replied : (perform K (.consume c purpose) input before).1 = some record := replied
    simp [consumes, replied]

theorem IssuedBy.drawn (issued : IssuedBy K c purpose userId e) :
    (∃ email, e.op = .issue purpose userId email) ∧ c = e.before.auth.supply := by
  obtain ⟨email, challenge, event⟩ := issued
  obtain ⟨op, replied⟩ := Entry.of_event event
  exact ⟨⟨email, op⟩, (congrArg Prod.fst replied).symm⟩

/-- What a run so far says of one challenge: whatever is stored under it is what was issued, and
unless that is marked as consumed, nobody has consumed it. -/
structure CeremonyInv (K : Config) (c : Nat) (log : List Deed) (w : World) : Prop where
  issued : ∀ e ∈ log, ∀ p u, IssuedBy K c p u e → c < w.auth.supply
  taken : ∀ e ∈ log, consumes K c e = true → c < w.auth.supply
  agree : ∀ e ∈ log, ∀ e' ∈ log, ∀ p u p' u', IssuedBy K c p u e → IssuedBy K c p' u' e' →
    p = p' ∧ u = u'
  row : ∀ row, w.challenges.get? (K.auth.prims.hashToken c) = some row →
    c < w.auth.supply ∧ ∀ e ∈ log, ∀ p u, IssuedBy K c p u e → row.purpose = p ∧ row.userId = u
  fresh : ∀ row, w.challenges.get? (K.auth.prims.hashToken c) = some row → row.consumedAt = none →
    ∀ e ∈ log, consumes K c e = false
  once : (log.filter (consumes K c)).length ≤ 1
  record : ∀ e ∈ log, ∀ e' ∈ log, ∀ p r p' u, ConsumedBy K c p r e → IssuedBy K c p' u e' →
    p = p' ∧ r.userId = u

theorem CeremonyInv.start : CeremonyInv K c [] .empty where
  issued := by simp
  taken := by simp
  agree := by simp
  row := by
    rintro row stored
    cases stored
  fresh := by simp
  once := by simp
  record := by simp

/-- A deed that is about other challenges, whatever else it deletes. -/
theorem CeremonyInv.quiet {w' : World} (inv : CeremonyInv K c log e.before)
    (other : ∀ p u, ¬IssuedBy K c p u e) (other' : consumes K c e = false)
    (grown : e.before.auth.supply ≤ w'.auth.supply)
    (kept : ∀ row, w'.challenges.get? (K.auth.prims.hashToken c) = some row →
      e.before.challenges.get? (K.auth.prims.hashToken c) = some row) :
    CeremonyInv K c (log ++ [e]) w' := by
  have issuer (e' : Deed) (there : e' ∈ log ++ [e]) (p u) (issued : IssuedBy K c p u e') : e' ∈ log := by
    rcases List.mem_append.mp there with earlier | now
    · exact earlier
    · obtain rfl := List.mem_singleton.mp now
      exact absurd issued (other p u)
  have consumer (e' : Deed) (there : e' ∈ log ++ [e]) (used : consumes K c e' = true) : e' ∈ log := by
    rcases List.mem_append.mp there with earlier | now
    · exact earlier
    · obtain rfl := List.mem_singleton.mp now
      rw [other'] at used
      cases used
  constructor
  · intro e' there p u issued
    exact Nat.lt_of_lt_of_le (inv.issued e' (issuer e' there p u issued) p u issued) grown
  · intro e' there used
    exact Nat.lt_of_lt_of_le (inv.taken e' (consumer e' there used) used) grown
  · intro e₁ there₁ e₂ there₂ p u p' u' issued₁ issued₂
    exact inv.agree e₁ (issuer _ there₁ _ _ issued₁) e₂ (issuer _ there₂ _ _ issued₂) p u p' u'
      issued₁ issued₂
  · intro row stored
    obtain ⟨drawn, same⟩ := inv.row row (kept row stored)
    refine ⟨Nat.lt_of_lt_of_le drawn grown, fun e' there p u issued => ?_⟩
    exact same e' (issuer e' there p u issued) p u issued
  · intro row stored unused e' there
    cases used : consumes K c e' with
    | false => rfl
    | true => exact used ▸ inv.fresh row (kept row stored) unused e' (consumer e' there used)
  · rw [List.filter_append, List.filter_cons_of_neg (by rw [other']; exact Bool.false_ne_true),
      List.filter_nil, List.append_nil]
    exact inv.once
  · intro e₁ there₁ e₂ there₂ p r p' u consumed issued
    have used : consumes K c e₁ = true := consumes_iff.mpr ⟨p, r, consumed⟩
    exact inv.record e₁ (consumer _ there₁ used) e₂ (issuer _ there₂ _ _ issued) p r p' u consumed issued

/-- The challenge is issued: nothing was known of it. -/
theorem CeremonyInv.issue (inv : CeremonyInv K c log e.before) {email : Option String}
    (op : e.op = .issue purpose userId email) (drawn : c = e.before.auth.supply) :
    CeremonyInv K c (log ++ [e]) (e.after (machine K)) := by
  obtain ⟨thread, req, op', input, before⟩ := e
  obtain rfl : op' = _ := op
  obtain rfl : c = before.auth.supply := drawn
  have unissued : ∀ e ∈ log, ∀ p u, ¬IssuedBy K before.auth.supply p u e := fun e there p u issued =>
    absurd (inv.issued e there p u issued) (Nat.lt_irrefl _)
  have unused : ∀ e ∈ log, consumes K before.auth.supply e = false := by
    intro e there
    cases used : consumes K before.auth.supply e with
    | false => rfl
    | true => exact absurd (inv.taken e there used) (Nat.lt_irrefl _)
  generalize hnow : (⟨thread, req, .issue purpose userId email, input, before⟩ : Deed) = now
  have mine : ∀ p u, IssuedBy K before.auth.supply p u now → p = purpose ∧ u = userId := by
    rintro p u issued
    obtain ⟨⟨email', same⟩, -⟩ := issued.drawn
    rw [← hnow] at same
    obtain ⟨rfl, rfl, -⟩ := Call.issue.inj same
    exact ⟨rfl, rfl⟩
  have only : ∀ e ∈ log ++ [now], ∀ p u, IssuedBy K before.auth.supply p u e →
      p = purpose ∧ u = userId := by
    intro e there p u issued
    rcases List.mem_append.mp there with earlier | last
    · exact absurd issued (unissued e earlier p u)
    · obtain rfl := List.mem_singleton.mp last
      exact mine p u issued
  have idle : ∀ e ∈ log ++ [now], consumes K before.auth.supply e = false := by
    intro e there
    rcases List.mem_append.mp there with earlier | last
    · exact unused e earlier
    · obtain rfl := List.mem_singleton.mp last
      rw [← hnow]
      rfl
  have next : now.after (machine K) = (before.issue K purpose userId email input.now).2 := by
    rw [← hnow]
    rfl
  have grown : before.auth.supply < (now.after (machine K)).auth.supply := by
    rw [next]
    change before.auth.supply < before.auth.supply + 2
    omega
  constructor
  · exact fun _ _ _ _ _ => grown
  · exact fun _ _ _ => grown
  · intro e₁ there₁ e₂ there₂ p u p' u' issued₁ issued₂
    obtain ⟨rfl, rfl⟩ := only e₁ there₁ p u issued₁
    obtain ⟨rfl, rfl⟩ := only e₂ there₂ p' u' issued₂
    exact ⟨rfl, rfl⟩
  · intro row stored
    refine ⟨grown, fun e there p u issued => ?_⟩
    obtain ⟨rfl, rfl⟩ := only e there p u issued
    rw [next, World.issue, InMemoryWebAuthnChallengeStore.issue, OrdMap.get?_set_self] at stored
    obtain rfl := Option.some.inj stored
    exact ⟨rfl, rfl⟩
  · exact fun _ _ _ => idle
  · rw [List.filter_eq_nil_iff.mpr fun e there => by rw [idle e there]; exact Bool.false_ne_true]
    exact Nat.zero_le 1
  · intro e₁ there₁ e₂ there₂ p r p' u consumed issued
    have used := idle e₁ there₁
    rw [consumes_iff.mpr ⟨p, r, consumed⟩] at used
    cases used

theorem ConsumedBy.unique {p : WebAuthnCeremonyPurpose} {r : WebAuthnChallengeRecord}
    (consumed : ConsumedBy K c purpose record e) (consumed' : ConsumedBy K c p r e) :
    purpose = p ∧ record = r := by
  have same : (⟨.consume c purpose, some record⟩ : Event ports) = ⟨.consume c p, some r⟩ :=
    consumed.symm.trans consumed'
  obtain ⟨-, rfl⟩ := Call.consume.inj (congrArg Event.op same)
  exact ⟨rfl, Option.some.inj (eq_of_heq (Event.mk.inj same).2)⟩

/-- What is consumed was there and unused, and is marked from now on. -/
theorem ConsumedBy.marked (consumed : ConsumedBy K c purpose record e) :
    ∃ row at_, e.before.challenges.get? (K.auth.prims.hashToken c) = some row ∧
      row.purpose = purpose ∧ row.consumedAt = none ∧ record = row.toWebAuthnChallengeRecord ∧
        (e.after (machine K)).challenges = e.before.challenges.set (K.auth.prims.hashToken c)
          { row with consumedAt := some at_ } ∧ (e.after (machine K)).auth = e.before.auth := by
  obtain ⟨thread, req, op, input, before⟩ := e
  obtain ⟨op', replied⟩ := Entry.of_event consumed
  obtain rfl : op = _ := op'
  have replied : (before.challenges.consume (K.auth.prims.hashToken c) purpose input.now).1 =
      some record := replied
  obtain ⟨row, stored, purpose_, unused, record_, marked⟩ :=
    InMemoryWebAuthnChallengeStore.consume_some replied
  exact ⟨row, input.now, stored, purpose_, unused, record_, marked, rfl⟩

/-- The challenge is consumed: it was there, and nobody had consumed it. -/
theorem CeremonyInv.consume (inv : CeremonyInv K c log e.before)
    (consumed : ConsumedBy K c purpose record e) :
    CeremonyInv K c (log ++ [e]) (e.after (machine K)) := by
  obtain ⟨row, at_, stored, purpose_, unused, record_, challenges, auth_⟩ := consumed.marked
  obtain ⟨drawn, same⟩ := inv.row row stored
  have idle := inv.fresh row stored unused
  have used : consumes K c e = true := consumes_iff.mpr ⟨_, _, consumed⟩
  have issuer (e' : Deed) (there : e' ∈ log ++ [e]) (p u) (issued : IssuedBy K c p u e') : e' ∈ log := by
    rcases List.mem_append.mp there with earlier | last
    · exact earlier
    · obtain rfl := List.mem_singleton.mp last
      obtain ⟨⟨email, op⟩, -⟩ := issued.drawn
      obtain ⟨op', -⟩ := Entry.of_event consumed
      exact nomatch op.symm.trans op'
  have stored' (row' : ChallengeRow)
      (there : (e.after (machine K)).challenges.get? (K.auth.prims.hashToken c) = some row') :
      row' = { row with consumedAt := some at_ } := by
    rw [challenges, OrdMap.get?_set_self] at there
    exact (Option.some.inj there).symm
  constructor
  · intro e' there p u issued
    rw [auth_]
    exact inv.issued e' (issuer e' there p u issued) p u issued
  · intro e' there _
    rw [auth_]
    exact drawn
  · intro e₁ there₁ e₂ there₂ p u p' u' issued₁ issued₂
    exact inv.agree e₁ (issuer _ there₁ _ _ issued₁) e₂ (issuer _ there₂ _ _ issued₂) p u p' u'
      issued₁ issued₂
  · intro row' there
    obtain rfl := stored' row' there
    rw [auth_]
    exact ⟨drawn, fun e' there p u issued => same e' (issuer e' there p u issued) p u issued⟩
  · intro row' there none_
    obtain rfl := stored' row' there
    cases none_
  · rw [List.filter_append, List.filter_eq_nil_iff.mpr fun e' there => by
      rw [idle e' there]; exact Bool.false_ne_true, List.filter_cons_of_pos used]
    exact Nat.le_refl 1
  · intro e₁ there₁ e₂ there₂ p r p' u consumed' issued
    obtain ⟨same₁, same₂⟩ := same e₂ (issuer e₂ there₂ p' u issued) p' u issued
    rcases List.mem_append.mp there₁ with earlier | last
    · have idle' := idle e₁ earlier
      rw [consumes_iff.mpr ⟨p, r, consumed'⟩] at idle'
      cases idle'
    · obtain rfl := List.mem_singleton.mp last
      obtain ⟨rfl, rfl⟩ := consumed.unique consumed'
      rw [← purpose_, record_]
      exact ⟨same₁, same₂⟩

theorem CeremonyInv.next (collisionFree : Function.Injective K.auth.prims.hashToken)
    (inv : CeremonyInv K c log e.before) : CeremonyInv K c (log ++ [e]) (e.after (machine K)) := by
  by_cases used : consumes K c e = true
  · obtain ⟨purpose, record, consumed⟩ := consumes_iff.mp used
    exact inv.consume consumed
  have used := Bool.eq_false_iff.mpr used
  by_cases issued : ∃ p u, IssuedBy K c p u e
  · obtain ⟨p, u, issued⟩ := issued
    obtain ⟨⟨email, op⟩, drawn⟩ := issued.drawn
    exact inv.issue op drawn
  have other : ∀ p u, ¬IssuedBy K c p u e := fun p u now => issued ⟨p, u, now⟩
  obtain ⟨thread, req, op, input, before⟩ := e
  cases op with
  | issue p u email =>
    refine inv.quiet other used (Nat.le_add_right _ 2) fun row stored => ?_
    have away : K.auth.prims.hashToken before.auth.supply ≠ K.auth.prims.hashToken c := by
      intro same
      refine other p u ⟨email, before.auth.supply + 1, ?_⟩
      rw [← collisionFree same]
      rfl
    exact (OrdMap.get?_set_ne before.challenges _ away).symm.trans stored
  | consume c' p =>
    refine inv.quiet other used (Nat.le_refl _) fun row stored => ?_
    have stored : (before.challenges.consume (K.auth.prims.hashToken c') p input.now).2.get?
        (K.auth.prims.hashToken c) = some row := stored
    cases replied : (before.challenges.consume (K.auth.prims.hashToken c') p input.now).1 with
    | none => rwa [InMemoryWebAuthnChallengeStore.consume_none replied] at stored
    | some record =>
      obtain ⟨row', -, -, -, -, marked⟩ := InMemoryWebAuthnChallengeStore.consume_some replied
      have away : K.auth.prims.hashToken c' ≠ K.auth.prims.hashToken c := by
        intro same
        obtain rfl := collisionFree same
        have taken : consumes K c' ⟨thread, req, .consume c' p, input, before⟩ = true := by
          simp only [consumes, BEq.rfl, Bool.true_and]
          exact Option.isSome_iff_exists.mpr ⟨record, replied⟩
        rw [used] at taken
        cases taken
      rw [marked] at stored
      exact (OrdMap.get?_set_ne before.challenges _ away).symm.trans stored
  | deleteExpired =>
    refine inv.quiet other used (Nat.le_refl _) fun row stored => ?_
    have stored : (before.challenges.deleteExpired input.now).get? (K.auth.prims.hashToken c) =
        some row := stored
    rw [InMemoryWebAuthnChallengeStore.deleteExpired, OrdMap.get?_filter,
      Option.filter_eq_some_iff] at stored
    exact stored.1
  | auth call => exact inv.quiet other used Auth.perform_supply fun row stored => stored
  | _ => exact inv.quiet other used (Nat.le_refl _) fun row stored => stored

end Inv

/-! ### What the ceremonies of a run lead to -/

/-- A request that consumed the challenge opens a session or stores a credential. -/
def leadsTo (K : Config) (log : List Deed) (c : Nat) (e : Deed) : Bool :=
  Call.yields e.op && log.any fun e' => e'.thread == e.thread && consumes K c e'

section Runs

variable {K : Config} {c : Nat} {w₀ : World} {cond : List Deed → Deed → Prop}
  {before after log : List Deed} {e e' : Deed} {pool : Pool ports World Request (Except AuthError Response)}

theorem ceremony_inv (collisionFree : Function.Injective K.auth.prims.hashToken)
    (recorded : Pool.Recorded (system K) .empty cond log pool) :
    CeremonyInv K c log (ending (machine K) .empty log) := by
  refine recorded.induct (P := fun log => CeremonyInv K c log (ending (machine K) .empty log)) .start ?_
  intro log e _ _ from_ _ inv
  have from_ : e.before = ending (machine K) .empty log := from_
  rw [← from_] at inv
  rw [ending_snoc]
  exact inv.next collisionFree

theorem users_drawn (recorded : Pool.Recorded (system K) .empty cond log pool) :
    (ending (machine K) .empty log).auth.users.Drawn (ending (machine K) .empty log).auth.supply := by
  refine recorded.induct (P := fun log => (ending (machine K) .empty log).auth.users.Drawn
    (ending (machine K) .empty log).auth.supply) (fun _ _ stored => nomatch stored) ?_
  intro log e _ _ from_ _ drawn
  have from_ : e.before = ending (machine K) .empty log := from_
  rw [← from_] at drawn
  rw [ending_snoc]
  obtain ⟨thread, req, op, input, before⟩ := e
  cases op with
  | auth call => exact Auth.perform_users_drawn drawn
  | issue => exact drawn.mono (Nat.le_add_right _ 2)
  | _ => exact drawn

theorem deed_asked (recorded : Pool.Recorded (system K) w₀ cond (before ++ e :: after) pool) :
    CeremonyAsks e.req (own (machine K) before e.thread) e.op :=
  recorded.asks (handle_asks e.req)

/-- Only the request that presents a challenge consumes it. -/
theorem consumer (recorded : Pool.Recorded (system K) w₀ cond log pool) (done : e ∈ log)
    {p : WebAuthnCeremonyPurpose} {r : WebAuthnChallengeRecord} (consumed : ConsumedBy K c p r e) :
    e.req.ceremony = some (c, p) := by
  obtain ⟨before, after, rfl⟩ := List.append_of_mem done
  obtain ⟨op, -⟩ := Entry.of_event consumed
  exact (deed_asked recorded).consumed c p op

/-- Whatever a challenge leads to, some request consumed it as what it presents it as. -/
theorem leader (recorded : Pool.Recorded (system K) w₀ cond log pool) (done : e ∈ log)
    (leads : leadsTo K log c e = true) :
    Call.yields e.op = true ∧ ∃ e₀ ∈ log, e₀.thread = e.thread ∧
      ∃ p r, ConsumedBy K c p r e₀ ∧ e.req.ceremony = some (c, p) := by
  simp only [leadsTo, Bool.and_eq_true, List.any_eq_true, beq_iff_eq] at leads
  obtain ⟨yields, e₀, done₀, same, used⟩ := leads
  obtain ⟨p, r, consumed⟩ := consumes_iff.mp used
  refine ⟨yields, e₀, done₀, same, p, r, consumed, ?_⟩
  rw [← recorded.same_req done₀ done same]
  exact consumer recorded done₀ consumed

/-- A request yields once. -/
theorem yields_once (recorded : Pool.Recorded (system K) w₀ cond (before ++ e :: after) pool)
    {p : WebAuthnCeremonyPurpose} (mine : e.req.ceremony = some (c, p))
    (yields : Call.yields e.op = true) (earlier : e' ∈ before) (yields' : Call.yields e'.op = true) :
    e'.thread ≠ e.thread := by
  intro same
  have asked := deed_asked recorded
  have none_ : ∀ ev ∈ own (machine K) before e.thread, Call.yields ev.op = false := by
    generalize e.op = op at asked yields
    cases op with
    | auth call =>
      cases call with
      | createSession n user context => exact (asked.session c p mine n user context rfl).2.2
      | _ => cases yields
    | register userId id pem => exact (asked.stored userId id pem rfl).2
    | _ => cases yields
  have none_' := none_ (e'.event (machine K)) (mem_own.mpr ⟨e', earlier, same, rfl⟩)
  rw [show (e'.event (machine K)).op = e'.op from rfl, yields'] at none_'
  cases none_'

end Runs

end Finverse.Webauthn
