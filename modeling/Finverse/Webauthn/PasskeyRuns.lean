import Finverse.Webauthn.Ceremonies

/-! Passkey ceremonies over whole runs: single use, purpose, owner, and the counters of a credential. -/

namespace Finverse.Webauthn

open Interleave
open Auth (AuthError User RequestContext)

/-! ### The row of a credential -/

namespace InMemoryWebAuthnCredentialStore

variable {st : InMemoryWebAuthnCredentialStore} {userId userId' : Nat} {id id' : String}

/-- The row that a login of the user's credential goes by: the first with the id. -/
def rowOf (st : InMemoryWebAuthnCredentialStore) (userId : Nat) (id : String) :
    Option WebAuthnCredential :=
  Table.lookup WebAuthnCredential.credentialId id (st.bucket userId)

theorem bucket_put (rows : List WebAuthnCredential) :
    (st.put userId' rows).bucket userId = if userId' = userId then rows else st.bucket userId := by
  rw [bucket, put, OrdMap.get?_set]
  split <;> rfl

theorem rowOf_put (rows : List WebAuthnCredential) : (st.put userId' rows).rowOf userId id =
    if userId' = userId then Table.lookup WebAuthnCredential.credentialId id rows
    else st.rowOf userId id := by
  rw [rowOf, bucket_put]
  split <;> rfl

@[simp] theorem rowOf_opened : (st.opened userId').rowOf userId id = st.rowOf userId id := by
  rw [opened, rowOf_put]
  split
  · rename_i same
    rw [same]
    rfl
  · rfl

/-- A later registration does not hide the row. -/
theorem rowOf_register {credential row : WebAuthnCredential} {createdAt : Date}
    (stored : st.rowOf userId id = some row) :
    (st.register userId' credential createdAt).rowOf userId id = some row := by
  rw [register, rowOf_put]
  split
  · rename_i same
    subst same
    have found : (st.bucket userId').find? (·.credentialId = id) = some row := stored
    rw [Table.lookup, List.find?_append, found]
    rfl
  · exact stored

/-- After a registration there is a row. -/
theorem rowOf_registered {credential : WebAuthnCredential} {createdAt : Date} :
    ∃ row, (st.register userId credential createdAt).rowOf userId credential.credentialId = some row := by
  rw [register, rowOf_put, if_pos rfl]
  exact Option.isSome_iff_exists.mp
    (List.find?_isSome.mpr ⟨{ credential with createdAt }, by simp, by simp⟩)

theorem lookup_eraseP (other : id' ≠ id) (rows : List WebAuthnCredential) :
    Table.lookup WebAuthnCredential.credentialId id (rows.eraseP (·.credentialId = id')) =
      Table.lookup WebAuthnCredential.credentialId id rows := by
  induction rows with
  | nil => rfl
  | cons first rows ih =>
    rw [Table.lookup, Table.lookup] at ih ⊢
    by_cases here : first.credentialId = id'
    · have away : ¬first.credentialId = id := fun there => other (here.symm.trans there)
      simp [here, other]
    · by_cases there : first.credentialId = id
      · simp [there, Ne.symm other]
      · simpa [List.eraseP_cons, here, there] using ih

theorem rowOf_remove (other : ¬(userId' = userId ∧ id' = id)) :
    (st.remove userId' id').2.rowOf userId id = st.rowOf userId id := by
  rw [remove, rowOf_put]
  split
  · rename_i same
    subst same
    exact lookup_eraseP (fun same => other ⟨rfl, same⟩) _
  · rfl

theorem rowOf_purgeUser (other : userId' ≠ userId) :
    (st.purgeUser userId').rowOf userId id = st.rowOf userId id := by
  rw [rowOf, bucket, purgeUser, OrdMap.get?_erase_ne _ other]
  rfl

/-- What a counter update makes of the row: an accepted one advances it to the counter, and any other
leaves it alone. -/
theorem rowOf_updateCounter {counter : Int} {now : Date} {row : WebAuthnCredential}
    (stored : st.rowOf userId id = some row) :
    ∃ row', (st.updateCounter userId' id' counter now).2.rowOf userId id = some row' ∧
      if userId' = userId ∧ id' = id ∧ (st.updateCounter userId' id' counter now).1.isOk = true then
        row.advances counter = true ∧ row'.counter = counter
      else row'.counter = row.counter := by
  unfold updateCounter
  cases found : Table.lookup WebAuthnCredential.credentialId id' (st.bucket userId') with
  | none =>
    refine ⟨row, by simpa using stored, ?_⟩
    rw [if_neg fun same => Bool.false_ne_true same.2.2]
  | some current =>
    by_cases advances : current.advances counter = true
    · simp only [if_pos advances]
      have moved : Table.lookup WebAuthnCredential.credentialId id (Table.modify
          WebAuthnCredential.credentialId id' (·.advanced counter now) (st.bucket userId')) = _ :=
        Table.lookup_modify (fun row found => (Table.lookup_key found : row.credentialId = id')) id
      by_cases mine : userId' = userId ∧ id' = id
      · obtain ⟨rfl, rfl⟩ := mine
        obtain rfl : current = row := Option.some.inj (found.symm.trans stored)
        refine ⟨current.advanced counter now, ?_, ?_⟩
        · rw [rowOf_put, if_pos rfl, moved, if_pos rfl, found]
          rfl
        · rw [if_pos ⟨rfl, rfl, rfl⟩]
          refine ⟨advances, ?_⟩
          simp only [WebAuthnCredential.advanced]
          split <;> omega
      · refine ⟨row, ?_, ?_⟩
        · rw [rowOf_put]
          split
          · rename_i same
            subst same
            rw [moved, if_neg fun same => mine ⟨rfl, same.symm⟩]
            exact stored
          · exact stored
        · rw [if_neg fun same => mine ⟨same.1, same.2.1⟩]
    · simp only [if_neg advances]
      refine ⟨row, by simpa using stored, ?_⟩
      rw [if_neg fun same => Bool.false_ne_true same.2.2]

end InMemoryWebAuthnCredentialStore

/-! ### Counters -/

/-- The call takes the user's credential away. -/
def Call.removes (userId : Nat) (id : String) : Call → Bool
  | .remove userId' id' => userId' == userId && id' == id
  | .purgeUser userId' => userId' == userId
  | _ => false

/-- The counter that a login with the user's credential got accepted. -/
def accepts (userId : Nat) (id : String) (e : Deed) : Option Nat :=
  match e with
  | ⟨_, _, .updateCounter userId' id' counter, input, before⟩ =>
    if userId' = userId ∧ id' = id ∧
        (before.credentials.updateCounter userId' id' counter input.now).1.isOk = true then some counter
    else none
  | _ => none

section Counters

variable {K : Config} {userId : Nat} {id : String} {e : Deed} {row : WebAuthnCredential}

/-- Whatever is done, short of taking the credential away, its row stays, and its counter changes
only with the counters accepted. -/
theorem row_kept (kept : e.op.removes userId id = false)
    (stored : e.before.credentials.rowOf userId id = some row) :
    ∃ row', (e.after (machine K)).credentials.rowOf userId id = some row' ∧
      match accepts userId id e with
      | some counter => row.advances counter = true ∧ row'.counter = counter
      | none => row'.counter = row.counter := by
  obtain ⟨thread, req, op, input, before⟩ := e
  cases op with
  | list userId' =>
    refine ⟨row, ?_, rfl⟩
    exact InMemoryWebAuthnCredentialStore.rowOf_opened.trans stored
  | register userId' id' pem =>
    exact ⟨row, InMemoryWebAuthnCredentialStore.rowOf_register stored, rfl⟩
  | updateCounter userId' id' counter =>
    have stored : before.credentials.rowOf userId id = some row := stored
    obtain ⟨row', stored', moved⟩ : ∃ row', (before.credentials.updateCounter userId' id' counter
        input.now).2.rowOf userId id = some row' ∧ _ :=
      InMemoryWebAuthnCredentialStore.rowOf_updateCounter stored
    refine ⟨row', stored', ?_⟩
    simp only [accepts]
    split at moved
    · rename_i mine
      rw [if_pos mine]
      exact moved
    · rename_i other
      rw [if_neg other]
      exact moved
  | remove userId' id' =>
    refine ⟨row, (InMemoryWebAuthnCredentialStore.rowOf_remove ?_).trans stored, rfl⟩
    rintro ⟨rfl, rfl⟩
    simp [Call.removes] at kept
  | purgeUser userId' =>
    refine ⟨row, (InMemoryWebAuthnCredentialStore.rowOf_purgeUser ?_).trans stored, rfl⟩
    rintro rfl
    simp [Call.removes] at kept
  | _ => exact ⟨row, stored, rfl⟩

/-- The counters accepted so far rise up to that of the row. -/
structure CountersInv (userId : Nat) (id : String) (log : List Deed) (w : World) : Prop where
  stored : ∃ row, w.credentials.rowOf userId id = some row ∧
    ∀ counter ∈ log.filterMap (accepts userId id), (counter : Int) ≤ row.counter
  rising : (log.filterMap (accepts userId id)).Pairwise fun a b => a < b ∨ a = 0 ∧ b = 0

theorem CountersInv.next {log : List Deed} (inv : CountersInv userId id log e.before)
    (kept : e.op.removes userId id = false) :
    CountersInv userId id (log ++ [e]) (e.after (machine K)) := by
  obtain ⟨⟨row, stored, bounded⟩, rising⟩ := inv
  obtain ⟨row', stored', moved⟩ := row_kept (K := K) kept stored
  cases accepted : accepts userId id e with
  | none =>
    have same : (log ++ [e]).filterMap (accepts userId id) = log.filterMap (accepts userId id) := by
      simp [accepted]
    rw [accepted] at moved
    have moved : row'.counter = row.counter := moved
    refine ⟨⟨row', stored', ?_⟩, by rwa [same]⟩
    rw [same, moved]
    exact bounded
  | some counter =>
    have more : (log ++ [e]).filterMap (accepts userId id) =
        log.filterMap (accepts userId id) ++ [counter] := by
      simp [accepted]
    rw [accepted] at moved
    obtain ⟨advances, now⟩ : row.advances counter = true ∧ row'.counter = counter := moved
    simp only [WebAuthnCredential.advances, Bool.or_eq_true, Bool.and_eq_true, decide_eq_true_eq]
      at advances
    have passed (earlier : Nat) (there : earlier ∈ log.filterMap (accepts userId id)) :
        earlier < counter ∨ earlier = 0 ∧ counter = 0 := by
      have below := bounded earlier there
      omega
    refine ⟨⟨row', stored', fun earlier there => ?_⟩, ?_⟩
    · rw [more, List.mem_append, List.mem_singleton] at there
      rcases there with there | rfl
      · have past := passed earlier there
        omega
      · exact Int.le_of_eq now.symm
    · rw [more, List.pairwise_append]
      refine ⟨rising, List.pairwise_singleton _ _, fun earlier there last here => ?_⟩
      obtain rfl := List.mem_singleton.mp here
      exact passed earlier there

variable {w₀ : World} {cond : List Deed → Deed → Prop} {before mid : List Deed}
  {pool : Pool ports World Request (Except AuthError Response)}

/-- From a registration on, until the credential is taken away. -/
theorem counters_inv (recorded : Pool.Recorded (system K) w₀ cond (before ++ e :: mid) pool)
    {pem : String} (op : e.op = .register userId id pem)
    (kept : ∀ e' ∈ mid, e'.op.removes userId id = false) :
    CountersInv userId id mid (ending (machine K) w₀ (before ++ e :: mid)) := by
  have start : ∃ row, (e.after (machine K)).credentials.rowOf userId id = some row := by
    obtain ⟨thread, req, op', input, state⟩ := e
    obtain rfl : op' = _ := op
    let credential : WebAuthnCredential := ⟨id, pem, 0, input.now, none⟩
    obtain ⟨row, stored⟩ : ∃ row, (state.credentials.register userId credential input.now).rowOf userId
        credential.credentialId = some row := InMemoryWebAuthnCredentialStore.rowOf_registered
    exact ⟨row, stored⟩
  have recorded : Pool.Recorded (system K) w₀ cond (before ++ [e] ++ mid) pool := by
    rwa [List.append_assoc, List.singleton_append]
  have main := recorded.since (P := fun mid' : List Deed => (∀ e' ∈ mid', e'.op.removes userId id = false) →
    CountersInv userId id mid' (ending (machine K) w₀ (before ++ [e] ++ mid'))) ?_ ?_ kept
  · rwa [List.append_assoc, List.singleton_append] at main
  · intro _
    rw [List.append_nil, ending_snoc]
    obtain ⟨row, stored⟩ := start
    exact ⟨⟨row, stored, by simp⟩, by simp⟩
  · intro mid' e' rest _ from_ _ inv kept'
    have inv := inv fun e'' there => kept' e'' (List.mem_append_left _ there)
    have from_ : e'.before = ending (machine K) w₀ (before ++ [e] ++ mid') := from_
    rw [← from_] at inv
    rw [← List.append_assoc, ending_snoc]
    exact inv.next (kept' e' (by simp))

end Counters

/-! ### Runs -/

/-- What the ceremonies of a run come to. -/
structure CeremoniesHold (K : Config) (log : List Deed) : Prop where
  /-- A challenge leads to one credential or one session at most. -/
  single : ∀ e ∈ log, ∀ c purpose userId, IssuedBy K c purpose userId e →
    (log.filter (leadsTo K log c)).length ≤ 1
  registration : ∀ e ∈ log, ∀ c userId, IssuedBy K c .register userId e →
    ∀ e' ∈ log, leadsTo K log c e' = true → e'.op.signsIn = false
  login : ∀ e ∈ log, ∀ c userId, IssuedBy K c .login userId e →
    ∀ e' ∈ log, leadsTo K log c e' = true → e'.op.stores = false
  /-- A login challenge that was issued for a user signs in nobody else. -/
  bound : ∀ e ∈ log, ∀ c userId, IssuedBy K c .login (some userId) e →
    ∀ e' ∈ log, leadsTo K log c e' = true → ∀ n user context,
      e'.op = .auth (.createSession n user context) → user.id = userId
  /-- Between the registration of a credential and its removal, the accepted counters rise, but for
  zeros at first. -/
  counters : ∀ before e mid rest userId id pem, log = before ++ e :: (mid ++ rest) →
    e.op = .register userId id pem → (∀ e' ∈ mid, e'.op.removes userId id = false) →
      (mid.filterMap (accepts userId id)).Pairwise fun a b => a < b ∨ a = 0 ∧ b = 0

section Holds

variable {K : Config} {c : Nat} {cond : List Deed → Deed → Prop} {log : List Deed} {e e' : Deed}
  {pool : Pool ports World Request (Except AuthError Response)}

theorem leads_single (collisionFree : Function.Injective K.auth.prims.hashToken)
    (recorded : Pool.Recorded (system K) .empty cond log pool) (c : Nat) :
    (log.filter (leadsTo K log c)).length ≤ 1 := by
  have distinct : ((log.filter (leadsTo K log c)).map Entry.thread).Nodup := by
    refine threads_nodup fun before e after split leads e' earlier leads' => ?_
    have done : e ∈ log := by
      rw [split]
      simp
    obtain ⟨yields, -, -, -, p, r, -, mine⟩ := leader recorded done leads
    have yields' : Call.yields e'.op = true := by
      simp only [leadsTo, Bool.and_eq_true] at leads'
      exact leads'.1
    exact yields_once (split ▸ recorded) mine yields earlier yields'
  have once := (ceremony_inv (c := c) collisionFree recorded).once
  have shared : ∀ e ∈ log.filter (leadsTo K log c), ∀ e' ∈ log.filter (leadsTo K log c),
      e.thread = e'.thread := by
    have used (e : Deed) (listed : e ∈ log.filter (leadsTo K log c)) :
        ∃ e₀ ∈ log.filter (consumes K c), e₀.thread = e.thread := by
      obtain ⟨done, leads⟩ := List.mem_filter.mp listed
      obtain ⟨-, e₀, done₀, same, p, r, consumed, -⟩ := leader recorded done leads
      exact ⟨e₀, List.mem_filter.mpr ⟨done₀, consumes_iff.mpr ⟨p, r, consumed⟩⟩, same⟩
    intro e listed e' listed'
    obtain ⟨e₀, used₀, same⟩ := used e listed
    obtain ⟨e₀', used₀', same'⟩ := used e' listed'
    have one : e₀ = e₀' := by
      rcases hused : log.filter (consumes K c) with _ | ⟨only, _ | ⟨second, rest⟩⟩
      · rw [hused] at used₀
        cases used₀
      · rw [hused, List.mem_singleton] at used₀ used₀'
        exact used₀.trans used₀'.symm
      · rw [hused, List.length_cons, List.length_cons] at once
        omega
    rw [← same, ← same', one]
  rcases hleads : log.filter (leadsTo K log c) with _ | ⟨first, _ | ⟨second, rest⟩⟩
  · exact Nat.zero_le 1
  · exact Nat.le_refl 1
  · rw [hleads] at distinct shared
    have same := shared first (by simp) second (by simp)
    simp [same] at distinct

/-- What a challenge leads to agrees with what it was issued for. -/
theorem leads_purpose (collisionFree : Function.Injective K.auth.prims.hashToken)
    (recorded : Pool.Recorded (system K) .empty cond log pool) (done : e ∈ log)
    {purpose : WebAuthnCeremonyPurpose} {userId : Option Nat} (issued : IssuedBy K c purpose userId e)
    (done' : e' ∈ log) (leads : leadsTo K log c e' = true) :
    e'.req.ceremony = some (c, purpose) := by
  obtain ⟨-, e₀, done₀, -, p, r, consumed, mine⟩ := leader recorded done' leads
  have inv := ceremony_inv (c := c) collisionFree recorded
  obtain ⟨rfl, -⟩ := inv.record e₀ done₀ e done p r purpose userId consumed issued
  exact mine

theorem leads_bound (collisionFree : Function.Injective K.auth.prims.hashToken)
    (recorded : Pool.Recorded (system K) .empty cond log pool) (done : e ∈ log) {userId : Nat}
    (issued : IssuedBy K c .login (some userId) e) (done' : e' ∈ log)
    (leads : leadsTo K log c e' = true) {n : Nat} {user : User} {context : RequestContext}
    (op : e'.op = .auth (.createSession n user context)) : user.id = userId := by
  have mine := leads_purpose collisionFree recorded done issued done' leads
  obtain ⟨before, after, rfl⟩ := List.append_of_mem done'
  have asked := (deed_asked recorded).session c .login mine n user context op
  obtain ⟨-, ⟨r, owner, consumed, allowed, looked⟩, -⟩ := asked
  obtain ⟨e₀, earlier, -, consumed₀⟩ := mem_own.mp consumed
  obtain ⟨e₁, earlier', -, looked₁⟩ := mem_own.mp looked
  have inv := ceremony_inv (c := c) collisionFree recorded
  have mine_ := (inv.record e₀ (by simp [earlier]) e done .login r .login (some userId) consumed₀ issued).2
  obtain rfl := allowed userId mine_
  -- The user was found under the id that the challenge was issued for.
  obtain ⟨before', after', rfl⟩ := List.append_of_mem earlier'
  rw [List.append_assoc, List.cons_append] at recorded
  obtain ⟨from_, -⟩ := recorded.step
  obtain ⟨_, sofar⟩ := recorded.of_append
  have drawn := users_drawn sofar
  have from_ : e₁.before = ending (machine K) .empty before' := from_
  rw [← from_] at drawn
  obtain ⟨-, found⟩ := Entry.of_event looked₁
  have found : e₁.before.auth.users.findById userId = some user := found
  exact (drawn _ _ (Auth.UserStore.findById_some found)).1

end Holds

/-! ### A run -/

/-- A verifier that takes every assertion; an attestation names the credential, and the length of the
authenticator's data is the counter. -/
def sampleConfig : Config where
  auth := Auth.sampleConfig
  available := true
  rpId := "finverse.example"
  rpName := "FINVERSE"
  verifyRegistration := fun _ attestationObject _ => some (attestationObject, "pem")
  verifyAuthentication := fun _ _ _ _ _ _ => true
  readCounter := fun authenticatorData => some authenticatorData.length

/-- Sam signs up, registers a passkey and signs in with it, once with the challenge used twice. -/
def passkeyRun : Pool.Course ports Auth.Env World Request (Except AuthError Response) :=
  let each (n steps : Nat) : List (Pool.Move Auth.Env Request) := List.replicate steps (.run n Auth.noon)
  let body (counter : String) : LoginBody := ⟨"cred-1", 13, "", counter, ""⟩
  Pool.course (system sampleConfig) .empty
    (.start (.auth (.register "sam@example.com" "correct horse battery" none
        ⟨false, none, false, none⟩ Auth.phone)) :: each 0 8 ++
      .start (.registrationOptions ⟨1, "sam@example.com", none, false, 0⟩) :: each 1 2 ++
      .start (.registrationVerify 1 ⟨"cred-1", 10, "", "cred-1"⟩ Auth.phone) :: each 2 6 ++
      .start (.loginOptions (some "sam@example.com")) :: each 3 2 ++
      .start (.loginVerify (body "-") Auth.phone) :: .start (.loginVerify (body "--") Auth.phone) ::
        each 4 1 ++ each 5 1 ++ each 4 13)

end Finverse.Webauthn
