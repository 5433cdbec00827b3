import Finverse.Webauthn.CredentialStores
import Mathlib.Data.List.Flatten
import Mathlib.Data.List.Induction

/-! A passkey belongs to one user. The Postgres table sees to it; in memory it is up to those who
register, who must bring ids that are not stored. -/

namespace Finverse.Webauthn

/-! ### What is asked of a store -/

namespace CredentialStore

variable (S : CredentialStore)

/-- Each credential id is stored at most once, and so for at most one user. -/
def Unique (st : S.State) : Prop := (S.ids st).Nodup

/-- A registration of a stored id is rejected and leaves the store as it was. -/
def Rejects (st : S.State) (change : Change × Moment) : Prop :=
  ∀ userId credential createdAt, change.1 = .register userId credential createdAt →
    credential.credentialId ∈ S.ids st →
      (∃ e, (S.apply change.1 change.2 st).1 = .error e) ∧ (S.apply change.1 change.2 st).2 = st

/-- All along a sequence of changes, passkeys belong to one user. -/
structure BelongToOne (changes : List (Change × Moment)) : Prop where
  unique : ∀ before after, changes = before ++ after → S.Unique (S.run before S.empty)
  rejects : ∀ before change after, changes = before ++ change :: after →
    S.Rejects (S.run before S.empty) change

/-- No registration of the sequence brings an id that is stored. -/
def NewIds (changes : List (Change × Moment)) : Prop :=
  ∀ before change after, changes = before ++ change :: after →
    ∀ userId credential createdAt, change.1 = .register userId credential createdAt →
      credential.credentialId ∉ S.ids (S.run before S.empty)

variable {S}

@[simp] theorem run_snoc (changes : List (Change × Moment)) (change : Change × Moment) (st : S.State) :
    S.run (changes ++ [change]) st = (S.apply change.1 change.2 (S.run changes st)).2 := by
  simp [run]

/-- What every change keeps, as long as each meets a condition where it is made. -/
theorem run_keeps {P : S.State → Prop} {ok : S.State → Change × Moment → Prop} (start : P S.empty)
    (step : ∀ st change, ok st change → P st → P (S.apply change.1 change.2 st).2)
    {changes : List (Change × Moment)}
    (all : ∀ before change after, changes = before ++ change :: after →
      ok (S.run before S.empty) change) : P (S.run changes S.empty) := by
  induction changes using List.reverseRecOn with
  | nil => exact start
  | append_singleton changes change ih =>
    rw [run_snoc]
    refine step _ _ (all changes change [] rfl) (ih fun before earlier after split => ?_)
    exact all before earlier (after ++ [change]) (by rw [split, List.append_assoc, List.cons_append])

end CredentialStore

/-! ### Postgres -/

namespace PostgresWebAuthnCredentialStore

variable {st : PostgresWebAuthnCredentialStore}

theorem ids_nodup (st : PostgresWebAuthnCredentialStore) : postgres.Unique st := by
  have same : postgres.ids st = st.rows.map fun row => row.credential.credentialId := by
    simp [CredentialStore.ids, postgres, owned]
  change (postgres.ids st).Nodup
  rw [same]
  exact st.unique

/-- The unique index refuses the tuple. -/
theorem insert_refused {known : Bool} {row : CredentialRow}
    (stored : row.credential.credentialId ∈ st.rows.map fun row => row.credential.credentialId) :
    ∃ violation, Sql.insert (CredentialRow.table known) .abort [row] st = .error violation := by
  obtain ⟨old, there, same⟩ := List.mem_map.mp stored
  have found : st.lookup row.credential.credentialId = some old := by
    rw [← same]
    exact Table.Keyed.lookup_of_mem there
  cases taken : row.accept with
  | error violation => exact ⟨violation, Sql.insert_refused taken⟩
  | ok new =>
    have kept : new = row := by
      unfold CredentialRow.accept at taken
      grind
    subst kept
    refine ⟨.unique "webauthn_credentials_global_id_idx", ?_⟩
    simp [Sql.insert, Sql.insertTuple, taken, found, bind, Except.bind, throw, throwThe,
      MonadExceptOf.throw]

theorem register_refused {known : Bool} {userId : Nat} {credential : WebAuthnCredential}
    {createdAt : Date} (stored : credential.credentialId ∈ postgres.ids st) :
    (∃ e, (register st known userId credential createdAt).1 = .error e) ∧
      (register st known userId credential createdAt).2 = st := by
  have stored' : credential.credentialId ∈ st.rows.map fun row => row.credential.credentialId := by
    simpa [CredentialStore.ids, postgres, owned] using stored
  obtain ⟨violation, refused⟩ : ∃ violation, Sql.insert (CredentialRow.table known) .abort
      [⟨userId, { credential with createdAt, lastUsedAt := none }⟩] st = .error violation :=
    insert_refused stored'
  simp only [register, refused]
  cases violation <;> exact ⟨⟨_, rfl⟩, rfl⟩

end PostgresWebAuthnCredentialStore

theorem postgres_belongToOne (changes : List (Change × Moment)) : postgres.BelongToOne changes where
  unique := fun before _ _ => PostgresWebAuthnCredentialStore.ids_nodup (postgres.run before postgres.empty)
  rejects := by
    rintro before ⟨change, moment⟩ after - userId credential createdAt rfl stored
    exact PostgresWebAuthnCredentialStore.register_refused stored

/-! ### In memory -/

namespace InMemoryWebAuthnCredentialStore

variable {st : InMemoryWebAuthnCredentialStore} {userId : Nat}

/-- The ids of a bucket, and those of the others. -/
theorem ids_put (st : InMemoryWebAuthnCredentialStore) (userId : Nat) :
    ∃ rest, (inMemory.ids st).Perm ((st.bucket userId).map WebAuthnCredential.credentialId ++ rest) ∧
      ∀ rows, (inMemory.ids (st.put userId rows)).Perm
        (rows.map WebAuthnCredential.credentialId ++ rest) := by
  have listed (st : InMemoryWebAuthnCredentialStore) : inMemory.ids st =
      st.byUser.entries.flatMap fun e => e.2.map WebAuthnCredential.credentialId := by
    simp [CredentialStore.ids, inMemory, owned, List.map_flatMap, Function.comp_def]
  obtain ⟨rest, old, new⟩ := st.byUser.flatMap_set userId
    fun _ rows => rows.map WebAuthnCredential.credentialId
  refine ⟨rest, ?_, fun rows => ?_⟩
  · rw [listed]
    refine old.trans (List.Perm.of_eq ?_)
    rw [bucket]
    cases st.byUser.get? userId <;> rfl
  · rw [listed]
    exact new rows

/-- A bucket may lose ids, as far as uniqueness goes. -/
theorem unique_put {rows : List WebAuthnCredential} (unique : inMemory.Unique st)
    (fewer : (rows.map WebAuthnCredential.credentialId).Sublist
      ((st.bucket userId).map WebAuthnCredential.credentialId)) :
    inMemory.Unique (st.put userId rows) := by
  obtain ⟨rest, old, new⟩ := ids_put st userId
  exact (new rows).nodup_iff.mpr ((old.nodup_iff.mp unique).sublist (fewer.append_right rest))

theorem unique_opened (unique : inMemory.Unique st) : inMemory.Unique (st.opened userId) :=
  unique_put unique (List.Sublist.refl _)

/-- A bucket may gain an id that is stored nowhere. -/
theorem unique_register {credential : WebAuthnCredential} {createdAt : Date}
    (unique : inMemory.Unique st) (new_ : credential.credentialId ∉ inMemory.ids st) :
    inMemory.Unique (st.register userId credential createdAt) := by
  obtain ⟨rest, old, new⟩ := ids_put st userId
  refine (new _).nodup_iff.mpr ?_
  rw [List.map_append, List.append_assoc]
  have moved : ((st.bucket userId).map WebAuthnCredential.credentialId ++
      (credential.credentialId :: rest)).Perm (credential.credentialId ::
        ((st.bucket userId).map WebAuthnCredential.credentialId ++ rest)) := List.perm_middle
  refine moved.nodup_iff.mpr (List.nodup_cons.mpr ⟨?_, old.nodup_iff.mp unique⟩)
  exact fun there => new_ (old.mem_iff.mpr there)

theorem unique_updateCounter {credentialId : String} {counter : Int} {now : Date}
    (unique : inMemory.Unique st) :
    inMemory.Unique (st.updateCounter userId credentialId counter now).2 := by
  unfold updateCounter
  split
  · exact unique_opened unique
  · split
    · have kept : (Table.modify WebAuthnCredential.credentialId credentialId
          (·.advanced counter now) (st.bucket userId)).map WebAuthnCredential.credentialId =
            (st.bucket userId).map WebAuthnCredential.credentialId :=
        Table.map_key_modify fun _ _ => rfl
      refine unique_put unique ?_
      rw [kept]
    · exact unique_opened unique

theorem unique_purgeUser (unique : inMemory.Unique st) : inMemory.Unique (st.purgeUser userId) := by
  refine unique.sublist (List.Sublist.map _ (List.Sublist.flatMap ?_ _))
  exact List.filter_sublist

/-- Every change but the registration of a stored id keeps the ids unique. -/
theorem unique_apply {change : Change × Moment} (unique : inMemory.Unique st)
    (new_ : ∀ userId credential createdAt, change.1 = .register userId credential createdAt →
      credential.credentialId ∉ inMemory.ids st) :
    inMemory.Unique (inMemory.apply change.1 change.2 st).2 := by
  obtain ⟨change, moment⟩ := change
  cases change with
  | register userId credential createdAt => exact unique_register unique (new_ _ _ _ rfl)
  | list userId => exact unique_opened unique
  | updateCounter userId credentialId counter => exact unique_updateCounter unique
  | remove userId credentialId => exact unique_put unique (List.eraseP_sublist.map _)
  | purgeUser userId => exact unique_purgeUser unique

end InMemoryWebAuthnCredentialStore

theorem inMemory_belongToOne_iff (changes : List (Change × Moment)) :
    inMemory.BelongToOne changes ↔ inMemory.NewIds changes := by
  constructor
  · rintro belong before ⟨change, moment⟩ after split userId credential createdAt rfl stored
    -- The bucket takes the credential, whatever is stored.
    obtain ⟨⟨e, refused⟩, -⟩ := belong.rejects before _ after split _ _ _ rfl stored
    cases refused
  · intro new_
    constructor
    · intro before after split
      let addsNew (st : inMemory.State) (change : Change × Moment) : Prop :=
        ∀ userId credential createdAt, change.1 = .register userId credential createdAt →
          credential.credentialId ∉ inMemory.ids st
      have step : ∀ st change, addsNew st change → inMemory.Unique st →
          inMemory.Unique (inMemory.apply change.1 change.2 st).2 := fun _ _ adds unique =>
        InMemoryWebAuthnCredentialStore.unique_apply unique adds
      refine CredentialStore.run_keeps List.nodup_nil step ?_
      intro earlier change later split'
      refine new_ earlier change (later ++ after) ?_
      rw [split, split', List.append_assoc, List.cons_append]
    · intro before change after split userId credential createdAt asked stored
      exact absurd stored (new_ before change after split userId credential createdAt asked)

/-- Under both stores passkeys belong to one user all along a sequence of changes if and only if no
registration brings an id that the one in memory has. -/
theorem passkeys_belong_to_one_iff (changes : List (Change × Moment)) :
    inMemory.BelongToOne changes ∧ postgres.BelongToOne changes ↔ inMemory.NewIds changes := by
  rw [inMemory_belongToOne_iff]
  exact and_iff_left (postgres_belongToOne changes)

/-- Two users register one credential id. -/
def claimedTwice : List (Change × Moment) :=
  let credential : WebAuthnCredential := ⟨"cred-1", "pem-1", 0, 0, none⟩
  [(.register 1 credential 0, ⟨0, true⟩), (.register 2 { credential with publicKeyPem := "pem-2" } 1, ⟨1, true⟩)]

/-- Two users register one credential id, and both have it. -/
theorem claimed_twice : ¬(inMemory.BelongToOne claimedTwice ∧ postgres.BelongToOne claimedTwice) := by
  rintro ⟨belong, -⟩
  have unique := belong.unique claimedTwice [] rfl
  have shared : ¬(inMemory.ids (inMemory.run claimedTwice inMemory.empty)).Nodup := by decide
  exact shared unique

end Finverse.Webauthn
