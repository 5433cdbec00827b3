import Finverse.Banking.Sync

/-! What a sync leaves in the ledger, against what the aggregator holds. -/

namespace Finverse.Banking

open Finverse.Ledger Delta

/-! ### The provider's facts in a ledger -/

/-- What a ledger row says of the provider's transaction. -/
def facts (t : Transaction) : RawTransaction :=
  ⟨t.providerTxnId, t.accountId, t.postedAt, t.amount, t.currency, t.rawDescriptor, t.pending⟩

@[simp] theorem facts_mapTransaction (C : Categorizer) (raw : RawTransaction) :
    facts (mapTransaction C raw) = raw := rfl

/-- Whatever the user owns, the provider's facts are the ones sent last. -/
theorem facts_resync (existing txn : Transaction) :
    facts (InMemoryTransactionStore.resync existing txn) = facts txn := by
  simp only [InMemoryTransactionStore.resync]
  split <;> rfl

/-- The transactions the aggregator issues for the link, each in one account for ever. -/
structure Bank where
  issues : String → Bool
  home : String → String

namespace Bank

variable (bank : Bank)

/-- The transaction is the link's, in its own account. -/
def Honest (raw : RawTransaction) : Prop :=
  bank.issues raw.providerTxnId = true ∧ raw.accountId = bank.home raw.providerTxnId

def HonestReply : Reply → Prop
  | .page page _ => ∀ raw ∈ page.added ++ page.modified, bank.Honest raw
  | _ => True

/-- One row for each key, and the link's rows in their own accounts. -/
structure Tidy (ledger : List Transaction) : Prop where
  unique : (ledger.map Transaction.key).Nodup
  housed : ∀ k ∈ ledger.map Transaction.key, bank.issues k.2 = true → k.1 = bank.home k.2

/-- The provider's transactions as a ledger has them. -/
def view (ledger : List Transaction) : Collection String RawTransaction := fun id =>
  if bank.issues id then (Table.lookup Transaction.key (bank.home id, id) ledger).map facts
  else none

/-- The link's rows of a ledger. -/
def providerRows (ledger : List Transaction) : List RawTransaction :=
  (ledger.filter fun t => bank.issues t.providerTxnId).map facts

/-- The link's rows are exactly the provider's current transactions. -/
def Mirrors (ledger : List Transaction) (current : Collection String RawTransaction) : Prop :=
  ((bank.providerRows ledger).map RawTransaction.providerTxnId).Nodup ∧
    ∀ raw, raw ∈ bank.providerRows ledger ↔ current raw.providerTxnId = some raw

end Bank

section View

variable {bank : Bank} {ledger : List Transaction} {C : Categorizer}

theorem Bank.Tidy.mem_providerRows (tidy : bank.Tidy ledger) {raw : RawTransaction} :
    raw ∈ bank.providerRows ledger ↔ bank.view ledger raw.providerTxnId = some raw := by
  constructor
  · intro h
    obtain ⟨t, ht, rfl⟩ := List.mem_map.mp h
    obtain ⟨hmem, hissues⟩ := List.mem_filter.mp ht
    have hhome : t.accountId = bank.home t.providerTxnId :=
      tidy.housed t.key (List.mem_map_of_mem hmem) hissues
    have found := Table.lookup_of_mem tidy.unique hmem
    have hissues' : bank.issues (facts t).providerTxnId = true := hissues
    have hkey : (bank.home (facts t).providerTxnId, (facts t).providerTxnId) = t.key := by
      simp [facts, Transaction.key, hhome]
    rw [Bank.view, if_pos hissues', hkey, found]
    rfl
  · intro h
    rw [Bank.view] at h
    split at h
    · rename_i hissues
      obtain ⟨t, ht, rfl⟩ := Option.map_eq_some_iff.mp h
      exact List.mem_map_of_mem (List.mem_filter.mpr ⟨Table.lookup_mem ht, hissues⟩)
    · cases h

/-- The link's rows are determined by the view. -/
theorem Bank.Tidy.mirrors_iff (tidy : bank.Tidy ledger) {current : Collection String RawTransaction}
    (keyed : KeyedBy RawTransaction.providerTxnId current) :
    bank.Mirrors ledger current ↔ bank.view ledger = current := by
  have viewKeyed : KeyedBy RawTransaction.providerTxnId (bank.view ledger) := by
    intro id raw h
    rw [Bank.view] at h
    split at h
    · obtain ⟨t, ht, rfl⟩ := Option.map_eq_some_iff.mp h
      exact congrArg Prod.snd (Table.lookup_key ht)
    · cases h
  constructor
  · rintro ⟨-, hrows⟩
    funext id
    cases hv : bank.view ledger id with
    | some raw =>
      have hid := viewKeyed id raw hv
      subst hid
      exact ((hrows raw).mp (tidy.mem_providerRows.mpr hv)).symm
    | none =>
      cases hc : current id with
      | none => rfl
      | some raw =>
        have hid := keyed id raw hc
        subst hid
        rw [tidy.mem_providerRows.mp ((hrows raw).mpr hc)] at hv
        cases hv
  · rintro rfl
    refine ⟨?_, fun raw => tidy.mem_providerRows⟩
    have unique : ((ledger.filter fun t => bank.issues t.providerTxnId).map
        Transaction.key).Nodup :=
      tidy.unique.sublist (List.filter_sublist.map _)
    refine List.Nodup.of_map (fun id => (bank.home id, id)) ?_
    rw [Bank.providerRows, List.map_map, List.map_map]
    convert unique using 1
    refine List.map_congr_left fun t ht => ?_
    obtain ⟨hmem, hissues⟩ := List.mem_filter.mp ht
    have hhome : t.accountId = bank.home t.providerTxnId :=
      tidy.housed t.key (List.mem_map_of_mem hmem) hissues
    simp [facts, Transaction.key, hhome]

/-- The view is read off the provider's facts. -/
theorem lookup_facts (k : String × String) (ledger : List Transaction) :
    (Table.lookup Transaction.key k ledger).map facts =
      (ledger.map facts).find? fun raw => (raw.accountId, raw.providerTxnId) = k := by
  rw [List.find?_map]
  rfl

theorem view_of_facts {ledger' : List Transaction} (same : ledger.map facts = ledger'.map facts) :
    bank.view ledger = bank.view ledger' := by
  funext id
  rw [Bank.view, Bank.view, lookup_facts, lookup_facts, same]

theorem Bank.Tidy.of_facts (tidy : bank.Tidy ledger) {ledger' : List Transaction}
    (same : ledger.map facts = ledger'.map facts) : bank.Tidy ledger' := by
  have keys : ∀ rows : List Transaction, rows.map Transaction.key =
      (rows.map facts).map fun raw => (raw.accountId, raw.providerTxnId) := by
    intro rows
    rw [List.map_map]
    rfl
  have sameKeys : ledger.map Transaction.key = ledger'.map Transaction.key := by
    rw [keys, keys, same]
  exact ⟨sameKeys ▸ tidy.unique, sameKeys ▸ tidy.housed⟩

theorem resync_key (existing txn : Transaction) :
    (InMemoryTransactionStore.resync existing txn).key = txn.key := by
  simp only [InMemoryTransactionStore.resync]
  split <;> rfl

theorem Bank.Tidy.upsertRow (tidy : bank.Tidy ledger) {raw : RawTransaction}
    (honest : bank.Honest raw) :
    bank.Tidy (InMemoryTransactionStore.upsertRow ledger (mapTransaction C raw)) := by
  refine ⟨Table.nodup_upsert (fun _ _ => resync_key _ _) tidy.unique, ?_⟩
  intro k hk
  rw [InMemoryTransactionStore.upsertRow, Table.map_key_upsert fun _ _ => resync_key _ _] at hk
  split at hk
  · exact tidy.housed k hk
  · rcases List.mem_append.mp hk with hk | hk
    · exact tidy.housed k hk
    · rw [List.mem_singleton.mp hk]
      exact fun _ => honest.2

theorem view_upsertRow {raw : RawTransaction} (honest : bank.Honest raw) :
    bank.view (InMemoryTransactionStore.upsertRow ledger (mapTransaction C raw)) =
      put RawTransaction.providerTxnId (bank.view ledger) raw := by
  funext id
  rw [put, Bank.view, Bank.view]
  by_cases hid : id = raw.providerTxnId
  · have hkey : (bank.home id, id) = (mapTransaction C raw).key := by
      rw [hid, ← honest.2]
      rfl
    have hissues : bank.issues id = true := hid ▸ honest.1
    rw [if_pos hissues, if_pos hid, hkey, InMemoryTransactionStore.upsertRow,
      Table.lookup_upsert_self fun _ _ => resync_key _ _]
    cases Table.lookup Transaction.key (mapTransaction C raw).key ledger with
    | none => rfl
    | some existing => exact congrArg some (facts_resync existing _)
  · have hkey : (bank.home id, id) ≠ (mapTransaction C raw).key :=
      fun h => hid (congrArg Prod.snd h)
    rw [if_neg hid, InMemoryTransactionStore.upsertRow,
      Table.lookup_upsert_ne (fun _ _ => resync_key _ _) hkey]

theorem Bank.Tidy.upsertMany (tidy : bank.Tidy ledger) {raws : List RawTransaction}
    (honest : ∀ raw ∈ raws, bank.Honest raw) :
    bank.Tidy (InMemoryTransactionStore.upsertMany ledger (raws.map (mapTransaction C))).2 ∧
      bank.view (InMemoryTransactionStore.upsertMany ledger (raws.map (mapTransaction C))).2 =
        raws.foldl (put RawTransaction.providerTxnId) (bank.view ledger) := by
  rw [InMemoryTransactionStore.upsertMany_rows]
  induction raws generalizing ledger with
  | nil => exact ⟨tidy, rfl⟩
  | cons raw raws ih =>
    have hraw : bank.Honest raw := honest raw (by simp)
    obtain ⟨htidy, hview⟩ := ih (tidy.upsertRow (C := C) hraw) fun r hr => honest r (by simp [hr])
    refine ⟨htidy, ?_⟩
    rw [List.map_cons, List.foldl_cons, hview, view_upsertRow hraw]
    rfl

theorem Bank.Tidy.removeByProviderIds (tidy : bank.Tidy ledger) (ids : List String) :
    bank.Tidy (InMemoryTransactionStore.removeByProviderIds ledger ids).2 := by
  have sub : ((InMemoryTransactionStore.removeByProviderIds ledger ids).2.map
      Transaction.key).Sublist (ledger.map Transaction.key) := List.filter_sublist.map _
  exact ⟨tidy.unique.sublist sub, fun k hk => tidy.housed k (sub.subset hk)⟩

theorem view_removeByProviderIds (ids : List String) (id : String) :
    bank.view (InMemoryTransactionStore.removeByProviderIds ledger ids).2 id =
      if id ∈ ids then none else bank.view ledger id := by
  have kept : ∀ k : String × String,
      Table.lookup Transaction.key k
          (InMemoryTransactionStore.removeByProviderIds ledger ids).2 =
        if decide (k.2 ∉ ids) = true then Table.lookup Transaction.key k ledger else none :=
    fun _ => Table.lookup_filter (fun k : String × String => decide (k.2 ∉ ids)) fun _ => rfl
  rw [Bank.view, Bank.view, kept]
  by_cases hid : id ∈ ids
  · simp [hid]
  · simp [hid]

end View

end Finverse.Banking
