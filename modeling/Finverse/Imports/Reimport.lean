import Finverse.Imports.Undo
import Mathlib.Tactic.Linarith

/-! Importing a file again. -/

namespace Finverse.Imports

open Categorization (CategorizationRule normalizeDescriptor)
open Ledger

/-! ### Being a duplicate -/

/-- The transaction alone would make the candidate a duplicate. -/
def looksLike (c : Candidate) (t : Transaction) : Bool :=
  (confidenceOf c t).any fun confidence => DUPLICATE_CONFIDENCE_THRESHOLD ≤ confidence

section Duplicates

variable {c : Candidate} {t t' : Transaction}

/-- The strongest match passes the threshold when any does. -/
theorem bestMatch_passes (c : Candidate) (existing : List Transaction)
    (best : Option DuplicateMatch) :
    ((bestMatch c existing best).any fun m => DUPLICATE_CONFIDENCE_THRESHOLD ≤ m.confidence) =
      ((best.any fun m => DUPLICATE_CONFIDENCE_THRESHOLD ≤ m.confidence) ||
        existing.any (looksLike c)) := by
  induction existing generalizing best with
  | nil => simp [bestMatch]
  | cons t existing ih =>
    rw [bestMatch, List.any_cons, ← Bool.or_assoc]
    cases hconfidence : confidenceOf c t with
    | none => simp [ih, looksLike, hconfidence]
    | some confidence =>
      dsimp only
      rw [ih]
      congr 1
      cases best with
      | none => simp [looksLike, hconfidence]
      | some m =>
        by_cases stronger : m.confidence < confidence
        · have passes : DUPLICATE_CONFIDENCE_THRESHOLD ≤ m.confidence →
              DUPLICATE_CONFIDENCE_THRESHOLD ≤ confidence := fun h => h.trans stronger.le
          simpa [looksLike, hconfidence, stronger] using passes
        · have passes : DUPLICATE_CONFIDENCE_THRESHOLD ≤ confidence →
              DUPLICATE_CONFIDENCE_THRESHOLD ≤ m.confidence := fun h => h.trans (not_lt.mp stronger)
          simpa [looksLike, hconfidence, stronger] using passes

theorem findDuplicate_isSome (c : Candidate) (existing : List Transaction) :
    (findDuplicate c existing).isSome = existing.any (looksLike c) := by
  have passes := bestMatch_passes c existing none
  rw [Option.any_none, Bool.false_or] at passes
  rw [findDuplicate, ← passes]
  cases bestMatch c existing none with
  | none => rfl
  | some m =>
    by_cases passed : DUPLICATE_CONFIDENCE_THRESHOLD ≤ m.confidence <;> simp [Option.filter, passed]

/-- What a transaction is compared by. -/
def Alike (t t' : Transaction) : Prop :=
  t'.postedAt = t.postedAt ∧ t'.amount = t.amount ∧
    t'.normalizedDescriptor = t.normalizedDescriptor

theorem looksLike_congr (alike : Alike t t') (h : looksLike c t = true) : looksLike c t' = true := by
  obtain ⟨postedAt, amount, normalized⟩ := alike
  rw [looksLike, confidenceOf, postedAt, amount, normalized]
  exact h

/-- A transaction of the candidate's own facts. -/
theorem looksLike_self (dated : ∃ year month day, Parts c.postedAt year month day)
    (postedAt : t.postedAt = c.postedAt) (amount : t.amount = c.amount)
    (normalized : t.normalizedDescriptor = c.normalizedDescriptor) : looksLike c t = true := by
  obtain ⟨year, month, day, parts⟩ := dated
  have gap : daysApart c.postedAt c.postedAt = some 0 := by simp [daysApart, parts.parseDay]
  have similar : similarity c.normalizedDescriptor c.normalizedDescriptor = 1 := by simp [similarity]
  simp only [looksLike, confidenceOf, postedAt, amount, normalized, gap, similar]
  norm_num [DUPLICATE_CONFIDENCE_THRESHOLD]

end Duplicates

/-! ### A second review -/

section Review

variable {R : ReviewContext} {input : ReviewInput} {accepted accepted' later : List Transaction}
  {line : Nat} {rows : List (List String)} {c : Candidate}

/-- What a row says does not depend on the ledger. -/
theorem readRow_existing (later : List Transaction) (line : Nat) (raw : List String) :
    readRow R { input with existing := later } line raw = readRow R input line raw := by
  cases input
  dsimp only [readRow, readAmount, cellOf]

theorem matchOf_isSome : (matchOf input accepted c).isSome =
    (input.existing.any (looksLike c) || accepted.any (looksLike c)) := by
  rw [matchOf, Option.isSome_or, findDuplicate_isSome, findDuplicate_isSome]

/-- A transaction like this one is held. -/
def Held (later : List Transaction) (t : Transaction) : Prop := ∃ t' ∈ later, Alike t t'

theorem looksLike_of_held {existing : List Transaction} (held : ∀ t ∈ existing, Held later t)
    (h : existing.any (looksLike c) = true) : later.any (looksLike c) = true := by
  obtain ⟨t, stored, looks⟩ := List.any_eq_true.mp h
  obtain ⟨t', stored', alike⟩ := held t stored
  exact List.any_eq_true.mpr ⟨t', stored', looksLike_congr alike looks⟩

/-- The decision on a row when all that could be imported before is held. -/
def decisionAgain (row again : ReviewedRow) : Prop :=
  again.decision = if row.decision = .invalid then .invalid else .duplicate

theorem not_importRow_of_again {before after : List ReviewedRow}
    (again : List.Forall₂ decisionAgain before after) :
    ∀ row ∈ after, row.decision ≠ .importRow := by
  induction again with
  | nil => simp
  | cons decided _ ih =>
    refine List.forall_mem_cons.mpr ⟨?_, ih⟩
    rw [decided]
    split <;> decide

/-- Against a ledger that holds what the first review was made against and what it let through,
nothing passes a second review. -/
theorem reviewFrom_again (before : ∀ t ∈ input.existing, Held later t)
    (passed : ∀ t ∈ accepted, Held later t)
    (imported : ∀ row ∈ reviewFrom R input accepted line rows, row.decision = .importRow →
      ∃ t ∈ later, row.postedAt = some t.postedAt ∧ row.amount = some t.amount ∧
        row.normalizedDescriptor = some t.normalizedDescriptor) :
    List.Forall₂ decisionAgain (reviewFrom R input accepted line rows)
      (reviewFrom R { input with existing := later } accepted' line rows) := by
  induction rows generalizing accepted line with
  | nil => exact .nil
  | cons raw rows ih =>
    rw [reviewFrom] at imported ⊢
    rw [reviewFrom, readRow_existing later]
    cases hread : readRow R input line raw with
    | error reason =>
      rw [hread] at imported
      exact .cons (R := decisionAgain) rfl (ih passed fun row stored => imported row (List.mem_cons_of_mem _ stored))
    | ok c =>
      rw [hread] at imported
      dsimp only at imported ⊢
      have again : ∀ accepted'', later.any (looksLike c) = true →
          ∃ m, matchOf { input with existing := later } accepted'' c = some m := by
        intro accepted'' looks
        rw [← Option.isSome_iff_exists, matchOf_isSome, looks, Bool.true_or]
      cases hmatch : matchOf input accepted c with
      | some m =>
        have looks : later.any (looksLike c) = true := by
          have found : (matchOf input accepted c).isSome = true := by rw [hmatch]; rfl
          rw [matchOf_isSome, Bool.or_eq_true] at found
          exact found.elim (looksLike_of_held before) (looksLike_of_held passed)
        obtain ⟨m', found⟩ := again accepted' looks
        rw [hmatch] at imported
        dsimp only
        rw [found]
        exact .cons (R := decisionAgain) rfl (ih passed fun row stored => imported row (List.mem_cons_of_mem _ stored))
      | none =>
        rw [hmatch] at imported
        obtain ⟨t, stored, postedAt, amount, normalized⟩ := imported _ List.mem_cons_self rfl
        have postedAt := (Option.some.inj postedAt).symm
        have amount := (Option.some.inj amount).symm
        have normalized := (Option.some.inj normalized).symm
        have looks : later.any (looksLike c) = true :=
          List.any_eq_true.mpr
            ⟨t, stored, looksLike_self (readRow_ok hread).1 postedAt amount normalized⟩
        obtain ⟨m', found⟩ := again accepted' looks
        dsimp only
        rw [found]
        refine .cons (R := decisionAgain) rfl (ih ?_ fun row stored => imported row (List.mem_cons_of_mem _ stored))
        intro t' stored'
        rcases List.mem_append.mp stored' with old | new
        · exact passed t' old
        · rw [List.mem_singleton.mp new]
          exact ⟨t, stored, postedAt, amount, normalized⟩

end Review

/-! ### What a commit leaves of the ledger -/

section Upsert

variable {t t' t'' : Transaction} {rows txns : List Transaction}

theorem Alike.symm (h : Alike t t') : Alike t' t := ⟨h.1.symm, h.2.1.symm, h.2.2.symm⟩

theorem Alike.trans (h : Alike t t') (h' : Alike t' t'') : Alike t t'' :=
  ⟨h'.1.trans h.1, h'.2.1.trans h.2.1, h'.2.2.trans h.2.2⟩

theorem alike_resync (existing txn : Transaction) :
    Alike txn (InMemoryTransactionStore.resync existing txn) := by
  obtain ⟨-, -, postedAt, amount, -, normalized, -⟩ := resync_fields existing txn
  exact ⟨postedAt, amount, normalized⟩

/-- Rows of one key agree in what they are compared by. -/
def KeysAgree (rows txns : List Transaction) : Prop :=
  ∀ t ∈ rows ++ txns, ∀ t' ∈ txns, t.key = t'.key → Alike t t'

theorem KeysAgree.upsertRow {txn : Transaction} (h : KeysAgree rows (txn :: txns)) :
    KeysAgree (InMemoryTransactionStore.upsertRow rows txn) txns := by
  intro t stored t' sent same
  have sent' : t' ∈ txn :: txns := List.mem_cons_of_mem _ sent
  rcases List.mem_append.mp stored with stored | later
  · rcases Table.mem_upsert stored with old | rfl | ⟨old, held, key, rfl⟩
    · exact h t (List.mem_append_left _ old) t' sent' same
    · exact h t (List.mem_append_right _ List.mem_cons_self) t' sent' same
    · rw [resync_key] at same
      have alike := h txn (List.mem_append_right _ List.mem_cons_self) t' sent' same
      exact (alike_resync old txn).symm.trans alike
  · exact h t (List.mem_append_right _ (List.mem_cons_of_mem _ later)) t' sent' same

/-- A row of the account that looks the same. -/
def Kept (later : List Transaction) (t : Transaction) : Prop :=
  ∃ t' ∈ later, t'.accountId = t.accountId ∧ Alike t t'

theorem kept_upsertRow {txn : Transaction} (h : KeysAgree rows (txn :: txns))
    (stored : t ∈ rows ∨ t = txn) : Kept (InMemoryTransactionStore.upsertRow rows txn) t := by
  have merged : ∀ old, t.key = txn.key → Alike t txn →
      InMemoryTransactionStore.resync old txn ∈ InMemoryTransactionStore.upsertRow rows txn →
      Kept (InMemoryTransactionStore.upsertRow rows txn) t := by
    intro old same alike held
    refine ⟨_, held, ?_, alike.trans (alike_resync old txn)⟩
    exact (congrArg Prod.fst (resync_key old txn)).trans (congrArg Prod.fst same).symm
  rcases stored with stored | rfl
  · have found : t ∈ InMemoryTransactionStore.upsertRow rows txn ∨ t.key = txn.key ∧
        InMemoryTransactionStore.resync t txn ∈ InMemoryTransactionStore.upsertRow rows txn :=
      Table.mem_upsert_of_mem stored
    rcases found with still | ⟨same, held⟩
    · exact ⟨t, still, rfl, rfl, rfl, rfl⟩
    · exact merged t same (h t (List.mem_append_left _ stored) txn List.mem_cons_self same) held
  · have found : t ∈ InMemoryTransactionStore.upsertRow rows t ∨ ∃ old ∈ rows, old.key = t.key ∧
        InMemoryTransactionStore.resync old t ∈ InMemoryTransactionStore.upsertRow rows t :=
      Table.new_mem_upsert
    rcases found with still | ⟨old, -, -, held⟩
    · exact ⟨t, still, rfl, rfl, rfl, rfl⟩
    · exact merged old rfl ⟨rfl, rfl, rfl⟩ held

/-- Nothing that looked like something before or in what is sent stops to do so. -/
theorem kept_upsertMany (h : KeysAgree rows txns) (stored : t ∈ rows ++ txns) :
    Kept (InMemoryTransactionStore.upsertMany rows txns).2 t := by
  rw [InMemoryTransactionStore.upsertMany_rows]
  induction txns generalizing rows t with
  | nil =>
    rw [List.append_nil] at stored
    exact ⟨t, stored, rfl, rfl, rfl, rfl⟩
  | cons txn txns ih =>
    have onwards : ∀ t, t ∈ InMemoryTransactionStore.upsertRow rows txn ++ txns →
        Kept (txns.foldl InMemoryTransactionStore.upsertRow
          (InMemoryTransactionStore.upsertRow rows txn)) t := fun t => ih h.upsertRow
    have first : t ∈ txns ∨ (t ∈ rows ∨ t = txn) := by
      simp only [List.mem_append, List.mem_cons] at stored
      tauto
    rcases first with later | now
    · exact onwards t (List.mem_append_right _ later)
    · obtain ⟨t', held, account, alike⟩ := kept_upsertRow h now
      obtain ⟨t'', held', account', alike'⟩ := onwards t' (List.mem_append_left _ held)
      exact ⟨t'', held', account'.trans account, alike.trans alike'⟩

end Upsert

/-! ### Fingerprints -/

/-- The text that a fingerprint is the digest of. -/
def factsText (t : Transaction) : String :=
  t.accountId ++ "|" ++ t.postedAt ++ "|" ++ toString t.amount ++ "|" ++ t.rawDescriptor

/-- No two rows of files have one fingerprint but for the same facts. -/
def TellsApart (sha256Hex : String → String) (rows : List Transaction) : Prop :=
  ∀ t ∈ rows, ∀ t' ∈ rows, isCsvId t.providerTxnId → isCsvId t'.providerTxnId →
    (sha256Hex (factsText t)).toList.take 32 = (sha256Hex (factsText t')).toList.take 32 →
    factsText t = factsText t'

section Fingerprints

variable {X : ImportsContext} {t t' : Transaction}

/-- A part ends where the first bar stands. -/
theorem eq_of_bar {part part' rest rest' : List Char} (h : '|' ∉ part) (h' : '|' ∉ part')
    (same : part ++ '|' :: rest = part' ++ '|' :: rest') : part = part' ∧ rest = rest' := by
  induction part generalizing part' with
  | nil =>
    cases part' with
    | nil => exact ⟨rfl, (List.cons.inj same).2⟩
    | cons c part' =>
      rw [List.mem_cons, not_or] at h'
      exact absurd (List.cons.inj same).1 h'.1
  | cons c part ih =>
    rw [List.mem_cons, not_or] at h
    cases part' with
    | nil => exact absurd (List.cons.inj same).1.symm h.1
    | cons c' part' =>
      rw [List.mem_cons, not_or] at h'
      obtain ⟨rfl, rest⟩ := List.cons.inj same
      obtain ⟨rfl, hrest⟩ := ih h.2 h'.2 rest
      exact ⟨rfl, hrest⟩

theorem digits_of_repr (n : Nat) : ∀ c ∈ (Nat.repr n).toList, c.isDigit = true := by
  intro c stored
  rw [Nat.toList_repr] at stored
  exact Nat.isDigit_of_mem_toDigits (by decide) (by decide) stored

theorem repr_injective {m n : Nat} (same : Nat.repr m = Nat.repr n) : m = n := by
  have digits := congrArg (fun text => Nat.ofDigitChars 10 text.toList 0) same
  simpa using digits

theorem toString_negSucc (n : Nat) :
    (toString (Int.negSucc n)).toList = '-' :: (Nat.repr (n + 1)).toList := by
  change ("-" ++ Nat.repr (n + 1)).toList = _
  rw [String.toList_append]
  rfl

theorem no_bar_toString (n : Int) : '|' ∉ (toString n).toList := by
  have digits : ∀ n : Nat, '|' ∉ (Nat.repr n).toList :=
    fun n stored => absurd (digits_of_repr n _ stored) (by decide)
  cases n with
  | ofNat n => exact digits n
  | negSucc n =>
    rw [toString_negSucc, List.mem_cons, not_or]
    exact ⟨by decide, digits (n + 1)⟩

theorem toString_injective {m n : Int} (same : (toString m).toList = (toString n).toList) :
    m = n := by
  have sign : ∀ a b : Nat, (Nat.repr a).toList ≠ '-' :: (Nat.repr (b + 1)).toList := by
    intro a b texts
    have minus := digits_of_repr a '-' (texts ▸ List.mem_cons_self)
    exact absurd minus (by decide)
  cases m with
  | ofNat m =>
    cases n with
    | ofNat n => rw [repr_injective (String.toList_inj.mp same : Nat.repr m = Nat.repr n)]
    | negSucc n => exact absurd (same.trans (toString_negSucc n)) (sign m n)
  | negSucc m =>
    rw [toString_negSucc] at same
    cases n with
    | ofNat n => exact absurd same.symm (sign n m)
    | negSucc n =>
      rw [toString_negSucc] at same
      have magnitudes := repr_injective (String.toList_inj.mp (List.cons.inj same).2)
      rw [Nat.succ.inj magnitudes]

/-- The facts can be read off the text. -/
theorem facts_of_text (account : t.accountId = t'.accountId)
    (dated : ∃ year month day, Parts t.postedAt year month day)
    (dated' : ∃ year month day, Parts t'.postedAt year month day)
    (text : factsText t = factsText t') :
    t.postedAt = t'.postedAt ∧ t.amount = t'.amount ∧ t.rawDescriptor = t'.rawDescriptor := by
  obtain ⟨_, _, _, parts⟩ := dated
  obtain ⟨_, _, _, parts'⟩ := dated'
  have chars := congrArg String.toList text
  simp only [factsText, String.toList_append, List.append_assoc, account] at chars
  have afterAccount := List.append_cancel_left (List.append_cancel_left chars)
  obtain ⟨postedAt, afterDate⟩ := eq_of_bar parts.no_bar parts'.no_bar afterAccount
  obtain ⟨amount, descriptor⟩ := eq_of_bar (no_bar_toString _) (no_bar_toString _) afterDate
  exact ⟨String.toList_inj.mp postedAt, toString_injective amount,
    String.toList_inj.mp descriptor⟩

/-- Rows of files under one key are of the same facts. -/
theorem alike_of_key {rows : List Transaction} (tells : TellsApart X.sha256Hex rows)
    (stored : t ∈ rows) (stored' : t' ∈ rows) (h : Imported X t) (h' : Imported X t')
    (same : t.key = t'.key) : Alike t t' := by
  obtain ⟨account, provider⟩ := Prod.mk.inj same
  have digests := congrArg String.toList (h.facts.symm.trans (provider.trans h'.facts))
  simp only [csvId, String.toList_append, String.toList_ofList] at digests
  have text : factsText t = factsText t' := by
    refine tells t stored t' stored' h.isCsvId h'.isCsvId ?_
    simpa only [factsText, String.toList_append] using List.append_cancel_left digests
  obtain ⟨postedAt, amount, descriptor⟩ := facts_of_text account h.dated h'.dated text
  refine ⟨postedAt.symm, amount.symm, ?_⟩
  rw [h.normalized, h'.normalized, descriptor]

end Fingerprints

/-! ### The same file again -/

section Reimport

variable {X : ImportsContext} {st st' : InMemoryImports} {rules : List CategorizationRule}
  {accounts : List Account} {draw : Draw} {input : CommitInput} {account : Account}
  {parsed : ParsedCsv} {batch : ImportBatch}

theorem mem_existing {rows : List Transaction} {t : Transaction} :
    t ∈ ImportsService.existing X account rows ↔ t ∈ rows ∧ t.accountId = account.id := by
  rw [ImportsService.existing, Categorization.TransactionStore.list,
    (List.perm_insertionSort _ _).mem_iff, List.mem_filter, decide_eq_true_eq]

/-- The transaction of a row to be imported has its facts. -/
theorem imported_of_row (C : ImportContext) (account : Account) {rows : List ReviewedRow}
    {row : ReviewedRow} (stored : row ∈ rows) (imported : row.decision = .importRow) :
    ∃ t ∈ Ledger.ImportsService.transactions C account rows, row.postedAt = some t.postedAt ∧
      row.amount = some t.amount ∧ row.normalizedDescriptor = some t.normalizedDescriptor := by
  refine ⟨Ledger.ImportsService.toLedger C account row imported,
    List.mem_filterMap.mpr ⟨row, stored, by simp [imported]⟩, ?_, ?_, ?_⟩
  · exact (Option.some_get _).symm
  · exact (Option.some_get _).symm
  · exact (Option.some_get _).symm

theorem keysAgree (reachable : Reachable X st)
    (tells : TellsApart X.sha256Hex (st.transactions ++
      importedBy X rules draw account input.mapping parsed st.transactions)) :
    KeysAgree st.transactions
      (importedBy X rules draw account input.mapping parsed st.transactions) := by
  intro t stored t' sent same
  have imported' : Imported X t' := transactions_imported sent
  have imported : Imported X t := by
    rcases List.mem_append.mp stored with held | sent
    · have provider : t.providerTxnId = t'.providerTxnId := (Prod.mk.inj same).2
      have csv : isCsvId t.providerTxnId := provider ▸ imported'.isCsvId
      rcases reachable.traceable.2 t held with imported | approved | synced
      · exact imported
      · exact absurd approved.manual (not_manual_of_csv csv)
      · exact absurd csv synced.foreign.1
    · exact transactions_imported sent
  exact alike_of_key tells stored (List.mem_append_right _ sent) imported imported' same

end Reimport

end Finverse.Imports
