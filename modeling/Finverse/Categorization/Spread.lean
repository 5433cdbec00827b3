import Finverse.Categorization.Corrections

/-! How far a correction reaches: the other transactions it changes, and the descriptors that its rule
matches from then on. -/

namespace Finverse.Categorization

open Auth (includes)
open Ledger (Transaction)

/-! ### The characters that are left of a descriptor -/

/-- Every character is one of the text, or a blank. -/
def Within (cs left : List Char) : Prop := ∀ c ∈ left, c = ' ' ∨ c ∈ cs

theorem Within.refl (cs : List Char) : Within cs cs := fun _ stored => .inr stored

theorem Within.subset {cs left left' : List Char} (h : Within cs left) (sub : left' ⊆ left) :
    Within cs left' := fun c stored => h c (sub stored)

theorem trimmed_sublist (cs : List Char) : (trimmed cs).Sublist cs := by
  have front : (trimmed cs).Sublist (cs.dropWhile Auth.isJsSpace) := by
    rw [trimmed, ← List.reverse_sublist, List.reverse_reverse]
    exact (List.dropWhile_suffix _).sublist
  exact front.trans (List.dropWhile_suffix _).sublist

theorem withoutPrefix_sublist (cs : List Char) : (withoutPrefix cs).Sublist cs := by
  unfold withoutPrefix
  split
  · exact (trimmed_sublist _).trans (List.drop_sublist _ _)
  · exact List.Sublist.refl cs

theorem withoutReference_sublist (cs : List Char) : (withoutReference cs).Sublist cs := by
  unfold withoutReference
  split
  · exact (trimmed_sublist _).trans (List.take_sublist _ _)
  · exact List.Sublist.refl cs

theorem withoutRegion_sublist (cs : List Char) : (withoutRegion cs).Sublist cs := by
  unfold withoutRegion
  dsimp only
  split
  · rw [← List.reverse_sublist, List.reverse_reverse]
    exact (List.dropWhile_suffix _).sublist.trans (List.drop_sublist _ _)
  · exact List.Sublist.refl cs

variable {pattern : Option Char → List Char → Nat} {cs left : List Char}

theorem blankMatches_within (before : Option Char) (rest : Nat) (left : List Char) :
    Within left (blankMatches pattern before rest left) := by
  induction left generalizing before rest with
  | nil => simp [Within, blankMatches]
  | cons d left ih =>
    have more {before : Option Char} {rest : Nat} {c : Char}
        (stored : c ∈ blankMatches pattern before rest left) : c = ' ' ∨ c ∈ d :: left :=
      (ih before rest c stored).imp_right (List.mem_cons_of_mem d)
    intro c stored
    cases rest with
    | succ rest => exact more stored
    | zero =>
      rw [blankMatches] at stored
      split at stored
      · rcases List.mem_cons.mp stored with rfl | stored
        · exact .inr List.mem_cons_self
        · exact more stored
      · rcases List.mem_cons.mp stored with rfl | stored
        · exact .inl rfl
        · exact more stored

theorem Within.blanked (h : Within cs left) : Within cs (blanked pattern left) := by
  intro c stored
  rcases blankMatches_within none 0 left c stored with blank | kept
  · exact .inl blank
  · exact h c kept

theorem normalizeChars_within (cs : List Char) : Within cs (normalizeChars cs) := by
  have start : Within cs (withoutReference (withoutPrefix (trimmed cs))) :=
    (Within.refl cs).subset ((withoutReference_sublist _).trans
      ((withoutPrefix_sublist _).trans (trimmed_sublist cs))).subset
  unfold normalizeChars
  apply Within.subset _ ((trimmed_sublist _).trans (withoutRegion_sublist _)).subset
  apply Within.subset (Within.blanked (Within.blanked _)) (trimmed_sublist _).subset
  apply Within.subset (Within.blanked (Within.blanked (Within.blanked _))) (trimmed_sublist _).subset
  exact start.blanked.blanked.blanked

theorem blankMatches_length_le (before : Option Char) (rest : Nat) (left : List Char) :
    (blankMatches pattern before rest left).length ≤ left.length := by
  fun_induction blankMatches pattern before rest left with
  | case1 => simp
  | case2 _ _ _ _ ih => exact ih.trans (Nat.le_succ _)
  | case3 _ _ _ _ ih => simpa using ih
  | case4 _ _ _ _ _ ih => simpa using ih

theorem blanked_length_le (left : List Char) : (blanked pattern left).length ≤ left.length :=
  blankMatches_length_le none 0 left

theorem normalizeChars_length_le_body (cs : List Char) :
    (normalizeChars cs).length ≤ (withoutReference (withoutPrefix (trimmed cs))).length := by
  unfold normalizeChars
  apply ((trimmed_sublist _).trans (withoutRegion_sublist _)).length_le.trans
  apply (trimmed_sublist _).length_le.trans
  apply (blanked_length_le _).trans
  apply (blanked_length_le _).trans
  apply (trimmed_sublist _).length_le.trans
  apply (blanked_length_le _).trans
  apply (blanked_length_le _).trans
  apply (blanked_length_le _).trans
  apply (blanked_length_le _).trans
  exact (blanked_length_le _).trans (blanked_length_le _)

theorem normalizeChars_length_le (cs : List Char) : (normalizeChars cs).length ≤ cs.length :=
  (normalizeChars_length_le_body cs).trans ((withoutReference_sublist _).trans
    ((withoutPrefix_sublist _).trans (trimmed_sublist cs))).length_le

/-- A text of blanks and of characters of a lower-cased text stays as it is. -/
def KeepsLowered (toLowerCase : String → String) : Prop :=
  ∀ s t : String, Within (toLowerCase s).toList t.toList → toLowerCase t = t

theorem KeepsLowered.normalizeDescriptor {toLowerCase : String → String} (h : KeepsLowered toLowerCase)
    (raw : String) :
    toLowerCase (normalizeDescriptor toLowerCase raw) = normalizeDescriptor toLowerCase raw := by
  apply h raw
  rw [Categorization.normalizeDescriptor, String.toList_ofList]
  exact normalizeChars_within _

theorem KeepsLowered.empty {toLowerCase : String → String} (h : KeepsLowered toLowerCase) :
    toLowerCase "" = "" := h "" "" (by simp [Within])

/-! ### What a correction reaches -/

variable {X : TextContext} {w w' : Workspace} {input : RecategorizeInput} {result : Recategorized}
  {rule : CategorizationRule} {rows txns : List Transaction} {id transactionId : String}

/-- The correction reaches no transaction and no descriptor but those that contain what the corrected
descriptor is reduced to, and that is something. -/
structure Confined (X : TextContext) (w w' : Workspace) (corrected : Transaction)
    (rule : CategorizationRule) : Prop where
  rows : ∀ id, id ≠ corrected.id →
    TransactionStore.get w'.transactions id ≠ TransactionStore.get w.transactions id →
      normalizeDescriptor X.toLowerCase corrected.rawDescriptor ≠ "" ∧
        ∃ t, TransactionStore.get w.transactions id = some t ∧
          includes t.normalizedDescriptor
            (normalizeDescriptor X.toLowerCase corrected.rawDescriptor) = true
  later : ∀ rawDescriptor, rawDescriptor ≠ corrected.rawDescriptor →
    matchesRule X rule (normalizeDescriptor X.toLowerCase rawDescriptor) = true →
      normalizeDescriptor X.toLowerCase corrected.rawDescriptor ≠ "" ∧
        includes (normalizeDescriptor X.toLowerCase rawDescriptor)
          (normalizeDescriptor X.toLowerCase corrected.rawDescriptor) = true

theorem get_update (rows : List Transaction) (id : String) (patch : CategoryPatch) (other : String) :
    TransactionStore.get (TransactionStore.update rows id patch) other =
      if other = id then (TransactionStore.get rows id).map patch.apply
      else TransactionStore.get rows other :=
  Table.lookup_modify (fun t found => (Table.lookup_key found : t.id = id)) other

theorem update_ids (rows : List Transaction) (id : String) (patch : CategoryPatch) :
    (TransactionStore.update rows id patch).map Transaction.id = rows.map Transaction.id :=
  Table.map_key_modify fun _ _ => rfl

theorem includes_of_reapply (changed : TransactionStore.get (reapply rule transactionId txns rows).2 id ≠
      TransactionStore.get rows id) :
    ∃ txn ∈ txns, txn.id = id ∧ includes txn.normalizedDescriptor rule.pattern = true := by
  induction txns generalizing rows with
  | nil => exact absurd rfl changed
  | cons txn txns ih =>
    rw [reapply] at changed
    split at changed
    · obtain ⟨other, stored, found⟩ := ih changed
      exact ⟨other, List.mem_cons_of_mem txn stored, found⟩
    · rename_i hit
      rw [not_or, not_or, not_not] at hit
      by_cases same : txn.id = id
      · exact ⟨txn, List.mem_cons_self, same, hit.2.2⟩
      · have kept := get_update rows txn.id ⟨rule.categorySlug, .userRule, 1⟩ id
        rw [if_neg (Ne.symm same)] at kept
        rw [← kept] at changed
        obtain ⟨other, stored, found⟩ := ih changed
        exact ⟨other, List.mem_cons_of_mem txn stored, found⟩

/-- The request, taken apart. -/
theorem recategorize_ok (createRule : input.createRule = true)
    (done : recategorize X w input = .ok (result, w')) : ∃ existing rule,
      TransactionStore.get w.transactions input.transactionId = some existing ∧
      rule = ruleFromCorrection X existing.rawDescriptor input.categorySlug
        ("rule_" ++ toString input.now ++ "_" ++ lastSix existing.id) ∧
      result.transaction = (⟨input.categorySlug, .userManual, 1⟩ : CategoryPatch).apply existing ∧
      w'.rules = InMemoryRuleStore.create w.rules rule ∧
      w'.transactions = (reapply rule input.transactionId
        (TransactionStore.list X (TransactionStore.update w.transactions input.transactionId
          ⟨input.categorySlug, .userManual, 1⟩))
        (TransactionStore.update w.transactions input.transactionId
          ⟨input.categorySlug, .userManual, 1⟩)).2 := by
  unfold recategorize at done
  obtain ⟨-, -, done⟩ := bind_ok done
  obtain ⟨existing, found, done⟩ := bind_ok done
  dsimp only at done
  rw [if_pos createRule] at done
  obtain ⟨rfl, rfl⟩ := Prod.mk.inj (Except.ok.inj done)
  refine ⟨existing, _, ?_, rfl, rfl, rfl, rfl⟩
  unfold orThrow at found
  split at found
  · cases found
  · rename_i stored
    rw [stored, Except.ok.inj found]

theorem matchesRule_correction (lowered : KeepsLowered X.toLowerCase)
    (rawDescriptor categorySlug id normalized : String) :
    matchesRule X (ruleFromCorrection X rawDescriptor categorySlug id) normalized =
      includes normalized (normalizeDescriptor X.toLowerCase rawDescriptor) := by
  rw [matchesRule, ruleFromCorrection, lowered.normalizeDescriptor]

theorem includes_empty (s : String) : includes s "" = true := by simp [includes]

/-- The rows that the correction changes contain the pattern of its rule. -/
theorem changed_row (ids : (w.transactions.map Transaction.id).Nodup) (other : id ≠ transactionId)
    {patch : CategoryPatch}
    (changed : TransactionStore.get (reapply rule transactionId (TransactionStore.list X
      (TransactionStore.update w.transactions transactionId patch))
      (TransactionStore.update w.transactions transactionId patch)).2 id ≠
        TransactionStore.get w.transactions id) :
    ∃ t, TransactionStore.get w.transactions id = some t ∧
      includes t.normalizedDescriptor rule.pattern = true := by
  have kept := get_update w.transactions transactionId patch id
  rw [if_neg other] at kept
  rw [← kept] at changed ⊢
  obtain ⟨t, listed, rfl, found⟩ := includes_of_reapply changed
  have stored : t ∈ TransactionStore.update w.transactions transactionId patch :=
    (List.mem_insertionSort _).mp listed
  have unique := (update_ids w.transactions transactionId patch).symm ▸ ids
  exact ⟨t, Table.lookup_of_mem unique stored, found⟩

/-- A correction reaches only what contains the corrected descriptor, if and only if something is left
of that descriptor once it is normalized. -/
theorem recategorize_confined_iff (X : TextContext) (lowered : KeepsLowered X.toLowerCase)
    (w w' : Workspace) (ids : (w.transactions.map Transaction.id).Nodup) (input : RecategorizeInput)
    (createRule : input.createRule = true) (result : Recategorized)
    (done : recategorize X w input = .ok (result, w')) :
    ∃ rule, w'.rules = InMemoryRuleStore.create w.rules rule ∧
      (Confined X w w' result.transaction rule ↔
        normalizeDescriptor X.toLowerCase result.transaction.rawDescriptor ≠ "") := by
  obtain ⟨existing, rule, found, rfl, corrected, rules, transactions⟩ := recategorize_ok createRule done
  have raw : result.transaction.rawDescriptor = existing.rawDescriptor := by
    rw [corrected]
    rfl
  have same : result.transaction.id = input.transactionId := by
    rw [corrected]
    exact (Table.lookup_key found : existing.id = input.transactionId)
  refine ⟨_, rules, ?_⟩
  constructor
  · intro confined
    have other : result.transaction.rawDescriptor ++ "a" ≠ result.transaction.rawDescriptor := by
      intro equal
      have length := congrArg String.length equal
      rw [String.length_append] at length
      exact absurd length (by simp)
    by_contra empty
    rw [raw] at empty
    refine (confined.later _ other ?_).1 (raw ▸ empty)
    rw [matchesRule_correction lowered, empty]
    exact includes_empty _
  · intro some_
    constructor
    · intro id other changed
      rw [same] at other
      rw [transactions] at changed
      obtain ⟨t, stored, contains⟩ := changed_row ids other changed
      exact ⟨some_, t, stored, raw ▸ contains⟩
    · intro rawDescriptor _ hit
      rw [matchesRule_correction lowered] at hit
      exact ⟨some_, raw ▸ hit⟩

/-! ### A descriptor of which nothing is left -/

theorem toList_toLower (s : String) : s.toLower.toList = s.toList.map Char.toLower :=
  String.toList_map

theorem toLower_kept {c : Char} (other : ¬(c.val ≥ 'A'.val ∧ c.val ≤ 'Z'.val)) : c.toLower = c :=
  dif_neg other

/-- A capital becomes a small letter. -/
theorem toLower_toNat {c : Char} (upper : c.val ≥ 'A'.val ∧ c.val ≤ 'Z'.val) :
    97 ≤ c.toLower.val.toNat ∧ c.toLower.val.toNat ≤ 122 := by
  have shifted : c.toLower.val = c.val + 32 := congrArg Char.val (dif_pos upper)
  simp only [ge_iff_le, UInt32.le_iff_toNat_le] at upper
  have sum : (c.val + 32).toNat = c.val.toNat + 32 := by
    rw [UInt32.toNat_add]
    have last : 'Z'.val.toNat = 90 := rfl
    have width : (32 : UInt32).toNat = 32 := rfl
    omega
  have last : 'Z'.val.toNat = 90 := rfl
  have first : 'A'.val.toNat = 65 := rfl
  rw [shifted, sum]
  omega

theorem toLower_toLower (c : Char) : c.toLower.toLower = c.toLower := by
  by_cases upper : c.val ≥ 'A'.val ∧ c.val ≤ 'Z'.val
  · have lower : ¬(c.toLower.val ≥ 'A'.val ∧ c.toLower.val ≤ 'Z'.val) := by
      rintro ⟨-, below⟩
      rw [UInt32.le_iff_toNat_le] at below
      have small := toLower_toNat upper
      have last : 'Z'.val.toNat = 90 := rfl
      omega
    exact toLower_kept lower
  · rw [toLower_kept upper, toLower_kept upper]

theorem toLower_keepsLowered : KeepsLowered String.toLower := by
  intro s t within
  rw [String.ext_iff, toList_toLower]
  refine (List.map_congr_left fun c stored => ?_).trans (List.map_id _)
  rcases within c stored with rfl | lowered
  · rfl
  · rw [toList_toLower] at lowered
    obtain ⟨d, -, rfl⟩ := List.mem_map.mp lowered
    exact toLower_toLower d

/-- A row whose descriptor names a channel, and no merchant. -/
def channel : Transaction :=
  { cafe with
    id := "txn_checking_p00002"
    providerTxnId := "p00002"
    rawDescriptor := "POS DEBIT"
    normalizedDescriptor := "" }

def channelCorrected : RecategorizeInput := ⟨"txn_checking_p00002", "restaurants", true, 1780000000000⟩

theorem recategorize_channel : ∃ result w', recategorize ascii ⟨[cafe, channel], []⟩ channelCorrected =
    .ok (result, w') ∧ result.transaction.id = channel.id ∧
      result.transaction.rawDescriptor = channel.rawDescriptor ∧ TransactionStore.get w'.transactions cafe.id =
        some { cafe with categorySlug := "restaurants", categorySource := .userRule, categoryConfidence := 1 } := by
  refine ⟨_, _, rfl, rfl, rfl, ?_⟩
  decide +kernel

/-- After a correction of the channel, the coffee bar is a restaurant too. -/
theorem channel_not_confined : ¬∀ (w w' : Workspace) (input : RecategorizeInput) (result : Recategorized),
    (w.transactions.map Transaction.id).Nodup → input.createRule = true →
      recategorize ascii w input = .ok (result, w') → ∃ rule,
        w'.rules = InMemoryRuleStore.create w.rules rule ∧ Confined ascii w w' result.transaction rule := by
  intro confined
  obtain ⟨result, w', done, id, raw, changed⟩ := recategorize_channel
  obtain ⟨rule, -, reached⟩ := confined _ _ _ _ (by decide) rfl done
  have empty : normalizeDescriptor ascii.toLowerCase channel.rawDescriptor = "" := by decide +kernel
  have before : TransactionStore.get [cafe, channel] cafe.id = some cafe := rfl
  refine (reached.rows cafe.id (by rw [id]; decide) ?_).1 (raw ▸ empty)
  rw [changed, before]
  decide

/-- A correction of the coffee bar stays with it. -/
theorem cafe_confined : ∃ result w' rule,
    recategorize ascii ⟨[cafe, channel], []⟩ ⟨"txn_checking_p00001", "coffee", true, 1780000000000⟩ =
      .ok (result, w') ∧ Confined ascii ⟨[cafe, channel], []⟩ w' result.transaction rule := by
  refine ⟨_, _, _, rfl, ((recategorize_confined_iff ascii toLower_keepsLowered ⟨[cafe, channel], []⟩ _
    (by decide) ⟨"txn_checking_p00001", "coffee", true, 1780000000000⟩ rfl _ rfl).choose_spec.2).mpr ?_⟩
  decide +kernel

end Finverse.Categorization
