import Finverse.Categorization.Spread
import Finverse.Ledger.Query

/-! The search texts for which the two transaction stores find the same. -/

namespace Finverse.Ledger

open Auth (includes)
open Categorization (Collation KeepsLowered TextContext Within normalizeChars normalizeDescriptor)
open Wildcards (Plain around like)

/-- The stored descriptor is what is left of that of the bank. -/
def Described (X : TextContext) (row : TransactionRow) : Prop :=
  row.normalizedDescriptor = normalizeDescriptor X.toLowerCase row.rawDescriptor

/-- In every ledger the two stores find the same transactions. -/
def SearchAgrees (X : TextContext) (collation : Collation) (search : String) : Prop :=
  ∀ (db : Database) (userId : Nat), (∀ row ∈ db.rowsOf userId, Described X row) →
    ∀ t, t ∈ PostgresTransactionStore.list X collation db userId { search := some search } ↔
      t ∈ InMemoryTransactionStore.list X (db.ledger userId) { search := some search }

/-- Lower case has the marks of a pattern where the text has them. -/
structure KeepsMarks (toLowerCase : String → String) : Prop where
  lowered : KeepsLowered toLowerCase
  around : ∀ s, toLowerCase ("%" ++ s ++ "%") = "%" ++ toLowerCase s ++ "%"
  plain : ∀ s, Plain sqlMarks (toLowerCase s).toList ↔ Plain sqlMarks s.toList

variable {X : TextContext} {collation : Collation} {search column : String} {row : TransactionRow}
  {db : Database} {userId : Nat} {t : Transaction}

/-! ### Plain texts -/

theorem needle_toList (keeps : KeepsMarks X.toLowerCase) (search : String) :
    (X.toLowerCase ("%" ++ search ++ "%")).toList = around sqlMarks (X.toLowerCase search).toList := by
  rw [keeps.around, String.toList_append, String.toList_append]
  rfl

/-- Without marks the pattern is a search for the text. -/
theorem ilike_plain (keeps : KeepsMarks X.toLowerCase) (plain : Plain sqlMarks search.toList)
    (column : String) : ilike X column ("%" ++ search ++ "%") =
      includes (X.toLowerCase column) (X.toLowerCase search) := by
  rw [Bool.eq_iff_iff, ilike, needle_toList keeps,
    Wildcards.like_around_iff ((keeps.plain search).mpr plain), includes, decide_eq_true_iff]

theorem Described.lowered (described : Described X row) (keeps : KeepsMarks X.toLowerCase) :
    X.toLowerCase row.normalizedDescriptor = row.normalizedDescriptor := by
  rw [described]
  exact keeps.lowered.normalizeDescriptor _

theorem searched_plain (keeps : KeepsMarks X.toLowerCase) (plain : Plain sqlMarks search.toList)
    (described : Described X row) : PostgresTransactionStore.searched X search row =
      InMemoryTransactionStore.searched X search (toTransaction row) := by
  simp only [PostgresTransactionStore.searched, InMemoryTransactionStore.searched,
    ilike_plain keeps plain, described.lowered keeps]
  rfl

/-! ### What is listed -/

theorem memory_lists_iff :
    t ∈ InMemoryTransactionStore.list X (db.ledger userId) { search := some search } ↔
      ∃ row ∈ db.rowsOf userId, (search = "" ∨
        InMemoryTransactionStore.searched X search (toTransaction row) = true) ∧ toTransaction row = t := by
  have selects : ∀ t, InMemoryTransactionStore.selects X { search := some search } t =
      (decide (search = "") || InMemoryTransactionStore.searched X search t) := by
    simp [InMemoryTransactionStore.selects, nonEmpty]
  simp only [InMemoryTransactionStore.list, Categorization.TransactionStore.list,
    List.mem_insertionSort, List.mem_filter, Database.ledger, List.mem_map, selects,
    Bool.or_eq_true, decide_eq_true_iff]
  constructor
  · rintro ⟨⟨row, stored, rfl⟩, found⟩
    exact ⟨row, stored, found, rfl⟩
  · rintro ⟨row, stored, found, rfl⟩
    exact ⟨⟨row, stored, rfl⟩, found⟩

theorem postgres_lists_iff :
    t ∈ PostgresTransactionStore.list X collation db userId { search := some search } ↔
      ∃ row ∈ db.rowsOf userId, (search = "" ∨
        PostgresTransactionStore.searched X search row = true) ∧ toTransaction row = t := by
  have selects : ∀ row, PostgresTransactionStore.selects X collation { search := some search } row =
      (decide (search = "") || PostgresTransactionStore.searched X search row) := by
    simp [PostgresTransactionStore.selects, nonEmpty]
  have listed : PostgresTransactionStore.list X collation db userId { search := some search } =
      (((db.rowsOf userId).filter
        (PostgresTransactionStore.selects X collation { search := some search })).insertionSort
          (PostgresTransactionStore.listOrder collation)).map toTransaction := rfl
  simp only [listed, List.mem_map, List.mem_insertionSort, List.mem_filter, selects,
    Bool.or_eq_true, decide_eq_true_iff, and_assoc]

theorem searchAgrees_of_plain (keeps : KeepsMarks X.toLowerCase) (plain : Plain sqlMarks search.toList) :
    SearchAgrees X collation search := by
  intro db userId described t
  rw [postgres_lists_iff, memory_lists_iff]
  apply exists_congr
  intro row
  apply and_congr_right
  intro stored
  rw [searched_plain keeps plain (described row stored)]

/-! ### Texts with marks -/

/-- A row of a ledger of its own. -/
def purchase (rawDescriptor normalizedDescriptor : String) : TransactionRow where
  id := "txn_checking_p00001"
  userId := 1
  accountId := "checking"
  providerTxnId := "p00001"
  postedAt := "2026-05-30"
  amount := -450
  currency := "USD"
  rawDescriptor := rawDescriptor
  normalizedDescriptor := normalizedDescriptor
  merchant := none
  merchantOverride := none
  note := none
  excludedFromAnalytics := false
  categorySlug := "unknown"
  categorySource := .unknown
  categoryConfidence := 0
  isRecurring := false
  recurringOverride := none
  duplicateReported := false
  pending := false
  tags := []
  importBatchId := none

theorem described_purchase (X : TextContext) (rawDescriptor : String) :
    Described X (purchase rawDescriptor (normalizeDescriptor X.toLowerCase rawDescriptor)) := by
  simp only [Described, purchase]

theorem searched_purchase (X : TextContext) (search rawDescriptor normalizedDescriptor : String) :
    PostgresTransactionStore.searched X search (purchase rawDescriptor normalizedDescriptor) =
      (ilike X normalizedDescriptor ("%" ++ search ++ "%") ||
        ilike X rawDescriptor ("%" ++ search ++ "%")) := by
  simp [PostgresTransactionStore.searched, purchase]

theorem searched_toTransaction_purchase (X : TextContext)
    (search rawDescriptor normalizedDescriptor : String) :
    InMemoryTransactionStore.searched X search
        (toTransaction (purchase rawDescriptor normalizedDescriptor)) =
      (includes normalizedDescriptor (X.toLowerCase search) ||
        includes (X.toLowerCase rawDescriptor) (X.toLowerCase search)) := by
  simp [InMemoryTransactionStore.searched, toTransaction, purchase]

def ledgerOf (row : TransactionRow) : Database where
  accounts := [(row.userId, row.accountId)]
  transactions := ⟨[row], by simp⟩
  importBatches := .empty

theorem rowsOf_ledgerOf (row : TransactionRow) : (ledgerOf row).rowsOf row.userId = [row] := by
  simp [ledgerOf, Database.rowsOf]

/-- The two sides disagree on a row. -/
theorem not_searchAgrees (described : Described X row) (notEmpty : search ≠ "")
    (found : PostgresTransactionStore.searched X search row = true)
    (missed : InMemoryTransactionStore.searched X search (toTransaction row) = false) :
    ¬SearchAgrees X collation search := by
  intro agrees
  have same := agrees (ledgerOf row) row.userId (by simpa [rowsOf_ledgerOf] using described)
    (toTransaction row)
  rw [postgres_lists_iff, memory_lists_iff, rowsOf_ledgerOf] at same
  simp [notEmpty, found, missed] at same

theorem not_searchAgrees_of_marks (keeps : KeepsMarks X.toLowerCase)
    (marks : ¬Plain sqlMarks search.toList) : ¬SearchAgrees X collation search := by
  have notEmpty : search ≠ "" := by
    rintro rfl
    exact marks (by decide)
  obtain ⟨filled, matched, within, absent⟩ := Wildcards.exists_like sqlMarks ' '
    (by decide) (by decide) (mt (keeps.plain search).mp marks)
  have lowered : X.toLowerCase (String.ofList filled) = String.ofList filled := by
    apply keeps.lowered ("%" ++ search ++ "%")
    rw [needle_toList keeps, String.toList_ofList]
    intro c stored
    rcases within c stored with blank | mark | old
    · exact .inl blank
    · exact .inr (by simp [around, mark])
    · exact .inr (by simp [around, old])
  have left : (normalizeDescriptor X.toLowerCase (String.ofList filled)).toList = normalizeChars filled := by
    rw [normalizeDescriptor, lowered, String.toList_ofList, String.toList_ofList]
  have raw : ilike X (String.ofList filled) ("%" ++ search ++ "%") = true := by
    rw [ilike, needle_toList keeps, lowered, String.toList_ofList]
    exact matched
  have notRaw : ¬(X.toLowerCase search).toList <:+: (String.ofList filled).toList := by
    rw [String.toList_ofList]
    exact absent filled le_rfl fun c stored => .inr stored
  have notLeft : ¬(X.toLowerCase search).toList <:+:
      (normalizeDescriptor X.toLowerCase (String.ofList filled)).toList := by
    rw [left]
    exact absent _ (Categorization.normalizeChars_length_le filled)
      (Categorization.normalizeChars_within filled)
  apply not_searchAgrees (described_purchase X (String.ofList filled)) notEmpty
  · rw [searched_purchase, raw, Bool.or_true]
  · rw [searched_toTransaction_purchase, lowered, includes, includes, decide_eq_false notLeft,
      decide_eq_false notRaw, Bool.or_false]

/-- The stores find the same if and only if the text has no percent sign, underscore or backslash. -/
theorem search_agrees_iff (X : TextContext) (keeps : KeepsMarks X.toLowerCase) (collation : Collation)
    (search : String) : SearchAgrees X collation search ↔ Plain sqlMarks search.toList := by
  constructor
  · intro agrees
    by_contra marks
    exact not_searchAgrees_of_marks keeps marks agrees
  · exact searchAgrees_of_plain keeps

theorem mem_toLower_iff (s : String) (mark : Char) (mark_small : mark.toNat < 97) (kept : mark.toLower = mark) :
    mark ∈ s.toLower.toList ↔ mark ∈ s.toList := by
  rw [Categorization.toList_toLower, List.mem_map]
  constructor
  · rintro ⟨c, stored, rfl⟩
    by_cases upper : c.val ≥ 'A'.val ∧ c.val ≤ 'Z'.val
    · exact absurd mark_small (Nat.not_lt.mpr (Categorization.toLower_toNat upper).1)
    · rwa [Categorization.toLower_kept upper]
  · intro stored
    exact ⟨mark, stored, kept⟩

theorem toLower_keepsMarks : KeepsMarks String.toLower where
  lowered := Categorization.toLower_keepsLowered
  around s := by
    rw [← String.toList_inj]
    simp [Categorization.toList_toLower]
  plain s := by
    have text := mem_toLower_iff s '%' (by decide) (by decide)
    have symbol := mem_toLower_iff s '_' (by decide) (by decide)
    have escape := mem_toLower_iff s '\\' (by decide) (by decide)
    exact and_congr (not_congr text) (and_congr (not_congr symbol) (not_congr escape))

theorem coffee_agrees : SearchAgrees Categorization.ascii Categorization.ascii.collation "coffee" :=
  (search_agrees_iff Categorization.ascii toLower_keepsMarks _ "coffee").mpr (by decide)

/-- Half of the price is found in five hundred. -/
theorem percent_disagrees :
    ¬SearchAgrees Categorization.ascii Categorization.ascii.collation "50%" := by
  have described : Described Categorization.ascii (purchase "SHOP 500" "shop") := by
    rw [Described]
    decide +kernel
  apply not_searchAgrees described (by decide)
  · decide +kernel
  · decide +kernel

end Finverse.Ledger
