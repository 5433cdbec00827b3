import Finverse.Framework.Paging
import Finverse.Http
import Finverse.Ledger.Query

/-! The pages of a listing, and the ledgers whose pages show every transaction once. -/

namespace Finverse.Ledger

open Categorization (TextContext)
open Categorization.TransactionStore (listOrder)

/-! ### Cursors -/

/-- The Base64url form of the JSON of a cursor. What is read are the two strings, where there are. -/
structure CursorFormat where
  write : PageCursor → String
  read : String → Option (Option String × Option String)
  read_write : ∀ cursor, read (write cursor) = some (some cursor.postedAt, some cursor.id)
  write_ne_empty : ∀ cursor, write cursor ≠ ""

def Transaction.cursor (t : Transaction) : PageCursor := ⟨t.postedAt, t.id⟩

def encodeCursor (F : CursorFormat) (t : Transaction) : String := F.write t.cursor

/-- `^\d{4}-\d{2}-\d{2}$` -/
def isDateShaped (s : String) : Bool :=
  match s.toList with
  | [y₁, y₂, y₃, y₄, '-', m₁, m₂, '-', d₁, d₂] => [y₁, y₂, y₃, y₄, m₁, m₂, d₁, d₂].all Char.isDigit
  | _ => false

def validCursor (cursor : PageCursor) : Bool :=
  isDateShaped cursor.postedAt &&
    decide (1 ≤ Auth.jsLength cursor.id ∧ Auth.jsLength cursor.id ≤ 200)

def decodeCursor (F : CursorFormat) (value : Option String) : Except HttpError (Option PageCursor) :=
  match nonEmpty value with
  | none => pure none
  | some text =>
    match F.read text with
    | some (some postedAt, some id) =>
      if validCursor ⟨postedAt, id⟩ then pure (some ⟨postedAt, id⟩)
      else throw (.badRequest "before must be a valid transaction cursor.")
    | _ => throw (.badRequest "before must be a valid transaction cursor.")

/-! ### Pages -/

structure Page where
  count : Nat
  transactions : List Transaction
  nextCursor : Option String
  deriving DecidableEq, Repr

def nextCursor (F : CursorFormat) (pageSize : Nat) (rows : List Transaction) : Option String :=
  if 0 < rows.length ∧ rows.length = pageSize then rows.getLast?.map (encodeCursor F) else none

section Listing

variable (X : TextContext) (F : CursorFormat) (ledger : List Transaction)

/-- The answer to a request for a page of the rows that a filter selects. -/
def transactionsPage (filter : TransactionQuery) (pageSize : Nat) (before : Option String) :
    Except HttpError Page := do
  let cursor ← decodeCursor F before
  let rows := InMemoryTransactionStore.list X ledger { filter with before := cursor, limit := pageSize }
  return ⟨rows.length, rows, nextCursor F pageSize rows⟩

/-- The transactions of all pages, when `nextCursor` is followed until it is null. There are none when a
request fails, or the number of requests does not suffice. -/
def followPages (filter : TransactionQuery) (pageSize : Nat) : Nat → Option String →
    Option (List Transaction)
  | 0, _ => none
  | requests + 1, before =>
    match transactionsPage X F ledger filter pageSize before with
    | .error _ => none
    | .ok page =>
      match page.nextCursor with
      | none => some page.transactions
      | some cursor =>
        (followPages filter pageSize requests (some cursor)).map (page.transactions ++ ·)

/-- All that a filter selects, the latest first. -/
def matching (filter : TransactionQuery) : List Transaction :=
  InMemoryTransactionStore.list X ledger { filter with before := none, limit := none }

/-- Whatever is filtered and however large the pages are, they show what is selected, each transaction
once and in the order of the list, and every cursor is accepted. -/
def Paginates : Prop :=
  ∀ (filter : TransactionQuery) (pageSize : Nat), 1 ≤ pageSize →
    ∃ requests, followPages X F ledger filter pageSize requests none = some (matching X ledger filter)

/-- Two transactions stand in the list as the cursors compare them. -/
def listedAlike (a b : Transaction) : Bool :=
  if listOrder X a b then InMemoryTransactionStore.isBefore a.cursor b
  else InMemoryTransactionStore.isBefore b.cursor a

/-- The list is in the order of the cursors, and these can be sent back. -/
structure Pageable : Prop where
  ordered : ledger.Pairwise fun a b => listedAlike X a b = true
  valid : ∀ t ∈ ledger, validCursor t.cursor = true

end Listing

/-! ### The order of the cursors -/

variable {X : TextContext} {F : CursorFormat} {ledger : List Transaction} {filter : TransactionQuery}
  {pageSize requests : Nat} {cursor : Option PageCursor}

theorem unitsBefore_iff (a b : String) :
    unitsBefore a b = true ↔ List.Lex (fun x y => x < y) (codeUnits a) (codeUnits b) := by
  rw [unitsBefore, List.lex_eq_true_iff_lex]
  simp only [decide_eq_true_iff]

theorem unitsBefore_irrefl (a : String) : unitsBefore a a = false := by
  rw [Bool.eq_false_iff, Ne, unitsBefore_iff]
  exact List.lt_irrefl (codeUnits a)

theorem unitsBefore_trans {a b c : String} (h : unitsBefore a b = true) (h' : unitsBefore b c = true) :
    unitsBefore a c = true := by
  rw [unitsBefore_iff] at *
  exact List.lt_trans h h'

theorem isBefore_iff (cursor : PageCursor) (t : Transaction) :
    InMemoryTransactionStore.isBefore cursor t = true ↔ unitsBefore t.postedAt cursor.postedAt = true ∨
      t.postedAt = cursor.postedAt ∧ unitsBefore t.id cursor.id = true := by
  simp [InMemoryTransactionStore.isBefore]

theorem isBefore_irrefl (t : Transaction) : InMemoryTransactionStore.isBefore t.cursor t = false := by
  simp [InMemoryTransactionStore.isBefore, Transaction.cursor, unitsBefore_irrefl]

theorem isBefore_trans (cursor : PageCursor) (a b : Transaction)
    (h : InMemoryTransactionStore.isBefore cursor a = true)
    (h' : InMemoryTransactionStore.isBefore a.cursor b = true) :
    InMemoryTransactionStore.isBefore cursor b = true := by
  rw [isBefore_iff] at *
  rcases h with earlier | ⟨same, earlier⟩
  · rcases h' with earlier' | ⟨same', -⟩
    · exact .inl (unitsBefore_trans earlier' earlier)
    · exact .inl (by rwa [same'])
  · rcases h' with earlier' | ⟨same', earlier'⟩
    · exact .inl (by rwa [← same])
    · exact .inr ⟨same'.trans same, unitsBefore_trans earlier' earlier⟩

instance listOrder_total : Std.Total (listOrder X) where
  total a b := by
    by_cases later : X.collation.le b.postedAt a.postedAt = true
    · by_cases earlier : X.collation.le a.postedAt b.postedAt = true
      · exact (X.collation.total b.id a.id).imp (fun id => ⟨later, fun _ => id⟩)
          fun id => ⟨earlier, fun _ => id⟩
      · exact .inl ⟨later, fun again => absurd again earlier⟩
    · have earlier := (X.collation.total a.postedAt b.postedAt).resolve_right later
      exact .inr ⟨earlier, fun again => absurd again later⟩

instance listOrder_trans : IsTrans Transaction (listOrder X) where
  trans a b c h h' := by
    refine ⟨X.collation.trans _ _ _ h'.1 h.1, fun again => ?_⟩
    have left := h.2 (X.collation.trans _ _ _ again h'.1)
    have right := h'.2 (X.collation.trans _ _ _ h.1 again)
    exact X.collation.trans _ _ _ right left

/-! ### Following the cursors -/

@[simp] theorem nonEmpty_none : nonEmpty none = none := rfl

theorem decodeCursor_encode (F : CursorFormat) (cursor : PageCursor) :
    decodeCursor F (some (F.write cursor)) =
      if validCursor cursor then .ok (some cursor)
      else .error (.badRequest "before must be a valid transaction cursor.") := by
  have text : nonEmpty (some (F.write cursor)) = some (F.write cursor) := by
    simp [nonEmpty, Option.filter, F.write_ne_empty cursor]
  rw [decodeCursor, text]
  dsimp only
  rw [F.read_write]
  rfl

/-- The cursor of a request, where there is one, has been accepted. -/
theorem decodeCursor_valid (valid : cursor.all validCursor = true) :
    decodeCursor F (cursor.map F.write) = .ok cursor := by
  cases cursor with
  | none => rfl
  | some cursor => rw [Option.map_some, decodeCursor_encode, if_pos (by simpa using valid)]

theorem selects_before (filter : TransactionQuery) (cursor : Option PageCursor) (limit limit' : Option Nat)
    (t : Transaction) :
    InMemoryTransactionStore.selects X { filter with before := cursor, limit := limit } t =
      (InMemoryTransactionStore.selects X { filter with before := none, limit := limit' } t &&
        cursor.all (InMemoryTransactionStore.isBefore · t)) := by
  rw [Bool.eq_iff_iff]
  simp only [InMemoryTransactionStore.selects, Bool.and_eq_true, Option.all_none, and_assoc, true_and]
  tauto

/-- The rows that a filter selects, as they are stored. -/
def selected (X : TextContext) (ledger : List Transaction) (filter : TransactionQuery) : List Transaction :=
  ledger.filter (InMemoryTransactionStore.selects X { filter with before := none, limit := none })

theorem matching_eq : matching X ledger filter = (selected X ledger filter).insertionSort (listOrder X) := rfl

theorem list_page (size : 1 ≤ pageSize) :
    InMemoryTransactionStore.list X ledger { filter with before := cursor, limit := some pageSize } =
      Paging.page (listOrder X) InMemoryTransactionStore.isBefore (selected X ledger filter) pageSize cursor := by
  have rows : ledger.filter (InMemoryTransactionStore.selects X
      { filter with before := cursor, limit := some pageSize }) =
      (selected X ledger filter).filter fun t => cursor.all (InMemoryTransactionStore.isBefore · t) := by
    rw [selected, List.filter_filter]
    apply List.filter_congr
    intro t _
    rw [selects_before filter cursor (some pageSize) none, Bool.and_comm]
  obtain ⟨n, rfl⟩ : ∃ n, pageSize = n + 1 := ⟨pageSize - 1, by omega⟩
  rw [Paging.page, ← rows]
  rfl

theorem nextCursor_eq (rows : List Transaction) : nextCursor F pageSize rows =
    (Paging.next Transaction.cursor pageSize rows).map F.write := by
  unfold nextCursor Paging.next
  split
  · rw [Option.map_map]
    rfl
  · rfl

theorem transactionsPage_eq (size : 1 ≤ pageSize) (valid : cursor.all validCursor = true) :
    transactionsPage X F ledger filter pageSize (cursor.map F.write) =
      let rows := Paging.page (listOrder X) InMemoryTransactionStore.isBefore
        (selected X ledger filter) pageSize cursor
      .ok ⟨rows.length, rows, (Paging.next Transaction.cursor pageSize rows).map F.write⟩ := by
  rw [← list_page size]
  dsimp only
  rw [← nextCursor_eq, transactionsPage, decodeCursor_valid valid]
  rfl

theorem followPages_eq (size : 1 ≤ pageSize) (valid : cursor.all validCursor = true) :
    followPages X F ledger filter pageSize requests (cursor.map F.write) =
      Paging.follow (listOrder X) Transaction.cursor InMemoryTransactionStore.isBefore validCursor
        (selected X ledger filter) pageSize requests cursor := by
  induction requests generalizing cursor with
  | zero => rfl
  | succ requests ih =>
    rw [followPages, Paging.follow, transactionsPage_eq size valid]
    dsimp only
    cases Paging.next Transaction.cursor pageSize (Paging.page (listOrder X)
      InMemoryTransactionStore.isBefore (selected X ledger filter) pageSize cursor) with
    | none => rfl
    | some following =>
      rw [Option.map_some]
      dsimp only
      by_cases accepted : validCursor following = true
      · have rest := @ih (some following) (by simpa using accepted)
        rw [Option.map_some] at rest
        rw [if_pos accepted, rest]
      · -- The next request fails, if there is one.
        have rejected : followPages X F ledger filter pageSize requests (some (F.write following)) = none := by
          cases requests with
          | zero => rfl
          | succ requests =>
            rw [followPages, transactionsPage, decodeCursor_encode, if_neg accepted]
            rfl
        rw [if_neg accepted, rejected]
        rfl

theorem visits_iff (size : 1 ≤ pageSize) :
    (∃ requests, followPages X F ledger filter pageSize requests none = some (matching X ledger filter)) ↔
      Paging.Visits (listOrder X) Transaction.cursor InMemoryTransactionStore.isBefore validCursor
        (selected X ledger filter) pageSize := by
  apply exists_congr
  intro requests
  have same : followPages X F ledger filter pageSize requests (Option.map F.write none) = _ :=
    followPages_eq size rfl
  rw [Option.map_none] at same
  rw [same, matching_eq]

theorem Pageable.paginates (pageable : Pageable X ledger) : Paginates X F ledger := by
  intro filter pageSize size
  apply (visits_iff size).mpr
  apply Paging.visits_of_agrees isBefore_irrefl isBefore_trans _ _ size
  · apply (Ranking.pairwise_insertionSort_iff _).mpr
    apply (pageable.ordered.sublist List.filter_sublist).imp
    intro a b same
    unfold listedAlike at same
    split at same
    · next first => simpa [first] using same
    · next second => simpa [second] using same
  · intro t stored
    exact pageable.valid t (List.mem_filter.mp stored).1

theorem selected_all (X : TextContext) (ledger : List Transaction) : selected X ledger {} = ledger := by
  apply List.filter_eq_self.mpr
  simp [InMemoryTransactionStore.selects]

/-- Pages of one row, of all transactions, go wrong in any other ledger. -/
theorem Pageable.of_paginates (paginates : Paginates X F ledger) : Pageable X ledger := by
  have visits := (visits_iff le_rfl).mp (paginates {} 1 le_rfl)
  rw [selected_all] at visits
  obtain ⟨ordered, valid⟩ := Paging.agrees_of_visits isBefore_trans visits
  refine ⟨((Ranking.pairwise_insertionSort_iff _).mp ordered).imp fun {a b} same => ?_, valid⟩
  unfold listedAlike
  split
  · next first => simpa [first] using same
  · next second => simpa [second] using same

/-- The pages of a ledger are complete and exact, and their cursors accepted, if and only if its
transactions stand in the list as the cursors compare them and have valid cursors. -/
theorem paginates_iff (X : TextContext) (F : CursorFormat) (ledger : List Transaction) :
    Paginates X F ledger ↔ Pageable X ledger :=
  ⟨Pageable.of_paginates, Pageable.paginates⟩

/-! ### Ids that differ in case -/

theorem not_unitsBefore_trans {a b c : String} (h : unitsBefore a b = false) (h' : unitsBefore b c = false) :
    unitsBefore a c = false := by
  rw [Bool.eq_false_iff, Ne, unitsBefore_iff] at *
  exact List.not_lt.mpr (List.le_trans (List.not_lt.mp h') (List.not_lt.mp h))

theorem unitsBefore_asymm {a b : String} (h : unitsBefore a b = true) : unitsBefore b a = false := by
  by_contra again
  have own := unitsBefore_trans h (by simpa using again)
  rw [unitsBefore_irrefl] at own
  cases own

/-- Without regard to case, and of what is alike a small letter before the capital. -/
def caseBlind : Categorization.Collation where
  le a b := !unitsBefore b.toLower a.toLower && (unitsBefore a.toLower b.toLower || !unitsBefore a b)
  total a b := by
    have lowered := @unitsBefore_asymm a.toLower b.toLower
    have raw := @unitsBefore_asymm a b
    cases h : unitsBefore b.toLower a.toLower <;> cases h' : unitsBefore a.toLower b.toLower <;>
      cases h'' : unitsBefore a b <;> simp_all
  trans a b c h h' := by
    simp only [Bool.and_eq_true, Bool.or_eq_true, Bool.not_eq_true'] at *
    refine ⟨not_unitsBefore_trans h'.1 h.1, ?_⟩
    cases lowered : unitsBefore a.toLower c.toLower with
    | true => exact .inl rfl
    | false =>
      have first := not_unitsBefore_trans lowered h'.1
      have second := not_unitsBefore_trans h.1 lowered
      exact .inr (not_unitsBefore_trans (h.2.resolve_left (by simp [first]))
        (h'.2.resolve_left (by simp [second])))

def blindContext : TextContext := { Categorization.ascii with collation := caseBlind }

/-- A text after another, with a mark before each character of the first. -/
def marked : List Char → List Char → List Char
  | [], id => '-' :: id
  | c :: date, id => '+' :: c :: marked date id

def readMarked : List Char → Option (List Char × List Char)
  | '-' :: id => some ([], id)
  | '+' :: c :: rest => (readMarked rest).map fun read => (c :: read.1, read.2)
  | _ => none

theorem readMarked_marked (date id : List Char) : readMarked (marked date id) = some (date, id) := by
  induction date with
  | nil => rfl
  | cons c date ih =>
    rw [marked, readMarked, ih]
    rfl

def markedFormat : CursorFormat where
  write cursor := String.ofList (marked cursor.postedAt.toList cursor.id.toList)
  read text := (readMarked text.toList).map fun read =>
    (some (String.ofList read.1), some (String.ofList read.2))
  read_write cursor := by simp [readMarked_marked]
  write_ne_empty cursor := by
    cases h : cursor.postedAt.toList <;> simp [marked, ← String.toList_inj]

def groceries : RawTransaction where
  providerTxnId := "a7"
  accountId := "checking"
  postedAt := "2026-05-30"
  amount := -4500
  currency := "USD"
  descriptor := "MARKET"
  pending := false

def uncategorized : Categorizer where
  normalizeDescriptor := String.toLower
  categorizeDescriptor := fun _ => ⟨"unknown", .unknown, 0, none⟩

/-- Two transactions of one day, as the sync stores them. -/
def mixedCase : List Transaction :=
  (InMemoryTransactionStore.upsertMany []
    ([groceries, { groceries with providerTxnId := "B7" }].map (mapTransaction uncategorized))).2

/-- The second page is empty. -/
theorem mixedCase_misses : ¬Paginates blindContext markedFormat mixedCase := by
  intro paginates
  have ordered := (Pageable.of_paginates paginates).ordered
  revert ordered
  decide +kernel

end Finverse.Ledger
