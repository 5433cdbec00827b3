import Finverse.Ledger.Search
import Finverse.Ledger.TransactionsEndpoint
import Finverse.Scheduled.StoredSchedules
import Finverse.Statements.Drafts

/-! Saved views: what the two stores keep of them, and the rows that they list. -/

namespace Finverse.Ledger

open Auth (jsLength trim isJsSpace)
open Categorization (Collation TextContext)
open Insights (CATEGORIES kindOf)
open Scheduled (MAX_SAFE_INTEGER problemWhen)
open Statements (collapse)
open Wildcards (Plain)

/-! ### The order of code units -/

theorem charUnits_cons {c d : Char} {rest rest' : List Nat}
    (same : charUnits c ++ rest = charUnits d ++ rest') : c = d ∧ rest = rest' := by
  have surrogate (c : Char) : (c.toNat < 0xD800 ∨ 0xE000 ≤ c.toNat) ∧ c.toNat < 0x110000 := by
    rcases c.valid with low | ⟨high, top⟩
    · exact ⟨.inl low, Nat.lt_trans low (by omega)⟩
    · exact ⟨.inr high, top⟩
  have left := surrogate c
  have right := surrogate d
  unfold charUnits at same
  split at same <;> split at same <;>
    simp only [List.cons_append, List.nil_append, List.cons.injEq] at same
  · exact ⟨Char.toNat_inj.mp same.1, same.2⟩
  · omega
  · omega
  · exact ⟨Char.toNat_inj.mp (by omega), same.2.2⟩

theorem codeUnits_inj {a b : String} (same : codeUnits a = codeUnits b) : a = b := by
  have chars (cs : List Char) : ∀ ds : List Char, cs.flatMap charUnits = ds.flatMap charUnits → cs = ds := by
    have some_ (c : Char) (rest : List Nat) : charUnits c ++ rest ≠ [] := by
      unfold charUnits
      split <;> simp
    induction cs with
    | nil =>
      intro ds same
      cases ds with
      | nil => rfl
      | cons d ds => exact absurd same.symm (some_ d _)
    | cons c cs ih =>
      intro ds same
      cases ds with
      | nil => exact absurd same (some_ c _)
      | cons d ds =>
        obtain ⟨rfl, rest⟩ := charUnits_cons same
        rw [ih ds rest]
  exact String.toList_inj.mp (chars _ _ same)

/-- Neither of two strings is before the other only if they are one. -/
theorem eq_of_not_before {a b : String} (left : unitsBefore a b = false) (right : unitsBefore b a = false) : a = b := by
  rw [Bool.eq_false_iff, Ne, unitsBefore_iff] at left right
  exact codeUnits_inj (List.le_antisymm (List.not_lt.mp right) (List.not_lt.mp left))

/-! ### One list from two stores -/

/-- The runtime and the database compare these rows in the same way, and no one has set by hand whether
one of them recurs, unless as it was detected. -/
structure Alike (X : TextContext) (collation : Collation) (rows : List TransactionRow) : Prop where
  described : ∀ row ∈ rows, Described X row
  recurring : ∀ row ∈ rows, row.recurringOverride.getD row.isRecurring = row.isRecurring
  dates : ∀ a ∈ rows, ∀ b ∈ rows, X.collation.le a.postedAt b.postedAt = !unitsBefore b.postedAt a.postedAt
  ids : ∀ a ∈ rows, ∀ b ∈ rows, X.collation.le a.id b.id = collation.le a.id b.id

/-- Both stores read the query in the same way: its text has no marks, it is limited to some rows or to none
at all, and the database compares the cursor as the runtime does. -/
structure Portable (collation : Collation) (rows : List TransactionRow) (query : TransactionQuery) : Prop where
  search : ∀ search ∈ query.search, Plain sqlMarks search.toList
  limit : query.limit ≠ some 0
  before : ∀ cursor ∈ query.before, ∀ row ∈ rows, collation.le cursor.id row.id = !unitsBefore row.id cursor.id

section Alike

variable {X : TextContext} {collation : Collation} {rows : List TransactionRow} {query : TransactionQuery}
  {row : TransactionRow} {db : Database} {userId : Nat}

theorem kind_keys : (CATEGORIES.map Prod.fst).Nodup := by decide +kernel

theorem slugsOf_contains (kind : QueryKind) (slug : String) :
    (PostgresTransactionStore.slugsOf kind).contains slug = kind.holds slug := by
  have found : kindOf slug = (Table.lookup Prod.fst slug CATEGORIES).map Prod.snd := rfl
  rw [Bool.eq_iff_iff, List.contains_iff_mem, PostgresTransactionStore.slugsOf, QueryKind.holds, found, Option.any_map,
    Option.any_eq_true, List.mem_map]
  simp only [List.mem_filter, decide_eq_true_iff]
  constructor
  · rintro ⟨category, ⟨listed, same⟩, rfl⟩
    exact ⟨category, Table.lookup_of_mem kind_keys listed, same⟩
  · rintro ⟨category, found, same⟩
    exact ⟨category, ⟨Table.lookup_mem found, same⟩, Table.lookup_key found⟩

theorem all_alike {α : Type} {value : Option α} {p q : α → Bool} (same : ∀ a ∈ value, p a = q a) :
    value.all p = value.all q := by
  cases value with
  | none => rfl
  | some a => exact same a rfl

theorem tagged_alike (row : TransactionRow) (tag : String) :
    row.tags.contains tag = (toTransaction row).tags.any fun tags => tags.any (· = tag) := by
  have read : (toTransaction row).tags = if row.tags ≠ [] then some row.tags else none := rfl
  rw [read]
  by_cases none_ : row.tags = []
  · rw [if_neg (not_not.mpr none_), none_]
    rfl
  · rw [if_pos none_, Option.any_some, List.contains_eq_any_beq]
    exact congrArg row.tags.any (funext fun other => by rw [Bool.eq_iff_iff, beq_iff_eq, decide_eq_true_iff, eq_comm])

theorem selects_alike (keeps : KeepsMarks X.toLowerCase) (alike : Alike X collation rows)
    (portable : Portable collation rows query) (there : row ∈ rows) :
    PostgresTransactionStore.selects X collation query row =
      InMemoryTransactionStore.selects X query (toTransaction row) := by
  have before : (query.before.all fun cursor => PostgresTransactionStore.isBefore collation cursor row) =
      query.before.all fun cursor => InMemoryTransactionStore.isBefore cursor (toTransaction row) := by
    refine all_alike fun cursor given => ?_
    rw [PostgresTransactionStore.isBefore, portable.before cursor given row there, Bool.not_not]
    rfl
  have searched : ((nonEmpty query.search).all fun search => PostgresTransactionStore.searched X search row) =
      (nonEmpty query.search).all fun search => InMemoryTransactionStore.searched X search (toTransaction row) := by
    refine all_alike fun search given => searched_plain keeps (portable.search search ?_) (alike.described row there)
    exact (Option.mem_filter_iff.mp given).1
  have recurring : (toTransaction row).isRecurring = row.isRecurring := alike.recurring row there
  unfold PostgresTransactionStore.selects InMemoryTransactionStore.selects
  simp only [before, searched, recurring, slugsOf_contains, tagged_alike]
  rfl

theorem not_selected (kindless : query.categoryKind.any (fun kind => PostgresTransactionStore.slugsOf kind = []) = true)
    (row : TransactionRow) : ¬PostgresTransactionStore.selects X collation query row = true := by
  intro selected
  have listed : query.categoryKind.all
      (fun kind => (PostgresTransactionStore.slugsOf kind).contains row.categorySlug) = true := by
    unfold PostgresTransactionStore.selects at selected
    simp only [Bool.and_eq_true] at selected
    exact selected.1.1.1.1.1.1.1.1.2
  cases asked : query.categoryKind with
  | none =>
    rw [asked] at kindless
    cases kindless
  | some kind =>
    rw [asked, Option.any_some, decide_eq_true_iff] at kindless
    rw [asked, Option.all_some, kindless] at listed
    cases listed

theorem listOrder_alike (alike : Alike X collation rows) {a b : TransactionRow} (left : a ∈ rows) (right : b ∈ rows) :
    PostgresTransactionStore.listOrder collation a b ↔
      Categorization.TransactionStore.listOrder X (toTransaction a) (toTransaction b) := by
  have later : X.collation.le b.postedAt a.postedAt = !unitsBefore a.postedAt b.postedAt := alike.dates b right a left
  have earlier : X.collation.le a.postedAt b.postedAt = !unitsBefore b.postedAt a.postedAt := alike.dates a left b right
  have ids : X.collation.le b.id a.id = collation.le b.id a.id := alike.ids b right a left
  change ¬unitsBefore a.postedAt b.postedAt = true ∧ (a.postedAt = b.postedAt → collation.le b.id a.id = true) ↔
    X.collation.le b.postedAt a.postedAt = true ∧
      (X.collation.le a.postedAt b.postedAt = true → X.collation.le b.id a.id = true)
  rw [later, earlier, ids, Bool.not_eq_true', Bool.not_eq_true', Bool.not_eq_true]
  refine and_congr_right fun notBefore => imp_congr_left ⟨fun same => ?_, eq_of_not_before notBefore⟩
  rw [same, unitsBefore_irrefl]

end Alike

/-! ### Views -/

structure SavedViewFilter where
  search : Option String := none
  categorySlug : Option String := none
  categoryKind : Option String := none
  accountId : Option String := none
  tag : Option String := none
  dateFrom : Option IsoDate := none
  dateTo : Option IsoDate := none
  amountMin : Option Rat := none
  amountMax : Option Rat := none
  pending : Option Bool := none
  recurring : Option Bool := none
  deriving DecidableEq

structure SavedView where
  id : Nat
  name : String
  filter : SavedViewFilter
  createdAt : Nat
  deriving DecidableEq

def MAX_VIEW_NAME_LENGTH : Nat := 60

def CATEGORY_KINDS : List (String × QueryKind) :=
  [("expense", .expense), ("income", .income), ("transfer", .transfer), ("special", .special)]

def kindNamed (name : String) : Option QueryKind := (CATEGORY_KINDS.find? (·.1 = name)).map Prod.snd

def normalizeViewName (name : String) : String := String.ofList (collapse (trim name).toList)

/-- A safe integer that is not negative. -/
def isMinorUnits (value : Rat) : Bool := decide (value.den = 1) && decide (0 ≤ value.num ∧ value.num ≤ MAX_SAFE_INTEGER)

/-- Both values are there, and the first is above the second. -/
def above {α : Type} (before : α → α → Bool) (low high : Option α) : Bool :=
  low.any fun low => high.any fun high => before high low

def dateProblem (field : String) (value : Option IsoDate) : List String :=
  problemWhen (value.any fun date => !isDateShaped date) (field ++ " must be a calendar date (YYYY-MM-DD).")

def amountProblem (field : String) (value : Option Rat) : List String :=
  problemWhen (value.any fun amount => !isMinorUnits amount)
    (field ++ " must be a whole, non-negative number of minor units.")

/-- Every problem, not the first one only. -/
def validateFilter (filter : SavedViewFilter) : List String :=
  dateProblem "dateFrom" filter.dateFrom ++ dateProblem "dateTo" filter.dateTo ++
  problemWhen (above unitsBefore (nonEmpty filter.dateFrom) (nonEmpty filter.dateTo)) "dateFrom must not be after dateTo." ++
  amountProblem "amountMin" filter.amountMin ++ amountProblem "amountMax" filter.amountMax ++
  problemWhen (above (fun a b => decide (a < b)) filter.amountMin filter.amountMax)
    "amountMin must not be above amountMax." ++
  problemWhen (filter.categoryKind.any fun kind => kind ∉ CATEGORY_KINDS.map Prod.fst)
    "categoryKind must be one of: expense, income, transfer, special."

def validateName (name : String) : List String :=
  let normalized := normalizeViewName name
  problemWhen (jsLength normalized = 0) "Give the view a name." ++
  problemWhen (MAX_VIEW_NAME_LENGTH < jsLength normalized) "Use 60 characters or fewer."

/-- An open end is widened. Accepted amounts are whole. -/
def toTransactionQuery (filter : SavedViewFilter) (limit : Option Nat) : TransactionQuery where
  search := nonEmpty filter.search
  categorySlug := nonEmpty filter.categorySlug
  categoryKind := (nonEmpty filter.categoryKind).bind kindNamed
  accountId := nonEmpty filter.accountId
  tag := nonEmpty filter.tag
  amountMin := filter.amountMin.map Rat.num
  amountMax := filter.amountMax.map Rat.num
  pending := filter.pending
  recurring := filter.recurring
  range :=
    if (nonEmpty filter.dateFrom).isSome || (nonEmpty filter.dateTo).isSome then
      some ⟨filter.dateFrom.getD "0001-01-01", filter.dateTo.getD "9999-12-31"⟩
    else none
  limit

/-- Texts that are empty constrain nothing. -/
def isEmptyFilter (filter : SavedViewFilter) : Bool :=
  [filter.search, filter.categorySlug, filter.categoryKind, filter.accountId, filter.tag, filter.dateFrom,
      filter.dateTo].all (fun text => (nonEmpty text).isNone) &&
    filter.amountMin.isNone && filter.amountMax.isNone && filter.pending.isNone && filter.recurring.isNone

inductive ViewError
  | rejected (problems : List String)
  | duplicateName (name : String)
  | notFound
  | internal
  deriving DecidableEq, Repr

def ViewError.message : ViewError → String
  | .rejected _ => "View rejected."
  | .duplicateName name => "A view called \"" ++ name ++ "\" already exists."
  | .notFound => "No such view."
  | .internal => "Internal server error"

structure CreateSavedViewInput where
  name : Option String := none
  filter : Option SavedViewFilter := none

/-- The view that a request asks for. -/
def newView (input : CreateSavedViewInput) (id createdAt : Nat) : Except ViewError SavedView := do
  let filter := input.filter.getD {}
  let problems := validateName (input.name.getD "") ++ validateFilter filter
  throwIf (problems ≠ []) (.rejected problems)
  throwIf (isEmptyFilter filter = true)
    (.rejected ["Add at least one filter — an unfiltered view is the transaction list."])
  return ⟨id, normalizeViewName (input.name.getD ""), filter, createdAt⟩

/-- The port: the views of one user. -/
structure SavedViewStore (σ : Type) where
  create : SavedView → σ → Except ViewError (SavedView × σ)
  get : Nat → σ → Option SavedView
  remove : Nat → σ → Option σ

inductive ViewRequest
  | create (input : CreateSavedViewInput) (id createdAt : Nat)
  | remove (id : Nat)

section Service

variable {σ : Type} (S : SavedViewStore σ)

/-- A request that is refused leaves everything as it is. -/
def answered (st : σ) : Except ViewError (SavedView × σ) → Except ViewError (Option SavedView) × σ
  | .ok (view, st') => (.ok (some view), st')
  | .error e => (.error e, st)

def removed (st : σ) : Option σ → Except ViewError (Option SavedView) × σ
  | some st' => (.ok none, st')
  | none => (.error .notFound, st)

def serveView (request : ViewRequest) (st : σ) : Except ViewError (Option SavedView) × σ :=
  match request with
  | .create input id createdAt => answered st (newView input id createdAt >>= fun view => S.create view st)
  | .remove id => removed st (S.remove id st)

/-- The answers, and what is kept in the end. -/
def serveViews : List ViewRequest → σ → List (Except ViewError (Option SavedView)) × σ
  | [], st => ([], st)
  | request :: requests, st =>
    let (answer, st') := serveView S request st
    let (answers, last) := serveViews requests st'
    (answer :: answers, last)

/-- The rows of a view, as the store of the transactions lists them. -/
def applyView (list : TransactionQuery → List Transaction) (id limit : Nat) (st : σ) :
    Except ViewError (SavedView × List Transaction) :=
  match S.get id st with
  | none => .error .notFound
  | some view => .ok (view, list (toTransactionQuery view.filter (some limit)))

end Service

/-! ### The two stores of views -/

def InMemorySavedViewStore (X : TextContext) : SavedViewStore (List SavedView) where
  create view rows :=
    let wanted := X.toLowerCase (normalizeViewName view.name)
    if rows.any fun v => X.toLowerCase (normalizeViewName v.name) = wanted then .error (.duplicateName view.name)
    else .ok (view, rows ++ [view])
  get id rows := Table.lookup SavedView.id id rows
  remove id rows := if rows.any (·.id = id) then some (rows.eraseP (·.id = id)) else none

/-- The columns. `none` is NULL. -/
structure SavedViewRow where
  id : Nat
  name : String
  search : Option String
  categorySlug : Option String
  categoryKind : Option String
  accountId : Option String
  tag : Option String
  dateFrom : Option IsoDate
  dateTo : Option IsoDate
  amountMin : Option Int
  amountMax : Option Int
  pending : Option Bool
  recurring : Option Bool
  createdAt : Nat

/-- Columns that are NULL are no constraints. -/
def toSavedView (row : SavedViewRow) : SavedView where
  id := row.id
  name := row.name
  filter :=
    { search := row.search
      categorySlug := row.categorySlug
      categoryKind := row.categoryKind
      accountId := row.accountId
      tag := row.tag
      dateFrom := row.dateFrom
      dateTo := row.dateTo
      amountMin := row.amountMin.map fun amount => (amount : Rat)
      amountMax := row.amountMax.map fun amount => (amount : Rat)
      pending := row.pending
      recurring := row.recurring }
  createdAt := row.createdAt

/-- What is a date in the database. -/
def isRealDate (date : IsoDate) : Bool :=
  isDateShaped date && isCalendarDate date && decide (date.toList.take 4 ≠ ['0', '0', '0', '0'])

def isBigint (amount : Rat) : Bool := decide (amount.den = 1) && decide (-2 ^ 63 ≤ amount.num ∧ amount.num < 2 ^ 63)

/-- The tuple of an INSERT, if its columns can have the values and the checks hold. -/
def SavedViewRow.accept (view : SavedView) : Option SavedViewRow :=
  let filter := view.filter
  if decide (1 ≤ view.name.length ∧ view.name.length ≤ 60) &&
      filter.categoryKind.all (fun kind => decide (kind ∈ CATEGORY_KINDS.map Prod.fst)) &&
      filter.dateFrom.all isRealDate && filter.dateTo.all isRealDate && !above unitsBefore filter.dateFrom filter.dateTo &&
      filter.amountMin.all isBigint && filter.amountMax.all isBigint &&
      !above (fun a b => decide (a < b)) filter.amountMin filter.amountMax &&
      filter.amountMin.all (fun amount => decide (0 ≤ amount)) &&
      filter.amountMax.all (fun amount => decide (0 ≤ amount)) then
    some
      { id := view.id
        name := view.name
        search := filter.search
        categorySlug := filter.categorySlug
        categoryKind := filter.categoryKind
        accountId := filter.accountId
        tag := filter.tag
        dateFrom := filter.dateFrom
        dateTo := filter.dateTo
        amountMin := filter.amountMin.map Rat.num
        amountMax := filter.amountMax.map Rat.num
        pending := filter.pending
        recurring := filter.recurring
        createdAt := view.createdAt }
  else none

/-- Ids are unique, and so are names in lower case. -/
def PostgresSavedViewStore (X : TextContext) : SavedViewStore (List SavedViewRow) where
  create view rows :=
    match SavedViewRow.accept view with
    | none => .error .internal
    | some row =>
      if rows.any fun r => r.id = row.id ∨ X.toLowerCase r.name = X.toLowerCase row.name then
        .error (.duplicateName view.name)
      else .ok (toSavedView row, rows ++ [row])
  get id rows := (rows.find? (·.id = id)).map toSavedView
  remove id rows := if rows.any (·.id = id) then some (rows.filter (·.id ≠ id)) else none

/-! ### Names -/

section Names

variable {cs : List Char} {name : String}

/-- Blanks become spaces. -/
def spaced (c : Char) : Char := if isJsSpace c then ' ' else c

theorem collapse_head? (cs : List Char) : (collapse cs).head? = cs.head?.map spaced := by
  cases cs with
  | nil => rfl
  | cons c rest =>
    rw [collapse, List.head?_cons, Option.map_some, spaced]
    by_cases blank : isJsSpace c = true
    · by_cases more : (collapse rest).head? = some ' '
      · rw [if_pos blank, if_pos more, if_pos blank, more]
      · rw [if_pos blank, if_neg more, if_pos blank, List.head?_cons]
    · rw [if_neg blank, if_neg blank, List.head?_cons]

theorem collapse_getLast? (cs : List Char) : (collapse cs).getLast? = cs.getLast?.map spaced := by
  induction cs with
  | nil => rfl
  | cons c rest ih =>
    have front := collapse_head? rest
    cases rest with
    | nil =>
      rw [collapse, collapse, List.getLast?_singleton, Option.map_some, spaced]
      split <;> rfl
    | cons d rest =>
      have more (e : Char) : (e :: collapse (d :: rest)).getLast? = (collapse (d :: rest)).getLast? := by
        cases collapsed : collapse (d :: rest) with
        | nil =>
          rw [collapsed] at front
          cases front
        | cons f fs => exact List.getLast?_cons_cons
      rw [collapse, List.getLast?_cons_cons, ← ih]
      split
      · split
        · rfl
        · exact more ' '
      · exact more c

theorem collapse_collapse (cs : List Char) : collapse (collapse cs) = collapse cs := by
  induction cs with
  | nil => rfl
  | cons c rest ih =>
    rw [collapse]
    by_cases blank : isJsSpace c = true
    · by_cases more : (collapse rest).head? = some ' '
      · rw [if_pos blank, if_pos more, ih]
      · have space : isJsSpace ' ' = true := by decide
        rw [if_pos blank, if_neg more, collapse, ih, if_pos space, if_neg more]
    · rw [if_neg blank, collapse, ih, if_neg blank]

/-- No blank stands at either end. -/
def Trimmed (cs : List Char) : Prop := ∀ c, cs.head? = some c ∨ cs.getLast? = some c → isJsSpace c = false

theorem trim_ofList (trimmed : Trimmed cs) : trim (String.ofList cs) = String.ofList cs := by
  have front : cs.dropWhile isJsSpace = cs := by
    cases cs with
    | nil => rfl
    | cons c rest => exact List.dropWhile_cons_of_neg (by simp [trimmed c (.inl rfl)])
  have back : cs.rdropWhile isJsSpace = cs := by
    rw [List.rdropWhile_eq_self_iff]
    intro some_
    rw [trimmed _ (.inr (List.getLast?_eq_some_getLast some_))]
    decide
  have same : trim (String.ofList cs) =
      String.ofList (((String.ofList cs).toList.dropWhile isJsSpace).rdropWhile isJsSpace) := rfl
  rw [same, String.toList_ofList, front, back]

theorem trimmed_trim (s : String) : Trimmed (trim s).toList := by
  have again : (((trim s).toList.dropWhile isJsSpace).rdropWhile isJsSpace) = (trim s).toList := by
    have same := congrArg String.toList (Scheduled.trim_trim s)
    rwa [trim, String.toList_ofList] at same
  have shorter := (List.rdropWhile_prefix isJsSpace ((trim s).toList.dropWhile isJsSpace)).sublist
  have front : (trim s).toList.dropWhile isJsSpace = (trim s).toList := by
    refine (List.dropWhile_sublist isJsSpace).eq_of_length_le ?_
    conv_lhs => rw [← again]
    exact shorter.length_le
  rw [front] at again
  rintro c (first | last)
  · cases text : (trim s).toList with
    | nil =>
      rw [text] at first
      cases first
    | cons d rest =>
      rw [text] at first front
      obtain rfl := Option.some.inj first
      by_contra blank
      rw [List.dropWhile_cons_of_pos (by simpa using blank)] at front
      have longer := congrArg List.length front
      have dropped := (List.dropWhile_sublist isJsSpace (l := rest)).length_le
      rw [List.length_cons] at longer
      omega
  · have some_ : (trim s).toList ≠ [] := by
      intro none_
      rw [none_] at last
      cases last
    have kept := List.rdropWhile_eq_self_iff.mp again some_
    rw [List.getLast?_eq_some_getLast some_] at last
    rw [← Option.some.inj last]
    simpa using kept

theorem normalizeViewName_again (name : String) : normalizeViewName (normalizeViewName name) = normalizeViewName name := by
  have trimmed : Trimmed (collapse (trim name).toList) := by
    intro c ends
    rw [collapse_head?, collapse_getLast?] at ends
    have own := trimmed_trim name
    rcases ends with first | last
    · obtain ⟨d, begins, rfl⟩ := Option.map_eq_some_iff.mp first
      have plain := own d (.inl begins)
      rwa [spaced, if_neg (by simp [plain])]
    · obtain ⟨d, stops, rfl⟩ := Option.map_eq_some_iff.mp last
      have plain := own d (.inr stops)
      rwa [spaced, if_neg (by simp [plain])]
  unfold normalizeViewName
  rw [trim_ofList trimmed, String.toList_ofList, collapse_collapse]

theorem length_le_jsLength (name : String) : name.length ≤ jsLength name := by
  rw [← String.length_toList, jsLength]
  induction name.toList with
  | nil => exact Nat.le_refl 0
  | cons c rest ih =>
    rw [List.length_cons, List.map_cons, List.sum_cons]
    have unit : 1 ≤ if c.val ≥ 0x10000 then 2 else 1 := by split <;> omega
    omega

end Names

/-! ### What is accepted -/

section Accepted

variable {X : TextContext} {input : CreateSavedViewInput} {filter : SavedViewFilter} {view : SavedView} {id createdAt : Nat}

/-- What an accepted filter is. -/
structure Accepted (filter : SavedViewFilter) : Prop where
  dateFrom : ∀ date ∈ filter.dateFrom, isDateShaped date = true
  dateTo : ∀ date ∈ filter.dateTo, isDateShaped date = true
  dates : above unitsBefore (nonEmpty filter.dateFrom) (nonEmpty filter.dateTo) = false
  amountMin : ∀ amount ∈ filter.amountMin, isMinorUnits amount = true
  amountMax : ∀ amount ∈ filter.amountMax, isMinorUnits amount = true
  amounts : above (fun a b => decide (a < b)) filter.amountMin filter.amountMax = false
  categoryKind : ∀ kind ∈ filter.categoryKind, kind ∈ CATEGORY_KINDS.map Prod.fst

theorem none_bad {α : Type} {value : Option α} {bad : α → Bool} :
    value.any bad = false ↔ ∀ a ∈ value, bad a = false := by
  cases value with
  | none => simp
  | some a => simp

theorem validateFilter_iff (filter : SavedViewFilter) : validateFilter filter = [] ↔ Accepted filter := by
  unfold validateFilter dateProblem amountProblem
  simp only [List.append_eq_nil_iff, Scheduled.problemWhen_eq_nil, none_bad, Bool.not_eq_false', decide_eq_false_iff_not,
    not_not]
  constructor
  · rintro ⟨⟨⟨⟨⟨⟨dateFrom, dateTo⟩, dates⟩, amountMin⟩, amountMax⟩, amounts⟩, kind⟩
    exact ⟨dateFrom, dateTo, dates, amountMin, amountMax, amounts, kind⟩
  · intro accepted
    exact ⟨⟨⟨⟨⟨⟨accepted.dateFrom, accepted.dateTo⟩, accepted.dates⟩, accepted.amountMin⟩, accepted.amountMax⟩,
      accepted.amounts⟩, accepted.categoryKind⟩

theorem nonEmpty_shaped {value : Option IsoDate} (shaped : ∀ date ∈ value, isDateShaped date = true) :
    nonEmpty value = value := by
  cases value with
  | none => rfl
  | some date =>
    refine Option.filter_some_pos (decide_eq_true fun empty => ?_)
    have shape := shaped date rfl
    rw [empty] at shape
    cases shape

/-- What a view is that was asked for. -/
structure Made (input : CreateSavedViewInput) (id createdAt : Nat) (view : SavedView) : Prop where
  id : view.id = id
  name : view.name = normalizeViewName (input.name.getD "")
  filter : view.filter = input.filter.getD {}
  createdAt : view.createdAt = createdAt
  some_ : jsLength view.name ≠ 0
  bounded : jsLength view.name ≤ MAX_VIEW_NAME_LENGTH
  accepted : Accepted view.filter

theorem newView_ok (made : newView input id createdAt = .ok view) : Made input id createdAt view := by
  unfold newView at made
  obtain ⟨_, noProblem, made⟩ := bind_ok made
  obtain ⟨_, -, made⟩ := bind_ok made
  obtain rfl := Except.ok.inj made
  have problems := not_not.mp (throwIf_ok noProblem)
  rw [List.append_eq_nil_iff, validateFilter_iff, validateName, List.append_eq_nil_iff, Scheduled.problemWhen_eq_nil,
    Scheduled.problemWhen_eq_nil] at problems
  obtain ⟨⟨some_, bounded⟩, accepted⟩ := problems
  exact ⟨rfl, rfl, rfl, rfl, by simpa using some_, by simpa using bounded, accepted⟩

/-- The dates of the filter are dates of the database. -/
def RealDates (filter : SavedViewFilter) : Prop :=
  (∀ date ∈ filter.dateFrom, isRealDate date = true) ∧ ∀ date ∈ filter.dateTo, isRealDate date = true

theorem whole {amount : Rat} (units : isMinorUnits amount = true) :
    isBigint amount = true ∧ 0 ≤ amount ∧ (amount.num : Rat) = amount := by
  rw [isMinorUnits, Bool.and_eq_true, decide_eq_true_iff, decide_eq_true_iff] at units
  obtain ⟨den, low, high⟩ := units
  have small : MAX_SAFE_INTEGER < 2 ^ 63 := by decide
  refine ⟨?_, Rat.num_nonneg.mp low, Rat.den_eq_one_iff amount |>.mp den⟩
  rw [isBigint, Bool.and_eq_true, decide_eq_true_iff, decide_eq_true_iff]
  omega

theorem all_of {α : Type} {value : Option α} {p : α → Bool} (each : ∀ a ∈ value, p a = true) : value.all p = true := by
  cases value with
  | none => rfl
  | some a => exact each a rfl

theorem map_num {value : Option Rat} (units : ∀ amount ∈ value, isMinorUnits amount = true) :
    (value.map Rat.num).map (fun amount => (amount : Rat)) = value := by
  cases value with
  | none => rfl
  | some amount => exact congrArg some (whole (units amount rfl)).2.2

/-- The database takes what the service accepts, and has it as it was. -/
theorem accept_made (made : Made input id createdAt view) (real : RealDates view.filter) :
    ∃ row, SavedViewRow.accept view = some row ∧ toSavedView row = view := by
  obtain ⟨dateFrom, dateTo⟩ := real
  have accepted := made.accepted
  have lengths := length_le_jsLength view.name
  have long : 1 ≤ view.name.length := by
    by_contra short
    have empty : view.name = "" := String.length_eq_zero_iff.mp (by omega)
    exact made.some_ (by rw [empty]; rfl)
  have dates : above unitsBefore view.filter.dateFrom view.filter.dateTo = false := by
    have given := accepted.dates
    rwa [nonEmpty_shaped accepted.dateFrom, nonEmpty_shaped accepted.dateTo] at given
  have bounded : view.name.length ≤ 60 := Nat.le_trans lengths made.bounded
  refine ⟨_, if_pos ?_, ?_⟩
  · simp only [Bool.and_eq_true, decide_eq_true_iff, Bool.not_eq_true']
    refine ⟨⟨⟨⟨⟨⟨⟨⟨⟨⟨long, bounded⟩, all_of fun kind given => ?_⟩, all_of dateFrom⟩, all_of dateTo⟩, dates⟩,
      all_of fun amount given => (whole (accepted.amountMin amount given)).1⟩,
      all_of fun amount given => (whole (accepted.amountMax amount given)).1⟩, accepted.amounts⟩,
      all_of fun amount given => decide_eq_true (whole (accepted.amountMin amount given)).2.1⟩,
      all_of fun amount given => decide_eq_true (whole (accepted.amountMax amount given)).2.1⟩
    exact decide_eq_true (accepted.categoryKind kind given)
  · unfold toSavedView
    dsimp only
    rw [map_num accepted.amountMin, map_num accepted.amountMax]

end Accepted

/-! ### The stores keep the same views -/

def ViewRequest.created : ViewRequest → Option Nat
  | .create _ id _ => some id
  | .remove _ => none

/-- The dates that are asked for are real. -/
def ViewRequest.Real : ViewRequest → Prop
  | .create input _ _ => RealDates (input.filter.getD {})
  | .remove _ => True

/-- The rows are the views, whose names are as they are compared. -/
structure Same (rows : List SavedViewRow) (views : List SavedView) : Prop where
  kept : rows.map toSavedView = views
  ids : (views.map (·.id)).Nodup
  names : ∀ view ∈ views, normalizeViewName view.name = view.name

section Stores

variable {X : TextContext} {rows : List SavedViewRow} {views : List SavedView} {request : ViewRequest}
  {requests : List ViewRequest}

theorem eraseP_unique (ids : (views.map (·.id)).Nodup) (id : Nat) :
    views.eraseP (fun view => decide (view.id = id)) = views.filter fun view => decide (view.id ≠ id) := by
  induction views with
  | nil => rfl
  | cons view views ih =>
    rw [List.map_cons, List.nodup_cons] at ids
    by_cases hit : view.id = id
    · rw [List.eraseP_cons_of_pos (by simp [hit]), List.filter_cons_of_neg (by simp [hit])]
      refine (List.filter_eq_self.mpr fun other there => ?_).symm
      rw [decide_eq_true_iff]
      intro same
      rw [hit, ← same] at ids
      exact ids.1 (List.mem_map_of_mem there)
    · rw [List.eraseP_cons_of_neg (by simp [hit]), List.filter_cons_of_pos (by simp [hit]), ih ids.2]

theorem Same.any (same : Same rows views) (p : SavedView → Bool) :
    (rows.any fun row => p (toSavedView row)) = views.any p := by
  rw [← same.kept, List.any_map]
  rfl

theorem Same.get (same : Same rows views) (id : Nat) :
    (PostgresSavedViewStore X).get id rows = (InMemorySavedViewStore X).get id views := by
  change (rows.find? _).map toSavedView = views.find? _
  rw [← same.kept, List.find?_map]
  rfl

/-- The names of kept views are compared as they are. -/
theorem Same.taken (same : Same rows views) {input : CreateSavedViewInput} {id createdAt : Nat} {view : SavedView}
    {row : SavedViewRow} (made : Made input id createdAt view) (kept : toSavedView row = view)
    (fresh : view.id ∉ views.map (·.id)) :
    (rows.any fun r => r.id = row.id ∨ X.toLowerCase r.name = X.toLowerCase row.name) =
      views.any fun v => X.toLowerCase (normalizeViewName v.name) = X.toLowerCase (normalizeViewName view.name) := by
  subst kept
  rw [← same.any, Bool.eq_iff_iff, List.any_eq_true, List.any_eq_true]
  refine exists_congr fun r => and_congr_right fun there => ?_
  have listed : toSavedView r ∈ views := same.kept ▸ List.mem_map_of_mem there
  have other : r.id ≠ row.id := by
    intro hit
    refine fresh (List.mem_map.mpr ⟨_, listed, ?_⟩)
    exact hit
  have named : normalizeViewName (toSavedView row).name = row.name := by
    rw [made.name, normalizeViewName_again, ← made.name]
    rfl
  have names : normalizeViewName (toSavedView r).name = r.name := same.names _ listed
  rw [decide_eq_true_iff, decide_eq_true_iff, names, named, or_iff_right other]

theorem serveViews_cons {σ : Type} (S : SavedViewStore σ) (st : σ) (request : ViewRequest) (requests : List ViewRequest) :
    (serveViews S (request :: requests) st).2 = (serveViews S requests (serveView S request st).2).2 := rfl

theorem serveView_create {σ : Type} (S : SavedViewStore σ) (st : σ) {input : CreateSavedViewInput} {id createdAt : Nat}
    {made : Except ViewError SavedView} (asked : newView input id createdAt = made) :
    serveView S (.create input id createdAt) st = answered st (made >>= fun view => S.create view st) := by
  rw [← asked]
  rfl

theorem serveView_made {σ : Type} (S : SavedViewStore σ) (st : σ) {input : CreateSavedViewInput} {id createdAt : Nat}
    {view : SavedView} (asked : newView input id createdAt = .ok view) :
    serveView S (.create input id createdAt) st = answered st (S.create view st) := serveView_create S st asked

theorem create_accepted {view : SavedView} {row : SavedViewRow} (accepted : SavedViewRow.accept view = some row) :
    (PostgresSavedViewStore X).create view rows =
      if (rows.any fun r => r.id = row.id ∨ X.toLowerCase r.name = X.toLowerCase row.name) = true then
        .error (.duplicateName view.name)
      else .ok (toSavedView row, rows ++ [row]) := by
  unfold PostgresSavedViewStore
  dsimp only
  rw [accepted]

theorem create_memory (view : SavedView) (views : List SavedView) : (InMemorySavedViewStore X).create view views =
    if (views.any fun v => X.toLowerCase (normalizeViewName v.name) = X.toLowerCase (normalizeViewName view.name)) = true then
      .error (.duplicateName view.name)
    else .ok (view, views ++ [view]) := rfl

/-- A new view is behind the others. -/
theorem Same.snoc (same : Same rows views) {input : CreateSavedViewInput} {id createdAt : Nat} {view : SavedView}
    {row : SavedViewRow} (made : Made input id createdAt view) (kept : toSavedView row = view)
    (fresh : view.id ∉ views.map (·.id)) : Same (rows ++ [row]) (views ++ [view]) := by
  refine ⟨by rw [List.map_append, same.kept, List.map_singleton, kept], ?_, ?_⟩
  · rw [List.map_append, List.nodup_append]
    refine ⟨same.ids, List.nodup_singleton _, ?_⟩
    rintro other there _ now rfl
    rw [List.map_singleton, List.mem_singleton] at now
    exact fresh (now ▸ there)
  · intro other there
    rcases List.mem_append.mp there with there | now
    · exact same.names other there
    · rw [List.mem_singleton.mp now, made.name, normalizeViewName_again]

theorem Same.erase (same : Same rows views) (id : Nat) :
    Same (rows.filter fun row => decide (row.id ≠ id)) (views.eraseP fun view => decide (view.id = id)) where
  kept := by
    rw [eraseP_unique same.ids, ← same.kept, List.filter_map]
    rfl
  ids := same.ids.sublist (List.eraseP_sublist.map _)
  names view there := same.names view (List.mem_of_mem_eraseP there)

theorem Same.serve (same : Same rows views) (fresh : ∀ id, request.created = some id → id ∉ views.map (·.id))
    (real : request.Real) :
    (serveView (PostgresSavedViewStore X) request rows).1 = (serveView (InMemorySavedViewStore X) request views).1 ∧
      Same (serveView (PostgresSavedViewStore X) request rows).2 (serveView (InMemorySavedViewStore X) request views).2 ∧
      ∀ id ∈ (serveView (InMemorySavedViewStore X) request views).2.map (·.id),
        id ∈ views.map (·.id) ∨ request.created = some id := by
  cases request with
  | create input id createdAt =>
    cases asked : newView input id createdAt with
    | error e =>
      rw [serveView_create _ rows asked, serveView_create _ views asked]
      exact ⟨rfl, same, fun _ => .inl⟩
    | ok view =>
      have made := newView_ok asked
      obtain ⟨row, accepted, kept⟩ := accept_made made (by rw [made.filter]; exact real)
      have new : view.id ∉ views.map (·.id) := fresh view.id (by rw [made.id]; rfl)
      rw [serveView_made _ rows asked, serveView_made _ views asked, create_accepted accepted, same.taken made kept new,
        create_memory]
      by_cases taken : (views.any fun v =>
        X.toLowerCase (normalizeViewName v.name) = X.toLowerCase (normalizeViewName view.name)) = true
      · rw [if_pos taken, if_pos taken]
        exact ⟨rfl, same, fun _ => .inl⟩
      · rw [if_neg taken, if_neg taken, kept]
        refine ⟨rfl, same.snoc made kept new, fun other there => ?_⟩
        rw [answered, List.map_append, List.mem_append] at there
        refine there.imp_right fun now => ?_
        rw [List.map_singleton, List.mem_singleton, made.id] at now
        rw [now]
        rfl
  | remove id =>
    have found : (rows.any fun row => decide (row.id = id)) = views.any fun view => decide (view.id = id) :=
      same.any fun view => decide (view.id = id)
    have left : serveView (PostgresSavedViewStore X) (.remove id) rows =
        removed rows (if (rows.any fun row => decide (row.id = id)) = true then
          some (rows.filter fun row => decide (row.id ≠ id)) else none) := rfl
    have right : serveView (InMemorySavedViewStore X) (.remove id) views =
        removed views (if (views.any fun view => decide (view.id = id)) = true then
          some (views.eraseP fun view => decide (view.id = id)) else none) := rfl
    rw [left, right, found]
    by_cases there : (views.any fun view => decide (view.id = id)) = true
    · rw [if_pos there, if_pos there]
      exact ⟨rfl, same.erase id, fun other there => .inl ((List.eraseP_sublist.map _).subset there)⟩
    · rw [if_neg there, if_neg there]
      exact ⟨rfl, same, fun _ => .inl⟩

theorem serveViews_same (same : Same rows views) (real : ∀ request ∈ requests, request.Real)
    (distinct : (requests.filterMap ViewRequest.created).Nodup)
    (fresh : ∀ id ∈ requests.filterMap ViewRequest.created, id ∉ views.map (·.id)) :
    (serveViews (PostgresSavedViewStore X) requests rows).1 = (serveViews (InMemorySavedViewStore X) requests views).1 ∧
      Same (serveViews (PostgresSavedViewStore X) requests rows).2
        (serveViews (InMemorySavedViewStore X) requests views).2 := by
  induction requests generalizing rows views with
  | nil => exact ⟨rfl, same⟩
  | cons request requests ih =>
    have first : ∀ id, request.created = some id → id ∉ views.map (·.id) :=
      fun id new => fresh id (List.mem_filterMap.mpr ⟨request, List.mem_cons_self, new⟩)
    obtain ⟨answers, next, ids⟩ := same.serve (X := X) first (real request List.mem_cons_self)
    have distinct' : (requests.filterMap ViewRequest.created).Nodup :=
      distinct.sublist ((List.sublist_cons_self _ _).filterMap _)
    obtain ⟨rest, last⟩ := ih next (fun request there => real request (List.mem_cons_of_mem _ there)) distinct' (by
      intro id later there
      rcases ids id there with before | now
      · obtain ⟨request', there', new⟩ := List.mem_filterMap.mp later
        exact fresh id (List.mem_filterMap.mpr ⟨request', List.mem_cons_of_mem _ there', new⟩) before
      · rw [List.filterMap_cons_some now, List.nodup_cons] at distinct
        exact distinct.1 later)
    exact ⟨congrArg₂ List.cons answers rest, last⟩

end Stores

/-! ### What a view lists -/

/-- The transaction meets every criterion, each by itself. -/
structure Meets (X : TextContext) (filter : SavedViewFilter) (t : Transaction) : Prop where
  account : ∀ accountId ∈ nonEmpty filter.accountId, t.accountId = accountId
  category : ∀ slug ∈ nonEmpty filter.categorySlug, t.categorySlug = slug
  kind : ∀ name ∈ nonEmpty filter.categoryKind, ∃ kind, kindNamed name = some kind ∧ kind.holds t.categorySlug = true
  from_ : ∀ date ∈ filter.dateFrom, unitsBefore t.postedAt date = false
  until_ : ∀ date ∈ filter.dateTo, unitsBefore date t.postedAt = false
  search : ∀ text ∈ nonEmpty filter.search, InMemoryTransactionStore.searched X text t = true
  pending : ∀ pending ∈ filter.pending, t.pending = pending
  recurring : ∀ recurring ∈ filter.recurring, t.isRecurring = recurring
  least : ∀ amount ∈ filter.amountMin, amount ≤ (|t.amount| : Int)
  most : ∀ amount ∈ filter.amountMax, ((|t.amount| : Int) : Rat) ≤ amount
  tag : ∀ tag ∈ nonEmpty filter.tag, ∃ tags, t.tags = some tags ∧ X.toLowerCase (trim tag) ∈ tags

section Meets

variable {X : TextContext} {filter : SavedViewFilter} {t : Transaction} {ledger : List Transaction} {size : Nat}

theorem all_iff {α : Type} {value : Option α} {p : α → Bool} : value.all p = true ↔ ∀ a ∈ value, p a = true := by
  cases value with
  | none => simp
  | some a => simp

theorem nonEmpty_nonEmpty (value : Option String) : nonEmpty (nonEmpty value) = nonEmpty value := by
  rw [nonEmpty, nonEmpty, Option.filter_filter]
  simp

theorem kindNamed_some {name : String} (known : name ∈ CATEGORY_KINDS.map Prod.fst) :
    ∃ kind, kindNamed name = some kind := by
  obtain ⟨entry, there, rfl⟩ := List.mem_map.mp known
  have found : (CATEGORY_KINDS.find? fun other => decide (other.1 = entry.1)).isSome = true :=
    List.find?_isSome.mpr ⟨entry, there, decide_eq_true rfl⟩
  obtain ⟨other, found⟩ := Option.isSome_iff_exists.mp found
  exact ⟨other.2, by rw [kindNamed, found]; rfl⟩

/-- The widened range says what the dates say that are given. -/
theorem range_iff (accepted : Accepted filter) (dated : isWithin t.postedAt ⟨"0001-01-01", "9999-12-31"⟩ = true)
    (size : Option Nat) :
    ((toTransactionQuery filter size).range.all fun range => isWithin t.postedAt range) = true ↔
      (∀ date ∈ filter.dateFrom, unitsBefore t.postedAt date = false) ∧
        ∀ date ∈ filter.dateTo, unitsBefore date t.postedAt = false := by
  have always : unitsBefore t.postedAt "0001-01-01" = false ∧ unitsBefore "9999-12-31" t.postedAt = false := by
    simpa [isWithin] using dated
  rw [toTransactionQuery, nonEmpty_shaped accepted.dateFrom, nonEmpty_shaped accepted.dateTo]
  cases start : filter.dateFrom <;> cases stop : filter.dateTo <;> simp [isWithin, always]

theorem least_iff {amount : Rat} (units : isMinorUnits amount = true) (n : Int) : amount.num ≤ n ↔ amount ≤ (n : Rat) := by
  conv_rhs => rw [← (whole units).2.2]
  exact Int.cast_le.symm

theorem most_iff {amount : Rat} (units : isMinorUnits amount = true) (n : Int) : n ≤ amount.num ↔ (n : Rat) ≤ amount := by
  conv_rhs => rw [← (whole units).2.2]
  exact Int.cast_le.symm

theorem kind_iff (accepted : Accepted filter) (slug : String) :
    (((nonEmpty filter.categoryKind).bind kindNamed).all fun kind => kind.holds slug) = true ↔
      ∀ name ∈ nonEmpty filter.categoryKind, ∃ kind, kindNamed name = some kind ∧ kind.holds slug = true := by
  cases given : nonEmpty filter.categoryKind with
  | none => simp
  | some name =>
    have known := accepted.categoryKind name (Option.mem_filter_iff.mp given).1
    obtain ⟨kind, named⟩ := kindNamed_some known
    simp [named]

theorem tag_iff (tag : String) : (t.tags.any fun tags => tags.any fun other => decide (other = tag)) = true ↔
    ∃ tags, t.tags = some tags ∧ tag ∈ tags := by
  cases t.tags with
  | none => simp
  | some tags => simp

theorem selects_iff (accepted : Accepted filter) (dated : isWithin t.postedAt ⟨"0001-01-01", "9999-12-31"⟩ = true)
    (size : Option Nat) :
    InMemoryTransactionStore.selects X (toTransactionQuery filter size) t = true ↔ Meets X filter t := by
  have range := range_iff (t := t) accepted dated size
  have kind : ((toTransactionQuery filter size).categoryKind.all fun kind => kind.holds t.categorySlug) = true ↔ _ :=
    kind_iff accepted t.categorySlug
  have least : ((toTransactionQuery filter size).amountMin.all fun amountMin => decide (amountMin ≤ |t.amount|)) = true ↔
      ∀ amount ∈ filter.amountMin, amount ≤ (|t.amount| : Int) := by
    rw [toTransactionQuery, Option.all_map, all_iff]
    exact forall₂_congr fun amount given => decide_eq_true_iff.trans (least_iff (accepted.amountMin amount given) _)
  have most : ((toTransactionQuery filter size).amountMax.all fun amountMax => decide (|t.amount| ≤ amountMax)) = true ↔
      ∀ amount ∈ filter.amountMax, ((|t.amount| : Int) : Rat) ≤ amount := by
    rw [toTransactionQuery, Option.all_map, all_iff]
    exact forall₂_congr fun amount given => decide_eq_true_iff.trans (most_iff (accepted.amountMax amount given) _)
  unfold InMemoryTransactionStore.selects
  simp only [Bool.and_eq_true, range, kind, least, most]
  simp only [toTransactionQuery, nonEmpty_nonEmpty, all_iff, tag_iff, decide_eq_true_iff]
  constructor
  · rintro ⟨⟨⟨⟨⟨⟨⟨⟨⟨⟨account, category⟩, kind⟩, from_, until_⟩, -⟩, search⟩, pending⟩, recurring⟩, least⟩, most⟩, tag⟩
    exact ⟨account, category, kind, from_, until_, search, pending, recurring, least, most, tag⟩
  · intro meets
    exact ⟨⟨⟨⟨⟨⟨⟨⟨⟨⟨meets.account, meets.category⟩, meets.kind⟩, meets.from_, meets.until_⟩, by simp⟩, meets.search⟩,
      meets.pending⟩, meets.recurring⟩, meets.least⟩, meets.most⟩, meets.tag⟩

/-- The request that the view is from. -/
def Asked (requests : List ViewRequest) (view : SavedView) : Prop :=
  ∃ input createdAt, .create input view.id createdAt ∈ requests ∧ Made input view.id createdAt view

theorem serveView_asked {request : ViewRequest} {views : List SavedView} {view : SavedView}
    (there : view ∈ (serveView (InMemorySavedViewStore X) request views).2) : view ∈ views ∨ Asked [request] view := by
  cases request with
  | create input id createdAt =>
    cases asked : newView input id createdAt with
    | error e =>
      rw [serveView_create _ views asked] at there
      exact .inl there
    | ok new =>
      have made := newView_ok asked
      rw [serveView_made _ views asked, create_memory] at there
      by_cases taken : (views.any fun v =>
        X.toLowerCase (normalizeViewName v.name) = X.toLowerCase (normalizeViewName new.name)) = true
      · rw [if_pos taken] at there
        exact .inl there
      · rw [if_neg taken] at there
        rcases List.mem_append.mp there with there | now
        · exact .inl there
        · rw [List.mem_singleton.mp now]
          exact .inr ⟨input, createdAt, by rw [made.id]; exact List.mem_singleton_self _, by rw [made.id]; exact made⟩
  | remove id =>
    have served : serveView (InMemorySavedViewStore X) (.remove id) views =
        removed views (if (views.any fun view => decide (view.id = id)) = true then
          some (views.eraseP fun view => decide (view.id = id)) else none) := rfl
    rw [served] at there
    split at there
    · exact .inl (List.mem_of_mem_eraseP there)
    · exact .inl there

theorem serveViews_asked {requests : List ViewRequest} {views : List SavedView} {view : SavedView}
    (there : view ∈ (serveViews (InMemorySavedViewStore X) requests views).2) : view ∈ views ∨ Asked requests view := by
  induction requests generalizing views with
  | nil => exact .inl there
  | cons request requests ih =>
    rcases ih there with there | ⟨input, createdAt, asked, made⟩
    · rcases serveView_asked there with there | ⟨input, createdAt, asked, made⟩
      · exact .inl there
      · rw [List.mem_singleton] at asked
        exact .inr ⟨input, createdAt, asked ▸ List.mem_cons_self, made⟩
    · exact .inr ⟨input, createdAt, List.mem_cons_of_mem _ asked, made⟩

open scoped Classical in
/-- Whatever else was asked, a view that is applied lists the latest transactions of those that meet every
criterion of the request that it is from, and no others. -/
theorem applied_lists {requests : List ViewRequest} {id : Nat} {view : SavedView} {rows : List Transaction} (some_ : 0 < size)
    (dated : ∀ t ∈ ledger, isWithin t.postedAt ⟨"0001-01-01", "9999-12-31"⟩ = true)
    (applied : applyView (InMemorySavedViewStore X) (InMemoryTransactionStore.list X ledger) id size
      (serveViews (InMemorySavedViewStore X) requests []).2 = .ok (view, rows)) :
    ∃ input createdAt, .create input id createdAt ∈ requests ∧ view.filter = input.filter.getD {} ∧
      rows = (Categorization.TransactionStore.list X (ledger.filter fun t => Meets X (input.filter.getD {}) t)).take size := by
  unfold applyView at applied
  cases found : (InMemorySavedViewStore X).get id (serveViews (InMemorySavedViewStore X) requests []).2 with
  | none =>
    rw [found] at applied
    cases applied
  | some kept =>
    rw [found] at applied
    obtain ⟨rfl, rfl⟩ := Prod.mk.inj (Except.ok.inj applied)
    obtain rfl : kept.id = id := Table.lookup_key found
    rcases serveViews_asked (Table.lookup_mem found) with none_ | ⟨input, createdAt, asked, made⟩
    · cases none_
    · refine ⟨input, createdAt, asked, made.filter, ?_⟩
      have chosen : ledger.filter (InMemoryTransactionStore.selects X (toTransactionQuery kept.filter (some size))) =
          ledger.filter fun t => Meets X (input.filter.getD {}) t := by
        refine List.filter_congr fun t there => ?_
        rw [Bool.eq_iff_iff, selects_iff made.accepted (dated t there), decide_eq_true_iff, made.filter]
      have limit : (toTransactionQuery kept.filter (some size)).limit = some size := rfl
      unfold InMemoryTransactionStore.list
      rw [chosen, limit]
      cases size with
      | zero => exact absurd some_ (Nat.lt_irrefl 0)
      | succ size => rfl

end Meets

/-! ### Coffee since May -/

def coffeeRow : TransactionRow :=
  purchase "COFFEE BAR" (Categorization.normalizeDescriptor Categorization.ascii.toLowerCase "COFFEE BAR")

def coffeeFilter : SavedViewFilter := { search := some "coffee", dateFrom := some "2026-05-01", amountMax := some 500 }

/-- A second view of the name is refused. -/
def coffeeRequests : List ViewRequest :=
  [.create { name := some " Coffee", filter := some coffeeFilter } 1 10,
    .create { name := some "COFFEE", filter := some { pending := some true } } 2 11]

def coffeeView : SavedView := ⟨1, "Coffee", coffeeFilter, 10⟩

def capitalView : SavedView := ⟨2, "COFFEE", { pending := some true }, 11⟩

theorem coffee_taken : ([coffeeView].any fun v => Categorization.ascii.toLowerCase (normalizeViewName v.name) =
    Categorization.ascii.toLowerCase (normalizeViewName capitalView.name)) = true := by
  have small : normalizeViewName coffeeView.name = "Coffee" := by decide +kernel
  have capital : normalizeViewName capitalView.name = "COFFEE" := by decide +kernel
  have lowered : Categorization.ascii.toLowerCase "Coffee" = Categorization.ascii.toLowerCase "COFFEE" := by
    change String.toLower _ = String.toLower _
    rw [← String.toList_inj, Categorization.toList_toLower, Categorization.toList_toLower]
    decide +kernel
  rw [List.any_cons, small, capital, lowered, decide_eq_true rfl, Bool.true_or]

theorem coffee_kept :
    (serveViews (InMemorySavedViewStore Categorization.ascii) coffeeRequests []).2 = [coffeeView] := by
  have first : newView { name := some " Coffee", filter := some coffeeFilter } 1 10 = .ok coffeeView := rfl
  have second : newView { name := some "COFFEE", filter := some { pending := some true } } 2 11 = .ok capitalView := rfl
  have kept : (serveView (InMemorySavedViewStore Categorization.ascii)
      (.create { name := some " Coffee", filter := some coffeeFilter } 1 10) []).2 = [coffeeView] :=
    congrArg Prod.snd (serveView_create _ [] first)
  rw [coffeeRequests, serveViews_cons, serveViews_cons, kept, serveView_made _ [coffeeView] second, create_memory,
    if_pos coffee_taken]
  rfl

theorem coffee_selected : InMemoryTransactionStore.selects Categorization.ascii (toTransactionQuery coffeeFilter (some 50))
    (toTransaction coffeeRow) = true := by
  decide +kernel

theorem coffee_applied : applyView (InMemorySavedViewStore Categorization.ascii)
    (InMemoryTransactionStore.list Categorization.ascii [toTransaction coffeeRow]) 1 50
    (serveViews (InMemorySavedViewStore Categorization.ascii) coffeeRequests []).2 =
    .ok (coffeeView, [toTransaction coffeeRow]) := by
  have listed : InMemoryTransactionStore.list Categorization.ascii [toTransaction coffeeRow]
      (toTransactionQuery coffeeFilter (some 50)) = [toTransaction coffeeRow] := by
    rw [InMemoryTransactionStore.list, List.filter_cons_of_pos coffee_selected]
    rfl
  rw [coffee_kept]
  exact congrArg (fun rows => Except.ok (_, rows)) listed

open scoped Classical in
theorem coffee_view_lists : ∃ input createdAt, .create input 1 createdAt ∈ coffeeRequests ∧
    coffeeFilter = input.filter.getD {} ∧ [toTransaction coffeeRow] = (Categorization.TransactionStore.list Categorization.ascii
      ([toTransaction coffeeRow].filter fun t => Meets Categorization.ascii (input.filter.getD {}) t)).take 50 :=
  applied_lists (by decide) (by simp [coffeeRow, purchase, toTransaction]; decide +kernel) coffee_applied

end Finverse.Ledger
