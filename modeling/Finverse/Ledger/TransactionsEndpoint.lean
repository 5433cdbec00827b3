import Finverse.Ledger.NaturalSearch
import Finverse.Ledger.Pages

/-! The endpoint that lists transactions: its parameters, its query and its answer. -/

namespace Finverse.Ledger

open Auth (trim)
open Categorization (TextContext)
open Imports (daysInMonth decimal)

/-- The parameters as they are sent. -/
structure TransactionsRequest where
  search : Option String := none
  category : Option String := none
  account : Option String := none
  «from» : Option String := none
  «to» : Option String := none
  limit : Option String := none
  before : Option String := none
  kind : Option String := none
  pending : Option String := none
  recurring : Option String := none
  minAmount : Option String := none
  maxAmount : Option String := none
  tag : Option String := none
  deriving DecidableEq, Repr

/-! ### Parameters -/

section Parameters

-- `Number(value)`, where it is a safe integer.
variable (number : String → Option Int)

def parseLimit (value : Option String) : Except HttpError Nat :=
  match value with
  | none => pure 50
  | some value =>
    match number value with
    | some parsed =>
      if 1 ≤ parsed ∧ parsed ≤ 1000 then pure parsed.toNat
      else throw (.badRequest "limit must be a whole number from 1 through 1000.")
    | none => throw (.badRequest "limit must be a whole number from 1 through 1000.")

def parseAmount (value : Option String) (field : String) : Except HttpError (Option Int) :=
  match nonEmpty value with
  | none => pure none
  | some value =>
    match number value with
    | some parsed =>
      if 0 ≤ parsed ∧ parsed ≤ 10000000000000 then pure (some parsed)
      else throw (.badRequest (field ++ " must be a non-negative minor-unit integer."))
    | none => throw (.badRequest (field ++ " must be a non-negative minor-unit integer."))

def parseOptionalBoolean (value : Option String) (field : String) : Except HttpError (Option Bool) :=
  match nonEmpty value with
  | none => pure none
  | some value =>
    if value = "true" then pure (some true)
    else if value = "false" then pure (some false)
    else throw (.badRequest (field ++ " must be true or false."))

def parseCategoryKind (value : Option String) : Except HttpError (Option QueryKind) :=
  match nonEmpty value with
  | none => pure none
  | some "expense" => pure (some .expense)
  | some "income" => pure (some .income)
  | some "transfer" => pure (some .transfer)
  | some "special" => pure (some .special)
  | some _ => throw (.badRequest "kind must be expense, income, transfer, or special.")

def isCalendarDate (value : String) : Bool :=
  let year := decimal (value.toList.take 4)
  let month := decimal ((value.toList.drop 5).take 2)
  let day := decimal (value.toList.drop 8)
  decide (1 ≤ month ∧ month ≤ 12 ∧ 1 ≤ day ∧ day ≤ daysInMonth year month)

def parseDate (value : Option String) (field : String) : Except HttpError (Option IsoDate) :=
  match nonEmpty value with
  | none => pure none
  | some value =>
    if !isDateShaped value then throw (.badRequest (field ++ " must be an ISO date (YYYY-MM-DD)."))
    else if !isCalendarDate value then throw (.badRequest (field ++ " must be a real calendar date."))
    else pure (some value)

end Parameters

/-! ### The endpoint -/

/-- The parameters as they are read. -/
structure Parameters where
  cursor : Option PageCursor
  pageSize : Nat
  «from» : Option IsoDate
  «to» : Option IsoDate
  minAmount : Option Int
  maxAmount : Option Int
  kind : Option QueryKind
  pending : Option Bool
  recurring : Option Bool
  deriving DecidableEq, Repr

/-- What is listed, and how the search was understood. -/
structure Listing where
  query : TransactionQuery
  pageSize : Nat
  interpretation : Option NaturalTransactionSearch

section Endpoint

variable (X : TextContext) (F : CursorFormat) (number : String → Option Int) (today : Insights.Date)

def parameters (request : TransactionsRequest) : Except HttpError Parameters := do
  let cursor ← decodeCursor F request.before
  let pageSize ← parseLimit number request.limit
  let parsedFrom ← parseDate request.«from» "from"
  let parsedTo ← parseDate request.«to» "to"
  let parsedMinAmount ← parseAmount number request.minAmount "minAmount"
  let parsedMaxAmount ← parseAmount number request.maxAmount "maxAmount"
  throwIf (parsedFrom.isNone ≠ parsedTo.isNone) (.badRequest "from and to must be provided together.")
  throwIf (parsedMinAmount.any fun low => parsedMaxAmount.any fun high => decide (high < low))
    (.badRequest "minAmount cannot be greater than maxAmount.")
  let kind ← parseCategoryKind request.kind
  let pending ← parseOptionalBoolean request.pending "pending"
  let recurring ← parseOptionalBoolean request.recurring "recurring"
  return ⟨cursor, pageSize, parsedFrom, parsedTo, parsedMinAmount, parsedMaxAmount, kind, pending,
    recurring⟩

/-- A search that is not blank is interpreted. -/
def interpreted (request : TransactionsRequest) : Option NaturalTransactionSearch :=
  (request.search.filter (trim · ≠ "")).map fun search => interpretTransactionSearch search today

/-- The query of a request: its parameters, and what the interpretation gives beside them. -/
def queryOf (request : TransactionsRequest) (p : Parameters) : TransactionQuery where
  search := ((interpreted today request).bind (·.query.search)).or request.search
  categorySlug := request.category.or ((interpreted today request).bind (·.query.categorySlug))
  accountId := request.account
  categoryKind := p.kind
  pending := p.pending.or ((interpreted today request).bind (·.query.pending))
  recurring := p.recurring.or ((interpreted today request).bind (·.query.recurring))
  amountMin := p.minAmount.or ((interpreted today request).bind (·.query.amountMin))
  amountMax := p.maxAmount.or ((interpreted today request).bind (·.query.amountMax))
  tag := nonEmpty (request.tag.map fun tag => X.toLowerCase (trim tag))
  range :=
    match p.«from», p.«to» with
    | some start, some end_ => some ⟨start, end_⟩
    | _, _ => (interpreted today request).bind (·.query.range)
  before := p.cursor
  limit := some p.pageSize

def listing (request : TransactionsRequest) : Except HttpError Listing := do
  let p ← parameters F number request
  return ⟨queryOf X today request p, p.pageSize, interpreted today request⟩

/-- The page, and what the user is told of the search. -/
def transactions (ledger : List Transaction) (request : TransactionsRequest) :
    Except HttpError (Page × Option String) := do
  let l ← listing X F number today request
  let rows := InMemoryTransactionStore.list X ledger l.query
  return (⟨rows.length, rows, nextCursor F l.pageSize rows⟩, l.interpretation.bind (·.explanation))

end Endpoint

variable {X : TextContext} {F : CursorFormat} {number : String → Option Int} {today : Insights.Date}
  {request : TransactionsRequest} {l : Listing} {text : String}

/-! ### What the parameters are -/

@[simp] theorem nonEmpty_eq_none {value : Option String} :
    nonEmpty value = none ↔ value = none ∨ value = some "" := by
  cases value <;> simp [nonEmpty, Option.filter_eq_none_iff]

/-- Each parameter is read by its own parser, and the dates of a range come together. -/
structure Reads (F : CursorFormat) (number : String → Option Int) (request : TransactionsRequest)
    (p : Parameters) : Prop where
  cursor : decodeCursor F request.before = .ok p.cursor
  pageSize : parseLimit number request.limit = .ok p.pageSize
  «from» : parseDate request.«from» "from" = .ok p.«from»
  «to» : parseDate request.«to» "to" = .ok p.«to»
  minAmount : parseAmount number request.minAmount "minAmount" = .ok p.minAmount
  maxAmount : parseAmount number request.maxAmount "maxAmount" = .ok p.maxAmount
  together : p.«from».isNone = p.«to».isNone
  kind : parseCategoryKind request.kind = .ok p.kind
  pending : parseOptionalBoolean request.pending "pending" = .ok p.pending
  recurring : parseOptionalBoolean request.recurring "recurring" = .ok p.recurring

theorem parameters_reads {p : Parameters} (h : parameters F number request = .ok p) :
    Reads F number request p := by
  unfold parameters at h
  obtain ⟨cursor, hcursor, h⟩ := bind_ok h
  obtain ⟨pageSize, hpageSize, h⟩ := bind_ok h
  obtain ⟨parsedFrom, hfrom, h⟩ := bind_ok h
  obtain ⟨parsedTo, hto, h⟩ := bind_ok h
  obtain ⟨low, hlow, h⟩ := bind_ok h
  obtain ⟨high, hhigh, h⟩ := bind_ok h
  obtain ⟨_, together, h⟩ := bind_ok h
  obtain ⟨_, -, h⟩ := bind_ok h
  obtain ⟨kind, hkind, h⟩ := bind_ok h
  obtain ⟨pending, hpending, h⟩ := bind_ok h
  obtain ⟨recurring, hrecurring, h⟩ := bind_ok h
  obtain rfl := Except.ok.inj h
  exact ⟨hcursor, hpageSize, hfrom, hto, hlow, hhigh, not_not.mp (throwIf_ok together), hkind, hpending,
    hrecurring⟩

theorem listing_eq (accepted : listing X F number today request = .ok l) : ∃ p, Reads F number request p ∧
    l = ⟨queryOf X today request p, p.pageSize, interpreted today request⟩ := by
  obtain ⟨p, read, h⟩ := bind_ok accepted
  exact ⟨p, parameters_reads read, (Except.ok.inj h).symm⟩

section Absent

variable {value : Option String} {field : String}

/-! A parameter that is not there, or is empty, stands for nothing. -/

theorem parseAmount_absent {amount : Option Int} (absent : nonEmpty value = none)
    (h : parseAmount number value field = .ok amount) : amount = none := by
  rw [parseAmount, absent] at h
  exact (Except.ok.inj h).symm

theorem parseOptionalBoolean_absent {flag : Option Bool} (absent : nonEmpty value = none)
    (h : parseOptionalBoolean value field = .ok flag) : flag = none := by
  rw [parseOptionalBoolean, absent] at h
  exact (Except.ok.inj h).symm

theorem parseCategoryKind_absent {kind : Option QueryKind} (absent : nonEmpty value = none)
    (h : parseCategoryKind value = .ok kind) : kind = none := by
  rw [parseCategoryKind, absent] at h
  exact (Except.ok.inj h).symm

theorem parseDate_absent {date : Option IsoDate} (absent : nonEmpty value = none)
    (h : parseDate value field = .ok date) : date = none := by
  rw [parseDate, absent] at h
  exact (Except.ok.inj h).symm

end Absent

/-! ### The pages of a query -/

/-- The answer is a page of what the query selects. -/
theorem transactions_page {ledger : List Transaction} (accepted : listing X F number today request = .ok l) :
    transactions X F number today ledger request =
      (transactionsPage X F ledger l.query l.pageSize request.before).map fun page =>
        (page, l.interpretation.bind (·.explanation)) := by
  obtain ⟨p, reads, rfl⟩ := listing_eq accepted
  rw [transactions, accepted, transactionsPage, reads.cursor]
  rfl

/-! ### The query of a search -/

/-- The query has the filters that are named, where the request has none of its own, and no others. -/
structure Applies (request : TransactionsRequest) (query : TransactionQuery) (named : InterpretedQuery) :
    Prop where
  search : query.search = named.search
  categorySlug : request.category = none → query.categorySlug = named.categorySlug
  range : nonEmpty request.«from» = none → query.range = named.range
  pending : nonEmpty request.pending = none → query.pending = named.pending
  recurring : nonEmpty request.recurring = none → query.recurring = named.recurring
  amountMin : nonEmpty request.minAmount = none → query.amountMin = named.amountMin
  amountMax : nonEmpty request.maxAmount = none → query.amountMax = named.amountMax
  accountId : request.account = none → query.accountId = none
  categoryKind : nonEmpty request.kind = none → query.categoryKind = none
  tag : request.tag = none → query.tag = none

/-- The rest of the filters is that of the interpretation. -/
theorem queryOf_applies {p : Parameters} {understood : NaturalTransactionSearch} (reads : Reads F number request p)
    (same : interpreted today request = some understood)
    (search : (queryOf X today request p).search = understood.query.search) :
    Applies request (queryOf X today request p) understood.query where
  search := search
  categorySlug absent := by simp [queryOf, same, absent]
  range absent := by
    have start := parseDate_absent absent reads.«from»
    simp [queryOf, same, start]
  pending absent := by simp [queryOf, same, parseOptionalBoolean_absent absent reads.pending]
  recurring absent := by simp [queryOf, same, parseOptionalBoolean_absent absent reads.recurring]
  amountMin absent := by simp [queryOf, same, parseAmount_absent absent reads.minAmount]
  amountMax absent := by simp [queryOf, same, parseAmount_absent absent reads.maxAmount]
  accountId absent := by simp [queryOf, absent]
  categoryKind absent := by simp [queryOf, parseCategoryKind_absent absent reads.kind]
  tag absent := by simp [queryOf, absent, nonEmpty]

/-- The query of a search that is explained has the filters of its explanation, if and only if some text
is left of it. -/
theorem search_applies_iff (X : TextContext) (F : CursorFormat) (number : String → Option Int)
    (today : Insights.Date) (request : TransactionsRequest) (l : Listing)
    (accepted : listing X F number today request = .ok l) (search : String)
    (searched : request.search = some search) (understood : NaturalTransactionSearch)
    (interpretation : l.interpretation = some understood) (explained : understood.explanation ≠ none) :
    Applies request l.query (named today understood.explained) ↔ residual today search ≠ "" := by
  obtain ⟨p, reads, rfl⟩ := listing_eq accepted
  have same : interpretTransactionSearch search today = understood := by
    rw [interpreted, searched] at interpretation
    obtain ⟨_, kept, same⟩ := Option.map_eq_some_iff.mp interpretation
    rwa [← Option.some.inj (Option.filter_eq_some_iff.mp kept).1] at same
  have some_ : understood.explained ≠ [] := by
    intro nothing
    rw [NaturalTransactionSearch.explanation, if_pos nothing] at explained
    exact explained rfl
  have text : understood.query.search =
      if residual today search = "" then none else some (residual today search) := by
    rw [← same] at some_ ⊢
    exact interpret_search some_
  have filters : understood.query = named today understood.explained := by
    rw [← same] at some_ ⊢
    exact interpret_named some_
  have query : (queryOf X today request p).search = understood.query.search.or (some search) := by
    rw [← searched]
    exact congrArg (fun i : Option NaturalTransactionSearch => (i.bind (·.query.search)).or request.search)
      interpretation
  rw [← filters]
  constructor
  · intro applies nothing
    have unfiltered := applies.search
    rw [query, text, if_pos nothing] at unfiltered
    cases unfiltered
  · intro rest
    apply queryOf_applies reads interpretation
    rw [query, text, if_neg rest, Option.some_or]

/-! ### A search that is understood whole -/

theorem august_month : 1 ≤ 8 ∧ 8 ≤ 12 := by decide

theorem august_day : 1 ≤ 15 ∧ 15 ≤ daysInMonth 2026 8 := by decide

def august : Insights.Date := ⟨2026, 8, 15, august_month, august_day⟩

def starbucksSearch : TransactionsRequest := { search := some "starbucks coffee" }

theorem interpret_starbucks : interpretTransactionSearch "starbucks coffee" august =
    ⟨{ categorySlug := some "coffee", search := some "starbucks" },
      [.category "coffee" "Coffee", .«matching» "starbucks"]⟩ := by
  decide +kernel

theorem interpreted_starbucks : interpreted august starbucksSearch =
    some (interpretTransactionSearch "starbucks coffee" august) := rfl

/-- A name is left, beside a category. -/
theorem starbucks_applies : ∃ l understood,
    listing Categorization.ascii markedFormat (fun _ => none) august starbucksSearch = .ok l ∧
      l.interpretation = some understood ∧
        Applies starbucksSearch l.query (named august understood.explained) := by
  have explained : (interpretTransactionSearch "starbucks coffee" august).explanation ≠ none := by
    rw [interpret_starbucks]
    simp [NaturalTransactionSearch.explanation]
  have rest : residual august "starbucks coffee" ≠ "" := by
    intro nothing
    have text := @interpret_search august "starbucks coffee" (by rw [interpret_starbucks]; simp)
    rw [interpret_starbucks, if_pos nothing] at text
    cases text
  exact ⟨_, _, rfl, interpreted_starbucks, (search_applies_iff Categorization.ascii markedFormat
    (fun _ => none) august starbucksSearch _ rfl "starbucks coffee" rfl _ interpreted_starbucks
    explained).mpr rest⟩

theorem interpret_groceries : interpretTransactionSearch "groceries" august =
    ⟨{ categorySlug := some "groceries" }, [.category "groceries" "Groceries"]⟩ := by
  decide +kernel

def market : Transaction :=
  { Categorization.cafe with
    rawDescriptor := "WHOLE FOODS MARKET"
    normalizedDescriptor := "whole foods market"
    categorySlug := "groceries" }

def groceriesSearch : TransactionsRequest := { search := some "groceries" }

theorem interpreted_groceries : interpreted august groceriesSearch =
    some ⟨{ categorySlug := some "groceries" }, [.category "groceries" "Groceries"]⟩ := by
  rw [← interpret_groceries]
  rfl

/-- The search for a category, and a transaction of the category that is not found. -/
theorem groceries_missed : ∃ l understood,
    listing Categorization.ascii markedFormat (fun _ => none) august groceriesSearch = .ok l ∧
      l.interpretation = some understood ∧
        understood.explanation = some "Interpreted as category Groceries." ∧
          ¬Applies groceriesSearch l.query (named august understood.explained) ∧
            InMemoryTransactionStore.list Categorization.ascii [market] l.query = [] := by
  let p : Parameters := ⟨none, 50, none, none, none, none, none, none, none⟩
  have query : queryOf Categorization.ascii august groceriesSearch p =
      { search := some "groceries", categorySlug := some "groceries", limit := some 50 } := by
    unfold queryOf
    rw [interpreted_groceries]
    rfl
  refine ⟨⟨queryOf Categorization.ascii august groceriesSearch p, 50, interpreted august groceriesSearch⟩,
    _, rfl, interpreted_groceries, rfl, ?_, ?_⟩
  · intro applies
    have search := applies.search
    rw [query] at search
    cases search
  · rw [query]
    decide +kernel

end Finverse.Ledger
