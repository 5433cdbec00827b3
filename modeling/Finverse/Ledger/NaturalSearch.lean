import Finverse.Ledger.Query
import Finverse.Statements.Drafts

/-! The interpretation of a search text: the phrases that are recognised, and the filters that they
name. -/

namespace Finverse.Ledger

open Auth (trim)
open Imports (daysInMonth decimal padStart utcYear)
open Insights (CATEGORIES)
open Pattern (edge group many opt)
open Statements.Text (TextPattern boundary century digits phrase phrases spaces)

/-! ### Phrases -/

/-- What is said to the user of a search, item by item. -/
inductive Phrase
  | lastMonth
  | thisMonth
  | yesterday
  | today
  | month (index year : Nat)
  | lower (word : String) (amount : Nat)
  | upper (word : String) (amount : Nat)
  | exactly (amount : Nat)
  | pendingOnly
  | postedOnly
  | recurringOnly
  | category (slug name : String)
  | «matching» (text : String)
  deriving DecidableEq, Repr

def MONTHS : List String :=
  ["january", "february", "march", "april", "may", "june", "july", "august", "september", "october",
    "november", "december"]

def formatPlainAmount (minorUnits : Nat) : String :=
  "$" ++ toString (minorUnits / 100) ++ "." ++ String.ofList (padStart 2 (minorUnits % 100))

/-- The text of an item. Months are counted from 1. -/
def Phrase.label : Phrase → String
  | lastMonth => "last month"
  | thisMonth => "this month"
  | yesterday => "yesterday"
  | today => "today"
  | month index year => MONTHS.getD (index - 1) "" ++ " " ++ toString year
  | lower word amount => "amount " ++ word ++ " " ++ formatPlainAmount amount
  | upper word amount => "amount " ++ word ++ " " ++ formatPlainAmount amount
  | exactly amount => "amount exactly " ++ formatPlainAmount amount
  | pendingOnly => "pending only"
  | postedOnly => "posted only"
  | recurringOnly => "recurring only"
  | category _ name => "category " ++ name
  | «matching» text => "matching “" ++ text ++ "”"

structure InterpretedQuery where
  categorySlug : Option String := none
  range : Option DateRange := none
  search : Option String := none
  pending : Option Bool := none
  recurring : Option Bool := none
  amountMin : Option Int := none
  amountMax : Option Int := none
  deriving DecidableEq, Repr

/-! ### Dates -/

def iso (year month day : Nat) : IsoDate :=
  String.ofList (padStart 4 year ++ '-' :: padStart 2 month ++ '-' :: padStart 2 day)

def isoOf (date : Insights.Date) : IsoDate := iso date.year date.month date.day

def monthRange (year month : Nat) : DateRange :=
  ⟨iso (utcYear year) month 1, iso (utcYear year) month (daysInMonth (utcYear year) month)⟩

def lastMonthRange (today : Insights.Date) : DateRange :=
  if today.month = 1 then monthRange (utcYear today.year - 1) 12
  else monthRange (utcYear today.year) (today.month - 1)

def monthToDate (today : Insights.Date) : DateRange :=
  ⟨iso (utcYear today.year) today.month 1, isoOf today⟩

def dayBefore (today : Insights.Date) : IsoDate :=
  if today.day ≠ 1 then iso today.year today.month (today.day - 1)
  else if today.month ≠ 1 then
    iso today.year (today.month - 1) (daysInMonth today.year (today.month - 1))
  else iso (today.year - 1) 12 31

/-! ### Recognising -/

/-- The text that is left, the filters, and the items of the explanation. -/
structure Reading where
  remaining : List Char
  query : InterpretedQuery
  explained : List Phrase
  deriving DecidableEq, Repr

/-- The first match, and the text with a blank in its place. -/
def consume (pattern : TextPattern) (remaining : List Char) :
    Option (Pattern.Found Char × List Char) :=
  (pattern.exec remaining).map fun found =>
    (found, found.start.before.reverse ++ ' ' :: found.stop.ahead)

/-- `\b(text)\b`, in letters of any case. -/
def wordOf (pattern : TextPattern) : TextPattern := Pattern.all [boundary, pattern, boundary]

/-- The text of a group in lower case. -/
def lowered (found : Pattern.Found Char) (index : Nat) : String :=
  String.ofList (((found.group? index).getD []).map Char.toLower)

/-- `replace(pattern, ' ')` -/
def blankAll (pattern : TextPattern) : Nat → List Char → List Char → List Char
  | 0, _, ahead => ahead
  | fuel + 1, before, ahead =>
    match pattern.execFrom before ahead with
    | none => ahead
    | some found =>
      (found.start.before.take (found.start.before.length - before.length)).reverse ++
        ' ' :: blankAll pattern fuel found.stop.before found.stop.ahead

section Steps

variable (today : Insights.Date)

def relativeDates : List (TextPattern × DateRange × Phrase) :=
  [(wordOf (phrase "last month"), lastMonthRange today, .lastMonth),
    (wordOf (phrase "this month"), monthToDate today, .thisMonth),
    (wordOf (phrase "yesterday"), ⟨dayBefore today, dayBefore today⟩, .yesterday),
    (wordOf (phrase "today"), ⟨isoOf today, isoOf today⟩, .today)]

/-- The first entry of a table that is found. -/
def consumeFirst {α : Type} : List (TextPattern × α) → List Char → Option (α × List Char)
  | [], _ => none
  | (pattern, value) :: table, remaining =>
    match consume pattern remaining with
    | some (_, rest) => some (value, rest)
    | none => consumeFirst table remaining

def readRelativeDate (r : Reading) : Reading :=
  match consumeFirst (relativeDates today) r.remaining with
  | none => r
  | some ((range, item), rest) =>
    ⟨rest, { r.query with range := some range }, r.explained ++ [item]⟩

/-- `\b(january|…)(?:\s+(20\d{2}))?\b` -/
def monthPattern : TextPattern :=
  Pattern.all [boundary, group 1 (phrases MONTHS), opt (.seq (spaces 1) (group 2 century)), boundary]

/-- Without a year the most recent month of the name. -/
def readMonth (r : Reading) : Reading :=
  if r.query.range ≠ none then r
  else
    match consume monthPattern r.remaining with
    | none => r
    | some (found, rest) =>
      let month := MONTHS.idxOf (lowered found 1) + 1
      let year :=
        match found.group? 2 with
        | some year => decimal year
        | none => if today.month < month then today.year - 1 else today.year
      ⟨rest, { r.query with range := some (monthRange year month) },
        r.explained ++ [.month month year]⟩

/-- `\$?\s*(\d+(?:\.\d{1,2})?)\b` behind some words -/
def boundPattern (words : List String) : TextPattern :=
  Pattern.all [boundary, group 1 (phrases words), spaces 0, Statements.Text.optional ['$'], spaces 0,
    group 2 (.seq (many Char.isDigit 1 none) (opt (.seq (.one (· == '.')) (digits 1 2)))), boundary]

def toMinorUnits (value : List Char) : Nat :=
  let whole := value.takeWhile (· ≠ '.')
  let fraction := (value.drop (whole.length + 1)).takeWhile (· ≠ '.')
  decimal whole * 100 + decimal (fraction ++ List.replicate (2 - fraction.length) '0')

def readLowerBound (r : Reading) : Reading :=
  match consume (boundPattern ["over", "more than", "above", "at least"]) r.remaining with
  | none => r
  | some (found, rest) =>
    let amount := toMinorUnits ((found.group? 2).getD [])
    let word := lowered found 1
    ⟨rest, { r.query with amountMin := some (if word = "at least" then amount else amount + 1) },
      r.explained ++ [.lower word amount]⟩

def readUpperBound (r : Reading) : Reading :=
  match consume (boundPattern ["under", "less than", "below", "at most"]) r.remaining with
  | none => r
  | some (found, rest) =>
    let amount := toMinorUnits ((found.group? 2).getD [])
    let word := lowered found 1
    ⟨rest, { r.query with amountMax := some (if word = "at most" then amount else max 0 (amount - 1)) },
      r.explained ++ [.upper word amount]⟩

/-- `(?:\bexactly\s*)?\$\s*(\d+(?:\.\d{1,2})?)\b` -/
def exactPattern : TextPattern :=
  Pattern.all [opt (Pattern.all [boundary, phrase "exactly", spaces 0]), .one (· == '$'), spaces 0,
    group 1 (.seq (many Char.isDigit 1 none) (opt (.seq (.one (· == '.')) (digits 1 2)))), boundary]

def readExact (r : Reading) : Reading :=
  if r.query.amountMin ≠ none ∨ r.query.amountMax ≠ none then r
  else
    match consume exactPattern r.remaining with
    | none => r
    | some (found, rest) =>
      let amount := toMinorUnits ((found.group? 1).getD [])
      ⟨rest, { r.query with amountMin := some amount, amountMax := some amount },
        r.explained ++ [.exactly amount]⟩

def readPending (r : Reading) : Reading :=
  match consume (wordOf (phrase "pending")) r.remaining with
  | some (_, rest) => ⟨rest, { r.query with pending := some true }, r.explained ++ [.pendingOnly]⟩
  | none =>
    match consume (wordOf (phrases ["posted", "settled"])) r.remaining with
    | some (_, rest) => ⟨rest, { r.query with pending := some false }, r.explained ++ [.postedOnly]⟩
    | none => r

def readRecurring (r : Reading) : Reading :=
  match consume (wordOf (phrase "recurring")) r.remaining with
  | some (_, rest) => ⟨rest, { r.query with recurring := some true }, r.explained ++ [.recurringOnly]⟩
  | none => r

/-- The names of the categories, in the order of the tree. -/
def CATEGORY_NAMES : List (String × String) :=
  [("housing", "Housing"), ("rent", "Rent"), ("mortgage", "Mortgage"), ("utilities", "Utilities"),
    ("internet", "Internet"), ("phone", "Phone"), ("food", "Food"), ("groceries", "Groceries"),
    ("restaurants", "Restaurants"), ("coffee", "Coffee"), ("fast_food", "Fast Food"),
    ("food_delivery", "Food Delivery"), ("transportation", "Transportation"), ("fuel", "Fuel"),
    ("public_transit", "Public Transit"), ("rideshare", "Ride Sharing"), ("parking", "Parking"),
    ("healthcare", "Healthcare"), ("pharmacy", "Pharmacy"), ("insurance", "Insurance"),
    ("shopping", "Shopping"), ("clothing", "Clothing"), ("electronics", "Electronics"),
    ("entertainment", "Entertainment"), ("streaming", "Streaming"), ("gaming", "Gaming"),
    ("fitness", "Fitness"), ("travel", "Travel"), ("subscriptions", "Subscriptions"),
    ("software", "Software"), ("debt", "Debt"), ("loan_payment", "Loan Payment"),
    ("credit_card_payment", "Credit Card Payment"), ("taxes", "Taxes"), ("fees", "Fees & Interest"),
    ("income", "Income"), ("salary", "Salary"), ("freelance", "Freelance"), ("refunds", "Refunds"),
    ("interest_income", "Interest"), ("savings", "Savings"), ("investments", "Investments"),
    ("transfer", "Transfer"), ("unknown", "Unknown")]

/-- Every category has its name. -/
theorem categoryNames_categories : CATEGORY_NAMES.map Prod.fst = CATEGORIES.map Prod.fst := rfl

structure CategoryAlias where
  phrase : String
  slug : String
  name : String
  deriving DecidableEq, Repr

/-- The longest phrase first. -/
def categoryAliases : List CategoryAlias :=
  let named : List CategoryAlias := CATEGORY_NAMES.map fun (slug, name) => ⟨name.toLower, slug, name⟩
  let more : List CategoryAlias := [⟨"gas", "fuel", "Fuel"⟩, ⟨"restaurant", "restaurants", "Restaurants"⟩]
  (named ++ more).insertionSort fun left right => right.phrase.length ≤ left.phrase.length

def readCategory (r : Reading) : Reading :=
  match consumeFirst (categoryAliases.map fun category => (wordOf (phrase category.phrase), category))
      r.remaining with
  | none => r
  | some (category, rest) =>
    ⟨rest, { r.query with categorySlug := some category.slug },
      r.explained ++ [.category category.slug category.name]⟩

def fillerPattern : TextPattern :=
  Pattern.all [boundary, Pattern.any [phrases ["show", "find", "list", "me", "all"],
    .seq (phrase "transaction") (Statements.Text.optional ['s', 'S']),
    .seq (phrase "purchase") (Statements.Text.optional ['s', 'S']), phrase "spending",
    .seq (phrase "expense") (Statements.Text.optional ['s', 'S']),
    phrases ["from", "during", "in", "for", "and"]], boundary]

/-- What is left without the words that say nothing. -/
def withoutFiller (remaining : List Char) : String :=
  Statements.tidy (blankAll fillerPattern (remaining.length + 1) [] remaining)

/-- All steps but the last, one after another. -/
def recognised (input : String) : Reading :=
  readCategory (readRecurring (readPending (readExact (readUpperBound (readLowerBound
    (readMonth today (readRelativeDate today ⟨(trim input).toList, {}, []⟩)))))))

/-- The text that is searched for. -/
def residual (input : String) : String := withoutFiller (recognised today input).remaining

end Steps

structure NaturalTransactionSearch where
  query : InterpretedQuery
  explained : List Phrase
  deriving DecidableEq, Repr

/-- What the user is told, unless nothing was recognised. -/
def NaturalTransactionSearch.explanation (search : NaturalTransactionSearch) : Option String :=
  if search.explained = [] then none
  else some ("Interpreted as " ++ ", ".intercalate (search.explained.map Phrase.label) ++ ".")

def interpretTransactionSearch (input : String) (today : Insights.Date) : NaturalTransactionSearch :=
  let r := recognised today input
  let remaining := residual today input
  if r.explained = [] then ⟨{ search := some (trim input) }, []⟩
  else if remaining = "" then ⟨r.query, r.explained⟩
  else ⟨{ r.query with search := some remaining }, r.explained ++ [.«matching» remaining]⟩

/-! ### What the explanation names -/

/-- The filter that an item names, among others. Amounts are magnitudes, of which none is below zero. -/
def Phrase.adds (today : Insights.Date) (q : InterpretedQuery) : Phrase → InterpretedQuery
  | .lastMonth => { q with range := some (lastMonthRange today) }
  | .thisMonth => { q with range := some (monthToDate today) }
  | .yesterday => { q with range := some ⟨dayBefore today, dayBefore today⟩ }
  | .today => { q with range := some ⟨isoOf today, isoOf today⟩ }
  | .month index year => { q with range := some (monthRange year index) }
  | .lower word amount =>
    { q with amountMin := some (if word = "at least" then amount else amount + 1) }
  | .upper word amount =>
    { q with amountMax := some (if word = "at most" then amount else max 0 (amount - 1)) }
  | .exactly amount => { q with amountMin := some amount, amountMax := some amount }
  | .pendingOnly => { q with pending := some true }
  | .postedOnly => { q with pending := some false }
  | .recurringOnly => { q with recurring := some true }
  | .category slug _ => { q with categorySlug := some slug }
  | .«matching» text => { q with search := some text }

/-- The filters that the items of an explanation name. -/
def named (today : Insights.Date) (explained : List Phrase) : InterpretedQuery :=
  explained.foldl (Phrase.adds today) {}

variable {today : Insights.Date} {r : Reading} {input : String}

theorem named_snoc (explained : List Phrase) (p : Phrase) :
    named today (explained ++ [p]) = p.adds today (named today explained) := by
  rw [named, List.foldl_append, List.foldl_cons, List.foldl_nil, named]

/-- The filters so far are those of the explanation, and no text is searched for. -/
structure Explains (today : Insights.Date) (r : Reading) : Prop where
  query : r.query = named today r.explained
  search : r.query.search = none

theorem Explains.snoc (h : Explains today r) {rest : List Char} {query : InterpretedQuery} {p : Phrase}
    (added : query = p.adds today r.query) (kept : query.search = r.query.search) :
    Explains today ⟨rest, query, r.explained ++ [p]⟩ where
  query := by rw [named_snoc, ← h.query, added]
  search := kept.trans h.search

theorem consumeFirst_mem {α : Type} {table : List (TextPattern × α)} {remaining rest : List Char} {value : α}
    (h : consumeFirst table remaining = some (value, rest)) : ∃ pattern, (pattern, value) ∈ table := by
  induction table with
  | nil => cases h
  | cons entry table ih =>
    rw [consumeFirst] at h
    split at h
    · obtain ⟨rfl, rfl⟩ := Prod.mk.inj (Option.some.inj h)
      exact ⟨entry.1, List.mem_cons_self⟩
    · obtain ⟨pattern, listed⟩ := ih h
      exact ⟨pattern, List.mem_cons_of_mem _ listed⟩

theorem Explains.relativeDate (h : Explains today r) : Explains today (readRelativeDate today r) := by
  unfold readRelativeDate
  split
  · exact h
  · next range item rest found =>
    obtain ⟨pattern, listed⟩ := consumeFirst_mem found
    refine h.snoc ?_ rfl
    simp only [relativeDates, List.mem_cons, Prod.mk.injEq, List.not_mem_nil, or_false] at listed
    rcases listed with ⟨-, rfl, rfl⟩ | ⟨-, rfl, rfl⟩ | ⟨-, rfl, rfl⟩ | ⟨-, rfl, rfl⟩ <;> rfl

theorem Explains.month (h : Explains today r) : Explains today (readMonth today r) := by
  unfold readMonth
  split
  · exact h
  · split
    · exact h
    · exact h.snoc rfl rfl

theorem Explains.lowerBound (h : Explains today r) : Explains today (readLowerBound r) := by
  unfold readLowerBound
  split
  · exact h
  · exact h.snoc rfl rfl

theorem Explains.upperBound (h : Explains today r) : Explains today (readUpperBound r) := by
  unfold readUpperBound
  split
  · exact h
  · exact h.snoc rfl rfl

theorem Explains.exact (h : Explains today r) : Explains today (readExact r) := by
  unfold readExact
  split
  · exact h
  · split
    · exact h
    · exact h.snoc rfl rfl

theorem Explains.pending (h : Explains today r) : Explains today (readPending r) := by
  unfold readPending
  split
  · exact h.snoc rfl rfl
  · split
    · exact h.snoc rfl rfl
    · exact h

theorem Explains.recurring (h : Explains today r) : Explains today (readRecurring r) := by
  unfold readRecurring
  split
  · exact h.snoc rfl rfl
  · exact h

-- Without the argument, so that the two sides are compared before the table of categories is evaluated.
theorem readCategory_eq : readCategory = fun r =>
    match consumeFirst (categoryAliases.map fun category => (wordOf (phrase category.phrase), category))
        r.remaining with
    | none => r
    | some (category, rest) =>
      ⟨rest, { r.query with categorySlug := some category.slug },
        r.explained ++ [.category category.slug category.name]⟩ := rfl

theorem Explains.category (h : Explains today r) : Explains today (readCategory r) := by
  rw [readCategory_eq]
  beta_reduce
  cases consumeFirst (categoryAliases.map fun category => (wordOf (phrase category.phrase), category))
    r.remaining with
  | none => exact h
  | some found => exact h.snoc rfl rfl

theorem recognised_explains (today : Insights.Date) (input : String) :
    Explains today (recognised today input) := by
  have start : Explains today ⟨(trim input).toList, {}, []⟩ := ⟨rfl, rfl⟩
  exact start.relativeDate.month.lowerBound.upperBound.exact.pending.recurring.category

theorem interpret_eq (explained : (interpretTransactionSearch input today).explained ≠ []) :
    interpretTransactionSearch input today =
      if residual today input = "" then ⟨(recognised today input).query, (recognised today input).explained⟩
      else ⟨{ (recognised today input).query with search := some (residual today input) },
        (recognised today input).explained ++ [.«matching» (residual today input)]⟩ := by
  unfold interpretTransactionSearch at explained ⊢
  dsimp only at explained ⊢
  by_cases nothing : (recognised today input).explained = []
  · rw [if_pos nothing] at explained
    exact absurd rfl explained
  · rw [if_neg nothing]

theorem Explains.shown (h : Explains today r) (text : String) :
    (if text = "" then (⟨r.query, r.explained⟩ : NaturalTransactionSearch)
      else ⟨{ r.query with search := some text }, r.explained ++ [.«matching» text]⟩).query =
    named today (if text = "" then (⟨r.query, r.explained⟩ : NaturalTransactionSearch)
      else ⟨{ r.query with search := some text }, r.explained ++ [.«matching» text]⟩).explained := by
  split
  · exact h.query
  · rw [named_snoc, ← h.query]
    rfl

theorem Explains.searched (h : Explains today r) (text : String) :
    (if text = "" then (⟨r.query, r.explained⟩ : NaturalTransactionSearch)
      else ⟨{ r.query with search := some text }, r.explained ++ [.«matching» text]⟩).query.search =
    if text = "" then none else some text := by
  split
  · exact h.search
  · rfl

/-- The filters are those of the explanation. -/
theorem interpret_named (explained : (interpretTransactionSearch input today).explained ≠ []) :
    (interpretTransactionSearch input today).query =
      named today (interpretTransactionSearch input today).explained := by
  rw [interpret_eq explained]
  exact (recognised_explains today input).shown _

/-- The text that is left is the text that is searched for. -/
theorem interpret_search (explained : (interpretTransactionSearch input today).explained ≠ []) :
    (interpretTransactionSearch input today).query.search =
      if residual today input = "" then none else some (residual today input) := by
  rw [interpret_eq explained]
  exact (recognised_explains today input).searched _

end Finverse.Ledger
