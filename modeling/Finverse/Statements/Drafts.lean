import Finverse.Categorization.Categorize
import Finverse.Framework.Pattern
import Finverse.Imports.CsvParse
import Finverse.Imports.Mapping
import Finverse.Statements.Types

/-! Rows drafted from the text of a statement. -/

namespace Finverse.Statements

open Auth (isJsSpace trim slice)
open Categorization (CategorizationResult CategorizeOptions TextContext UNKNOWN_CATEGORY
  categorizeDescriptor isWord normalizeDescriptor)
open Finverse.Imports (daysInMonth decimal linesFrom padStart)
open Ledger (CategorySource IsoDate Transaction)

/-- What the runtime and the user's own data decide for a statement. -/
structure StatementContext where
  text : TextContext
  options : CategorizeOptions
  toUpperCase : String → String
  numberToMinor : String → String → Option Int
  sha256 : String → String

structure StatementRowDraft where
  sourceLine : Nat
  postedAt : Option IsoDate
  description : String
  merchant : Option String
  amount : Option Int
  currency : String
  direction : Direction
  categorySlug : String
  categorySource : CategorySource
  categoryConfidence : Rat
  isRecurring : Bool
  flags : List String
  decision : StatementRowDecision
  fingerprint : String
  raw : String
  deriving DecidableEq, Repr

def MAX_ROWS : Nat := 10000

/-! ### Patterns of text -/

namespace Text

open Pattern

abbrev TextPattern := Pattern Char

def sameLetter (a b : Char) : Bool := a.toLower == b.toLower

/-- A text, whatever case its letters are in. -/
def phrase (text : String) : TextPattern := literal sameLetter text.toList

def phrases (texts : List String) : TextPattern := Pattern.any (texts.map phrase)

def exactly (text : String) : TextPattern := literal (· == ·) text.toList

def digits (least most : Nat) : TextPattern := many Char.isDigit least (some most)

def letters (least most : Nat) : TextPattern := many Char.isAlpha least (some most)

def spaces (least : Nat) : TextPattern := many isJsSpace least none

def oneOf (chars : List Char) : TextPattern := one (· ∈ chars)

/-- `[chars]?` -/
def optional (chars : List Char) : TextPattern := opt (oneOf chars)

/-- `\b` -/
def boundary : TextPattern := edge isWord

/-- `20\d{2}` -/
def century : TextPattern := Pattern.all [exactly "20", digits 2 2]

end Text

/-- `replace(/\s+/g, ' ')` -/
def collapse : List Char → List Char
  | [] => []
  | c :: rest =>
    let more := collapse rest
    if isJsSpace c then if more.head? = some ' ' then more else ' ' :: more else c :: more

/-- `replace(part, '')`: only where it stands first. -/
def withoutFirst (part : List Char) : List Char → List Char
  | [] => []
  | c :: rest => if part.isPrefixOf (c :: rest) then (c :: rest).drop part.length else c :: withoutFirst part rest

def tidy (line : List Char) : String := trim (String.ofList (collapse line))

/-- The lines with something on them. -/
def statementLines (text : String) : List String :=
  ((linesFrom [] text.toList).map tidy).filter (· ≠ "")

/-! ### Dates -/

def MONTHS : List (String × Nat) :=
  [("jan", 1), ("january", 1), ("feb", 2), ("february", 2), ("mar", 3), ("march", 3), ("apr", 4),
    ("april", 4), ("may", 5), ("jun", 6), ("june", 6), ("jul", 7), ("july", 7), ("aug", 8),
    ("august", 8), ("sep", 9), ("sept", 9), ("september", 9), ("oct", 10), ("october", 10),
    ("nov", 11), ("november", 11), ("dec", 12), ("december", 12)]

/-- A month by its name in letters of any case. -/
def monthOf (name : List Char) : Option Nat := MONTHS.lookup (String.ofList (name.map Char.toLower))

/-- A date that the calendar has. -/
def buildTextDate (year month : Option Nat) (day : Nat) : Option IsoDate :=
  match year, month with
  | some year, some month =>
    if day < 1 ∨ 31 < day then none
    -- Years below 100 are moved to another century, and so are not the same when read back.
    else if year < 100 ∨ daysInMonth year month < day then none
    else some (String.ofList (padStart 4 year ++ '-' :: padStart 2 month ++ '-' :: padStart 2 day))
  | _, _ => none

/-! ### Categories -/

section Categories

open Text Pattern

def cardPayment : TextPattern :=
  Pattern.all [boundary, phrases ["payment received", "payment thank you", "card payment",
    "credit card payment", "minimum payment"], boundary]

def accountTransfer : TextPattern :=
  Pattern.all [boundary, phrases ["e transfer", "etransfer", "interac", "transfer from", "transfer to",
    "internal transfer"], boundary]

/-- Card payments and transfers are money movement, and no income. -/
def categorizeStatementDescriptor (C : StatementContext) (description : String) : CategorizationResult :=
  let categorized := categorizeDescriptor C.text description C.options
  let normalized := (normalizeDescriptor C.text.toLowerCase description).toList
  if categorized.categorySlug ≠ UNKNOWN_CATEGORY then categorized
  else if cardPayment.test normalized then
    ⟨⟨"credit_card_payment", .lexicon, 99 / 100, some "Credit card payment"⟩,
      "Identified as a payment toward a credit-card balance; excluded from income and spending."⟩
  else if accountTransfer.test normalized then
    ⟨⟨"transfer", .lexicon, 96 / 100, some "Account transfer"⟩,
      "Identified as money movement between accounts, not income or spending."⟩
  else categorized

def ISSUER_CATEGORIES : List (String × Ledger.CategorizationResult) :=
  [("restaurant", ⟨"restaurants", .lexicon, 82 / 100, some "Restaurant"⟩),
    ("transportation", ⟨"transportation", .lexicon, 82 / 100, some "Transportation"⟩),
    ("retail and grocery", ⟨"groceries", .lexicon, 72 / 100, some "Retail and Grocery"⟩),
    ("entertainment", ⟨"entertainment", .lexicon, 78 / 100, some "Entertainment"⟩)]

def issuerCategoryResult (label : Option String) : Option CategorizationResult :=
  label.bind fun label =>
    (ISSUER_CATEGORIES.find? fun entry => (phrase entry.1).test label.toList).map fun entry =>
      ⟨entry.2, "Matched the issuer-provided spend category."⟩

end Categories

/-! ### Drafts -/

section Drafts

variable (C : StatementContext)

/-- The same transaction is in the ledger already. -/
def isKnown (existing : List Transaction) (postedAt : Option IsoDate) (amount : Option Int)
    (normalized : String) : Bool :=
  existing.any fun txn =>
    some txn.postedAt == postedAt && some txn.amount == amount && txn.normalizedDescriptor == normalized

def fingerprintOf (line : Nat) (postedAt : Option IsoDate) (amount : Option Int)
    (normalized currency : String) : String :=
  C.sha256 (toString line ++ "|" ++ postedAt.getD "" ++ "|" ++ (amount.map toString).getD "" ++ "|" ++
    normalized ++ "|" ++ currency)

/-- Why a row cannot be taken in as it is. -/
def flagsOf (postedAt : Option IsoDate) (amount : Option Int) (ambiguousDate : Bool)
    (categorized : Option CategorizationResult) (known : Bool) : List String :=
  (if postedAt.isSome then [] else ["extraction_error"]) ++
  (if amount = none ∨ amount = some 0 then ["extraction_error"] else []) ++
  (if ambiguousDate then ["ambiguous_date"] else []) ++
  (if categorized.any (fun result => result.confidence < 7 / 10) then ["low_confidence"] else []) ++
  (if categorized.all (fun result => result.categorySlug = UNKNOWN_CATEGORY) then ["uncategorized"]
    else []) ++
  (if known then ["possible_duplicate"] else [])

/-- The row of a line, once its date, amount, description and category have been read. -/
def draftRow (line : Nat) (raw : String) (postedAt : Option IsoDate) (amount : Option Int)
    (currency description : String) (categorized : Option CategorizationResult) (flags : List String) :
    StatementRowDraft :=
  { sourceLine := line
    postedAt := postedAt
    description := slice 500 description
    merchant := categorized.bind (·.merchant)
    amount := amount
    currency := currency
    direction := match amount with
      | none => .unknown
      | some amount => if amount < 0 then .debit else .credit
    categorySlug := (categorized.map (·.categorySlug)).getD UNKNOWN_CATEGORY
    categorySource := (categorized.map (·.source)).getD .unknown
    categoryConfidence := (categorized.map (·.confidence)).getD 0
    isRecurring := false
    flags := flags.take 8
    decision := if flags.length = 0 then .include else .needsReview
    fingerprint := fingerprintOf C line postedAt amount
      (normalizeDescriptor C.text.toLowerCase description) currency
    raw := slice 2000 raw }

def textDraft (line : Nat) (raw : String) (postedAt : Option IsoDate) (amount : Option Int)
    (currency description : String) (issuerCategory : Option String) (existing : List Transaction) :
    StatementRowDraft :=
  let byMerchant := if description = "" then none else some (categorizeStatementDescriptor C description)
  let categorized :=
    if byMerchant.all fun result => result.categorySlug = UNKNOWN_CATEGORY then
      -- Without a description there is no merchant category, and that is not the unknown one.
      if byMerchant = none then byMerchant else issuerCategoryResult issuerCategory <|> byMerchant
    else byMerchant
  let known := isKnown existing postedAt amount (normalizeDescriptor C.text.toLowerCase description)
  draftRow C line raw postedAt amount currency description categorized
    (flagsOf postedAt amount false categorized known)

end Drafts

end Finverse.Statements
