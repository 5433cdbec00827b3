import Finverse.Imports.DateOrder
import Finverse.Statements.Drafts

/-! The header of a statement, and the rows of a card statement. -/

namespace Finverse.Statements

open Auth (isJsSpace trim)
open Categorization (normalizeDescriptor)
open Finverse.Imports (decimal isoText parseAmount)
open Ledger (IsoDate Transaction)

section Patterns

open Text Pattern

/-! ### Header patterns -/

def monthDay : TextPattern := Pattern.all [letters 3 9, spaces 1, digits 1 2]

def statementDatePattern : TextPattern :=
  Pattern.all [boundary, phrase "statement", spaces 1, phrase "date", spaces 0, optional [':'], spaces 0,
    group 1 (Pattern.all [monthDay, optional [','], spaces 1, century]), boundary]

def periodPattern : TextPattern :=
  Pattern.all [boundary, group 1 monthDay, opt (Pattern.all [optional [','], spaces 0, group 2 century]),
    spaces 1, either (phrase "to") (oneOf ['-', '–']), spaces 1, group 3 monthDay, optional [','],
    spaces 0, group 4 century, boundary]

def longDatePattern : TextPattern :=
  Pattern.all [started, group 1 (letters 3 9), spaces 1, group 2 (digits 1 2),
    opt (Pattern.all [optional [','], spaces 0, group 3 century]), ended]

def ISSUERS : List (TextPattern × String) :=
  [(phrase "cibc", "CIBC"), (phrase "neo financial", "Neo Financial"),
    (either (phrase "royal bank of canada") (Pattern.all [boundary, phrase "rbc", boundary]), "RBC"),
    (either (phrase "toronto-dominion") (Pattern.all [boundary, phrase "td bank", boundary]), "TD"),
    (either (phrase "bank of montreal") (Pattern.all [boundary, phrase "bmo", boundary]), "BMO"),
    (phrase "scotiabank", "Scotiabank"), (phrase "desjardins", "Desjardins"),
    (phrase "tangerine", "Tangerine"), (phrase "simplii", "Simplii"), (phrase "capital one", "Capital One")]

def accountLabel : TextPattern := phrases ["account number", "card number", "card account", "••••"]

def fourDigits : TextPattern := digits 4 4

/-- Four digits, and no other ones on the line. -/
def loneFourDigits : TextPattern :=
  Pattern.all [started, many (!·.isDigit) 0 none, group 1 fourDigits, many (!·.isDigit) 0 none, ended]

def yearOnly : TextPattern := Pattern.all [started, century, ended]

def CURRENCY_CODES : List String :=
  ["CAD", "USD", "EUR", "GBP", "AUD", "NZD", "JPY", "CHF", "CNY", "INR", "MXN", "BRL", "SGD", "HKD"]

def labelledCurrency : TextPattern :=
  Pattern.all [phrases ["amount", "balance", "currency", "total", "debit", "credit", "payment"],
    many (· ≠ '\n') 0 (some 36), oneOf ['('], spaces 0, optional ['$'], spaces 0,
    group 1 (phrases CURRENCY_CODES), spaces 0, oneOf [')']]

def signedDigit : List TextPattern := [spaces 0, optional ['-', '+'], one Char.isDigit]

def canadianDollars : TextPattern := Pattern.all (phrases ["CA$", "C$"] :: signedDigit)

def usDollars : TextPattern := Pattern.all (phrase "US$" :: signedDigit)

def explicitCurrency : TextPattern :=
  Pattern.all [opt (Pattern.all [phrase "statement", spaces 1]), phrase "currency", spaces 0,
    optional [':', '='], spaces 0, group 1 (phrases CURRENCY_CODES), boundary]

/-! ### Card patterns -/

def explicitYear : TextPattern :=
  Pattern.all [phrases ["statement date", "statement period", "to"], boundary, many (!·.isDigit) 0 none,
    group 1 century, boundary]

def anyYear : TextPattern := Pattern.all [boundary, group 1 century, boundary]

def cardStatement : TextPattern :=
  phrases ["credit card", "card account", "card number", "spend categories", "new charges and credits"]

def monthNames : TextPattern := phrases (MONTHS.map Prod.fst)

def cardAmount : TextPattern :=
  Pattern.all [optional ['('], optional ['-', '+'], optional ['$', '€', '£'], one Char.isDigit,
    many (fun c => c.isDigit || c ∈ [',', '.']) 0 none, optional [')']]

def rowPattern : TextPattern :=
  Pattern.all [started, group 1 monthNames, spaces 1, group 2 (digits 1 2), spaces 1, group 3 monthNames,
    spaces 1, group 4 (digits 1 2), spaces 1, group 5 (few (!Imports.isLineBreak ·) 1), spaces 1,
    group 6 cardAmount, ended]

def CARD_CATEGORY_LABELS : List String :=
  ["Retail and Grocery", "Restaurants", "Transportation", "Personal and Household Expenses",
    "Professional and Financial Services", "Home and Office Improvement", "Entertainment", "Travel", "Other"]

def labelSuffix (label : String) : TextPattern := Pattern.all [spaces 1, phrase label, ended]

def creditPattern : TextPattern :=
  Pattern.all [boundary, phrases ["payment", "credit", "refund", "reversal"], boundary]

end Patterns

/-! ### The header -/

structure StatementDocumentDetails where
  issuer : Option String
  accountReferenceLast4 : Option String
  statementDate : Option IsoDate
  periodStart : Option IsoDate
  periodEnd : Option IsoDate
  currency : Option String
  deriving DecidableEq, Repr

def numberGroup (found : Pattern.Found Char) (index : Nat) : Option Nat := (found.group? index).map decimal

def parseLongDate (value : List Char) (fallbackYear : Option Nat) : Option IsoDate :=
  (longDatePattern.exec (trim (String.ofList value)).toList).bind fun found =>
    buildTextDate (numberGroup found 3 <|> fallbackYear) ((found.group? 1).bind monthOf)
      ((numberGroup found 2).getD 0)

def accountLine (lines : List String) : Option String :=
  lines.find? (fun line => accountLabel.test line.toList && fourDigits.test line.toList) <|>
    lines.find? fun line =>
      ((loneFourDigits.exec line.toList).bind (·.group? 1)).any fun group => !yearOnly.test group

def detectStatementCurrency (C : StatementContext) (text : List Char) (fallback : String) : Option String :=
  let normalizedFallback := C.toUpperCase (trim fallback)
  match (labelledCurrency.exec text).bind (·.group? 1) with
  | some code => some (String.ofList (code.map Char.toUpper))
  | none =>
    if canadianDollars.test text then some "CAD"
    else if usDollars.test text then some "USD"
    else
      match (explicitCurrency.exec text).bind (·.group? 1) with
      | some code => some (String.ofList (code.map Char.toUpper))
      | none => if normalizedFallback = "" then none else some normalizedFallback

def extractStatementDetails (C : StatementContext) (text currency : String) : StatementDocumentDetails :=
  let chars := text.toList
  let period := periodPattern.exec chars
  let endYear := period.bind (numberGroup · 4)
  { issuer := (ISSUERS.find? fun issuer => issuer.1.test chars).map Prod.snd
    accountReferenceLast4 := (accountLine (statementLines text)).bind fun line =>
      (fourDigits.matchAll line.toList).getLast?.map fun found => String.ofList found.text
    statementDate := (statementDatePattern.exec chars).bind fun found =>
      (found.group? 1).bind (parseLongDate · none)
    periodStart := period.bind fun found =>
      (found.group? 1).bind (parseLongDate · (numberGroup found 2 <|> endYear))
    periodEnd := period.bind fun found => (found.group? 3).bind (parseLongDate · endYear)
    currency := detectStatementCurrency C chars currency }

/-! ### The rows -/

def findStatementYear (text : List Char) : Option Nat :=
  let year := (explicitYear.exec text).bind (numberGroup · 1) <|> (anyYear.exec text).bind (numberGroup · 1)
  year.filter fun year => 2000 ≤ year ∧ year ≤ 2100

/-- A line of a card statement: two dates without a year, a description and an amount. -/
structure CardLine where
  month : Option Nat
  day : Nat
  description : String
  amountText : String
  deriving DecidableEq, Repr

def readCardLine (line : String) : Option CardLine :=
  (rowPattern.exec line.toList).map fun found =>
    { month := (found.group? 1).bind monthOf
      day := (numberGroup found 2).getD 0
      description := trim (String.ofList ((found.group? 5).getD []))
      amountText := String.ofList ((found.group? 6).getD []) }

/-- A known label at the end is no part of the merchant's name. -/
def splitLabel : List String → String → Option String × String
  | [], description => (none, description)
  | label :: labels, description =>
    match (labelSuffix label).exec description.toList with
    | some found => (some label, trim (String.ofList (found.start.before.reverse ++ found.stop.ahead)))
    | none => splitLabel labels description

/-- The lines that become rows, and where they stand. -/
def cardLines (lines : List String) : List (Nat × String × CardLine) :=
  (lines.zipIdx.filterMap fun (line, index) =>
    (readCardLine line).map fun card => (index + 1, line, card)).take MAX_ROWS

def cardDraft (C : StatementContext) (year : Nat) (currency : String) (existing : List Transaction)
    (line : Nat) (raw : String) (card : CardLine) : StatementRowDraft :=
  let (issuerCategory, description) := splitLabel CARD_CATEGORY_LABELS card.description
  let isCredit := creditPattern.test (normalizeDescriptor C.text.toLowerCase description).toList
  let signedAmount := (parseAmount C.numberToMinor card.amountText currency).map fun amount =>
    if isCredit then |amount| else -|amount|
  textDraft C line raw (buildTextDate (some year) card.month card.day) signedAmount currency description
    issuerCategory existing

/-- The year that every row of a card statement is dated in. -/
def anchorYear (text : String) : Option Nat :=
  (findStatementYear text.toList).filter fun _ => cardStatement.test text.toList

def parseCreditCardRows (C : StatementContext) (lines : List String) (text currency : String)
    (existing : List Transaction) : List StatementRowDraft :=
  match anchorYear text with
  | none => []
  | some year =>
    (cardLines lines).map fun (line, raw, card) => cardDraft C year currency existing line raw card

end Finverse.Statements
