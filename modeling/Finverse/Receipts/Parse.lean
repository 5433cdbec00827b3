import Finverse.Framework.Doubles
import Finverse.Statements.Drafts

/-! Receipts read from the lines of their text. -/

namespace Finverse.Receipts

open Auth (includes isJsSpace slice trim)
open Finverse.Imports (commaToPoint decimal linesFrom padStart)
open Pattern (opt)
open Statements.Text (TextPattern boundary digits exactly oneOf phrases spaces)

structure ReceiptScan where
  merchant : Option String
  date : Option String
  totalMinor : Option Int
  taxMinor : Option Int
  currency : Option String
  items : List String
  confidence : Rat
  deriving DecidableEq

/-- `(\d{1,7}(?:[.,]\d{1,2})?)` -/
def MONEY : TextPattern :=
  .group 1 (Pattern.all [digits 1 7, opt (Pattern.all [oneOf ['.', ','], digits 1 2])])

def TOTAL_LABELS : List String := ["total due", "total", "amount due", "amount", "balance due", "grand total"]

def TAX_LABELS : List String := ["tax", "gst", "hst", "vat", "pst", "qst"]

def JUNK_FIRST_LINES : List String :=
  ["receipt", "invoice", "tax invoice", "sale", "payment receipt", "thank you", "thank you for your purchase",
    "welcome", "www", "http"]

/-- `\b(\d{4})-(\d{1,2})-(\d{1,2})\b` -/
def DATE_ISO : TextPattern :=
  Pattern.all [boundary, .group 1 (digits 4 4), exactly "-", .group 2 (digits 1 2), exactly "-",
    .group 3 (digits 1 2), boundary]

/-- `\b(\d{1,2})[\/\-.](\d{1,2})[\/\-.](\d{2,4})\b` -/
def DATE_SLASH : TextPattern :=
  Pattern.all [boundary, .group 1 (digits 1 2), oneOf ['/', '-', '.'], .group 2 (digits 1 2), oneOf ['/', '-', '.'],
    .group 3 (digits 2 4), boundary]

/-- `\b(USD|CAD|EUR|GBP|AUD|MXN)\b`, in any case -/
def CURRENCY : TextPattern :=
  Pattern.all [boundary, .group 1 (phrases ["USD", "CAD", "EUR", "GBP", "AUD", "MXN"]), boundary]

/-- `\d[.,]\d{2}\s*$` -/
def ENDS_IN_MONEY : TextPattern := Pattern.all [digits 1 1, oneOf ['.', ','], digits 2 2, spaces 0, .ended]

/-! ### Amounts -/

/-- `Number.parseFloat` of a number without a sign or an exponent: the double next to it. -/
def parseFloat (text : List Char) : Option Rat :=
  let whole := text.takeWhile Char.isDigit
  let rest := text.drop whole.length
  let fraction := if rest.head? = some '.' then rest.tail.takeWhile Char.isDigit else []
  if whole = [] ∧ fraction = [] then none
  else some (Doubles.nearest ((decimal (whole ++ fraction) : Rat) / 10 ^ fraction.length))

def toMinor (value : List Char) : Option Int :=
  (parseFloat (commaToPoint value)).map fun parsed => ⌊Doubles.nearest (parsed * 100) + 1 / 2⌋

def parseMoney (line : String) : Option Int :=
  (MONEY.exec line.toList).bind fun found => toMinor ((found.group? 1).getD [])

/-! ### Labels -/

/-- Which labels are looked for. -/
inductive Labels
  | total
  | tax
  | either
  deriving DecidableEq

def Labels.texts : Labels → List String
  | total => TOTAL_LABELS
  | tax => TAX_LABELS
  | either => TOTAL_LABELS ++ TAX_LABELS

/-- "Subtotal" is not taken for a label of a total. -/
def hasAnyLabel (toLowerCase : String → String) (line : String) (labels : Labels) : Bool :=
  let lower := toLowerCase line
  if labels = .total ∧ includes lower "subtotal" then false else labels.texts.any fun label => includes lower label

/-! ### Dates -/

/-- `padStart` with any filler. -/
def padWith (width : Nat) (filler text : List Char) : List Char :=
  (List.replicate width filler).flatten.take (width - text.length) ++ text

def parseDate (line : String) : Option String :=
  match DATE_ISO.exec line.toList, DATE_SLASH.exec line.toList with
  | some iso, _ =>
    let part (index : Nat) := (iso.group? index).getD []
    some (String.ofList (part 1 ++ '-' :: padWith 2 ['0'] (part 2) ++ '-' :: padWith 2 ['0'] (part 3)))
  | none, some slash =>
    let part (index : Nat) := (slash.group? index).getD []
    let a := decimal (part 1)
    let b := decimal (part 2)
    let c := padWith 4 ("2026".toList.take (4 - (part 3).length) ++ part 3) (part 3)
    -- The month comes first only if the second number cannot be one.
    let (day, month) := if 12 < a then (a, b) else if 12 < b then (b, a) else (a, b)
    if month < 1 ∨ 12 < month ∨ day < 1 ∨ 31 < day then none
    else some (String.ofList (c ++ '-' :: padStart 2 month ++ '-' :: padStart 2 day))
  | none, none => none

/-! ### Receipts -/

def looksLikeItemLine (line : String) : Bool := includes line "$" || ENDS_IN_MONEY.test line.toList

/-- `split(/\r?\n/)`, and the lines with something on them. -/
def receiptLines (text : String) : List String :=
  ((linesFrom [] text.toList).map fun line => trim (String.ofList line)).filter (· ≠ "")

/-- What has been read so far. -/
structure Fields where
  merchant : Option String := none
  date : Option String := none
  totalMinor : Option Int := none
  taxMinor : Option Int := none

def readLine (toLowerCase : String → String) (fields : Fields) (line : String) : Fields where
  date := if fields.date = none then parseDate line else fields.date
  merchant :=
    if fields.merchant = none ∧ toLowerCase line ∉ JUNK_FIRST_LINES ∧
        hasAnyLabel toLowerCase line .either = false ∧ looksLikeItemLine line = false then
      some (slice 120 line)
    else fields.merchant
  totalMinor :=
    if fields.totalMinor = none ∧ hasAnyLabel toLowerCase line .total = true then parseMoney line
    else fields.totalMinor
  taxMinor :=
    if fields.taxMinor = none ∧ hasAnyLabel toLowerCase line .tax = true then parseMoney line else fields.taxMinor

def addItem (toLowerCase : String → String) (merchant : Option String) (items : List String) (line : String) :
    List String :=
  if 12 ≤ items.length ∨ hasAnyLabel toLowerCase line .either = true ∨ some line = merchant then items
  else if looksLikeItemLine line = true ∧ parseMoney line ≠ none then items ++ [slice 200 line]
  else items

/-- Each part that has been read counts. -/
def confidenceOf (fields : Fields) : Rat :=
  let add (found : Bool) (evidence confidence : Rat) : Rat :=
    if found then Doubles.nearest (confidence + Doubles.nearest evidence) else confidence
  let confidence := Doubles.nearest (2 / 5)
  let confidence := add fields.merchant.isSome (3 / 20) confidence
  let confidence := add fields.date.isSome (1 / 10) confidence
  let confidence := add fields.totalMinor.isSome (1 / 5) confidence
  let confidence := add fields.taxMinor.isSome (1 / 20) confidence
  min confidence 1

def parseReceiptText (toLowerCase : String → String) (text : String) : ReceiptScan :=
  let lines := receiptLines text
  let fields := lines.foldl (readLine toLowerCase) {}
  { merchant := fields.merchant
    date := fields.date
    totalMinor := fields.totalMinor
    taxMinor := fields.taxMinor
    currency := (CURRENCY.exec text.toList).map fun found =>
      String.ofList (((found.group? 1).getD []).map Char.toUpper)
    items := lines.foldl (addItem toLowerCase fields.merchant) []
    confidence := confidenceOf fields }

end Finverse.Receipts
