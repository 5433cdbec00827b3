import Finverse.Ledger.Types

/-! The ledger as a CSV file. -/

namespace Finverse.Imports

open Ledger (Transaction CategorySource)

inductive CellValue
  | text (s : String)
  | number (n : Rat)
  | boolean (b : Bool)
  | missing

def categorySourceText : CategorySource → String
  | .userRule => "user_rule"
  | .lexicon => "lexicon"
  | .model => "model"
  | .userManual => "user_manual"
  | .transferPairing => "transfer_pairing"
  | .unknown => "unknown"

section Cells

-- How the runtime writes a number. The results hold for every way.
variable (numberText : Rat → String)

/-- Text that a spreadsheet would take for a formula is guarded by an apostrophe. -/
def guardedText : CellValue → String
  | .missing => ""
  | .boolean b => toString b
  | .number n => numberText n
  | .text s => if s.toList.head?.any (· ∈ ['=', '+', '-', '@']) then "'" ++ s else s

/-- Quotes are doubled. -/
def doubled (s : List Char) : List Char := s.flatMap fun c => if c = '"' then ['"', '"'] else [c]

/-- A field in quotes. -/
def enclosed (s : String) : List Char := '"' :: doubled s.toList ++ ['"']

def cell (value : CellValue) : List Char := enclosed (guardedText numberText value)

def csvHeader : List String :=
  ["id", "account_id", "provider_transaction_id", "posted_at", "amount_minor", "currency",
    "merchant", "merchant_override", "note", "excluded_from_analytics", "descriptor", "category",
    "category_source", "category_confidence", "recurring", "duplicate_reported", "pending", "tags"]

def optionalText (s : Option String) : CellValue := s.elim .missing .text

def csvRow (t : Transaction) : List CellValue :=
  [.text t.id, .text t.accountId, .text t.providerTxnId, .text t.postedAt, .number t.amount,
    .text t.currency, optionalText t.merchant, optionalText t.merchantOverride, optionalText t.note,
    .boolean (t.excludedFromAnalytics.getD false), .text t.rawDescriptor, .text t.categorySlug,
    .text (categorySourceText t.categorySource), .number t.categoryConfidence,
    .boolean t.isRecurring, .boolean (t.duplicateReported.getD false), .boolean t.pending,
    optionalText (t.tags.map ("|".intercalate ·))]

/-- Amounts stay in minor units. -/
def transactionsToCsv (transactions : List Transaction) : String :=
  let header := [','].intercalate ((csvHeader.map CellValue.text).map (cell numberText))
  let rows := transactions.map fun t => [','].intercalate ((csvRow t).map (cell numberText))
  String.ofList (['\r', '\n'].intercalate (header :: rows) ++ ['\r', '\n'])

end Cells

end Finverse.Imports
