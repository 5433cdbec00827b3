import Finverse.Imports.CsvParse
import Finverse.Imports.Review

/-! The import service over the in-memory stores of one user. -/

namespace Finverse.Imports

open Categorization (LexiconEntry CategorizationRule normalizeDescriptor categorizeDescriptor)
open Ledger (Account Categorizer ImportBatch ImportContext InMemoryImports Transaction memoryCommit)

/-- What the service rests on: the tables of the runtime, the merchant lexicon and a digest. -/
structure ImportsContext extends ReviewContext where
  lexicon : List LexiconEntry
  sha256Hex : String → String

structure CommitInput where
  accountId : String
  filename : String
  content : String
  mapping : ColumnMapping
  deriving DecidableEq, Repr

/-- A fresh id and the time, for one request. -/
structure Draw where
  batchId : String
  now : String
  deriving DecidableEq, Repr

inductive ImportError
  | http (e : HttpError)
  | unreadable (e : CsvParseError)
  | commit (e : Ledger.ImportsService.CommitError)
  deriving DecidableEq, Repr

/-- 2 MB of CSV is well past the row limit already enforced. -/
def MAX_CONTENT_BYTES : Nat := 2 * 1024 * 1024

namespace ImportsService

variable (X : ImportsContext)

def requireAccount (accounts : List Account) (accountId : String) : Except ImportError Account :=
  orThrow (Table.lookup Account.id accountId accounts) (.http (.notFound "No such account."))

def assertSize (content : String) : Except ImportError Unit :=
  throwIf (MAX_CONTENT_BYTES < content.utf8ByteSize)
    (.http (.badRequest "That file is too large. Split it by date range."))

/-- The account's transactions, the latest first. -/
def existing (account : Account) (rows : List Transaction) : List Transaction :=
  Categorization.TransactionStore.list X.text (rows.filter (·.accountId = account.id))

/-- The review of a parsed file against a ledger. -/
def reviewFile (account : Account) (mapping : ColumnMapping) (parsed : ParsedCsv)
    (rows : List Transaction) : ImportReview :=
  reviewImport X.toReviewContext
    { headers := parsed.headers
      rows := parsed.rows
      mapping
      existing := existing X account rows
      currency := account.currency
      raggedLines := parsed.raggedLines }

def categorizer (rules : List CategorizationRule) : Categorizer where
  normalizeDescriptor := normalizeDescriptor X.text.toLowerCase
  categorizeDescriptor := fun descriptor =>
    (categorizeDescriptor X.text descriptor ⟨rules, X.lexicon, none⟩).toCategorizationResult

def importContext (rules : List CategorizationRule) (draw : Draw) : ImportContext where
  categorizer := categorizer X rules
  sha256Hex := X.sha256Hex
  batchId := draw.batchId
  now := draw.now

/-- The account and the rows of a file, before anything is read of the ledger. -/
def openFile (accounts : List Account) (input : CommitInput) :
    Except ImportError (Account × ParsedCsv) := do
  let account ← requireAccount accounts input.accountId
  assertSize input.content
  let parsed ← (parseCsv input.content).mapError .unreadable
  .ok (account, parsed)

/-- A preview with a given mapping: the review, and nothing is written. -/
def preview (accounts : List Account) (input : CommitInput) (st : InMemoryImports) :
    Except ImportError ImportReview := do
  let (account, parsed) ← openFile accounts input
  .ok (reviewFile X account input.mapping parsed st.transactions)

/-- Imports the rows the review marked importable, and nothing else. The transactions are `read`
for the review before the rules are, and the ledger is written after that. -/
def commit (rules : List CategorizationRule) (accounts : List Account) (draw : Draw)
    (input : CommitInput) (read : List Transaction) (st : InMemoryImports) :
    Except ImportError ImportBatch × InMemoryImports :=
  match openFile accounts input with
  | .error e => (.error e, st)
  | .ok (account, parsed) =>
    let review := reviewFile X account input.mapping parsed read
    let (result, st) := Ledger.ImportsService.commit (importContext X rules draw) account
      input.filename review.rows memoryCommit st
    (result.mapError .commit, st)

/-- Undoes an import. -/
def revert (id now : String) (st : InMemoryImports) : Except ImportError Nat × InMemoryImports :=
  let (removed, st) := st.revert id now
  (orThrow removed (.http (.notFound "No such import, or it has already been undone.")), st)

end ImportsService

end Finverse.Imports
