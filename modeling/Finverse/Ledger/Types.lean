import Finverse.Framework.Table

/-! Transactions, as the domain, the bank aggregator and an import see them. -/

namespace Finverse.Ledger

/-- ISO 8601 calendar date. -/
abbrev IsoDate : Type := String

inductive CategorySource
  | userRule
  | lexicon
  | model
  | userManual
  | transferPairing
  | unknown
  deriving DecidableEq, Repr

structure Transaction where
  id : String
  accountId : String
  providerTxnId : String
  postedAt : IsoDate
  amount : Int
  currency : String
  rawDescriptor : String
  normalizedDescriptor : String
  merchant : Option String := none
  merchantOverride : Option String := none
  note : Option String := none
  excludedFromAnalytics : Option Bool := none
  categorySlug : String
  categorySource : CategorySource
  categoryConfidence : Rat
  isRecurring : Bool
  recurringOverride : Option Bool := none
  duplicateReported : Option Bool := none
  pending : Bool
  tags : Option (List String) := none
  importBatchId : Option String := none
  deriving DecidableEq, Repr

namespace Transaction

/-- The idempotency key of the sync, within one user's ledger. -/
def key (t : Transaction) : String × String := (t.accountId, t.providerTxnId)

/-- The category is the user's own. -/
def keepsUserCategory (t : Transaction) : Bool :=
  t.categorySource == .userManual || t.categorySource == .userRule

end Transaction

/-- A transaction as it arrives from the aggregator. -/
structure RawTransaction where
  providerTxnId : String
  accountId : String
  postedAt : IsoDate
  amount : Int
  currency : String
  descriptor : String
  pending : Bool
  deriving DecidableEq, Repr

structure CategorizationResult where
  categorySlug : String
  source : CategorySource
  confidence : Rat
  merchant : Option String
  deriving DecidableEq, Repr

/-- How descriptors are read. The results hold for every reading. -/
structure Categorizer where
  normalizeDescriptor : String → String
  categorizeDescriptor : String → CategorizationResult

/-- The ledger row of a provider transaction. -/
def mapTransaction (C : Categorizer) (raw : RawTransaction) : Transaction :=
  let category := C.categorizeDescriptor raw.descriptor
  { id := "txn_" ++ raw.accountId ++ "_" ++ raw.providerTxnId
    accountId := raw.accountId
    providerTxnId := raw.providerTxnId
    postedAt := raw.postedAt
    amount := raw.amount
    currency := raw.currency
    rawDescriptor := raw.descriptor
    normalizedDescriptor := C.normalizeDescriptor raw.descriptor
    merchant := category.merchant
    categorySlug := category.categorySlug
    categorySource := category.source
    categoryConfidence := category.confidence
    isRecurring := false
    pending := raw.pending }

inductive ImportStatus
  | committed
  | reverted
  deriving DecidableEq, Repr

structure ImportBatch where
  id : String
  accountId : String
  statementImportId : Option String := none
  filename : String
  status : ImportStatus
  rowsTotal : Nat
  rowsImported : Nat
  rowsDuplicate : Nat
  rowsInvalid : Nat
  createdAt : String
  revertedAt : Option String
  deriving DecidableEq, Repr

structure UpsertCounts where
  inserted : Nat
  updated : Nat
  deriving DecidableEq, Repr

end Finverse.Ledger
