import Finverse.Categorization.Corrections
import Finverse.Framework.Like
import Finverse.Insights.Subscriptions
import Finverse.Ledger.PostgresStore

/-! The queries of a ledger, and the rows that the two transaction stores list for them. -/

namespace Finverse.Ledger

open Auth (includes trim)
open Categorization (TextContext)
open Insights (CATEGORIES CategoryKind kindOf)

/-! ### Strings of the runtime -/

/-- The code units of a character. -/
def charUnits (c : Char) : List Nat :=
  if c.toNat < 0x10000 then [c.toNat]
  else [0xD800 + (c.toNat - 0x10000) / 0x400, 0xDC00 + (c.toNat - 0x10000) % 0x400]

def codeUnits (s : String) : List Nat := s.toList.flatMap charUnits

/-- The order of `<` on strings. -/
def unitsBefore (a b : String) : Bool :=
  List.lex (codeUnits a) (codeUnits b) fun x y => decide (x < y)

/-- A string counts where it is not empty. -/
def nonEmpty (value : Option String) : Option String := value.filter (· ≠ "")

/-! ### Queries -/

structure DateRange where
  start : IsoDate
  «end» : IsoDate
  deriving DecidableEq, Repr

/-- Inclusive of both ends. -/
def isWithin (date : IsoDate) (range : DateRange) : Bool :=
  !unitsBefore date range.start && !unitsBefore range.«end» date

/-- The position after a transaction. -/
structure PageCursor where
  postedAt : IsoDate
  id : String
  deriving DecidableEq, Repr

inductive QueryKind
  | expense
  | income
  | transfer
  | special
  deriving DecidableEq, Repr

/-- No category is special. -/
def QueryKind.kind : QueryKind → Option CategoryKind
  | .expense => some .expense
  | .income => some .income
  | .transfer => some .transfer
  | .special => none

def QueryKind.holds (kind : QueryKind) (slug : String) : Bool :=
  (kindOf slug).any fun actual => kind.kind = some actual

structure TransactionQuery where
  accountId : Option String := none
  categorySlug : Option String := none
  categoryKind : Option QueryKind := none
  range : Option DateRange := none
  search : Option String := none
  pending : Option Bool := none
  recurring : Option Bool := none
  amountMin : Option Int := none
  amountMax : Option Int := none
  tag : Option String := none
  before : Option PageCursor := none
  limit : Option Nat := none
  deriving DecidableEq, Repr

/-! ### In memory -/

namespace InMemoryTransactionStore

variable (X : TextContext)

/-- `t` comes behind the cursor. -/
def isBefore (cursor : PageCursor) (t : Transaction) : Bool :=
  unitsBefore t.postedAt cursor.postedAt || t.postedAt = cursor.postedAt && unitsBefore t.id cursor.id

def searched (search : String) (t : Transaction) : Bool :=
  let needle := X.toLowerCase search
  includes t.normalizedDescriptor needle || includes (X.toLowerCase t.rawDescriptor) needle ||
    t.merchant.any (fun merchant => includes (X.toLowerCase merchant) needle) ||
    t.merchantOverride.any (fun merchant => includes (X.toLowerCase merchant) needle) ||
    t.note.any fun note => includes (X.toLowerCase note) needle

/-- The filters of `list`, one after another. -/
def selects (query : TransactionQuery) (t : Transaction) : Bool :=
  (nonEmpty query.accountId).all (fun accountId => t.accountId = accountId) &&
  (nonEmpty query.categorySlug).all (fun categorySlug => t.categorySlug = categorySlug) &&
  query.categoryKind.all (fun kind => kind.holds t.categorySlug) &&
  query.range.all (fun range => isWithin t.postedAt range) &&
  query.before.all (fun cursor => isBefore cursor t) &&
  (nonEmpty query.search).all (fun search => searched X search t) &&
  query.pending.all (fun pending => t.pending = pending) &&
  query.recurring.all (fun recurring => t.isRecurring = recurring) &&
  query.amountMin.all (fun amountMin => decide (amountMin ≤ |t.amount|)) &&
  query.amountMax.all (fun amountMax => decide (|t.amount| ≤ amountMax)) &&
  (nonEmpty query.tag).all fun tag =>
    t.tags.any fun tags => tags.any (· = X.toLowerCase (trim tag))

def list (rows : List Transaction) (query : TransactionQuery) : List Transaction :=
  let rows := Categorization.TransactionStore.list X (rows.filter (selects X query))
  match query.limit with
  | none | some 0 => rows
  | some limit => rows.take limit

end InMemoryTransactionStore

/-! ### Postgres -/

def sqlMarks : Wildcards.Marks Char where
  anyText := '%'
  anySymbol := '_'
  escape := '\\'
  anyText_ne_anySymbol := by decide
  anyText_ne_escape := by decide
  anySymbol_ne_escape := by decide

/-- `ILIKE`, which compares in lower case. -/
def ilike (X : TextContext) (column pattern : String) : Bool :=
  Wildcards.like sqlMarks (X.toLowerCase pattern).toList (X.toLowerCase column).toList

namespace PostgresTransactionStore

variable (X : TextContext) (collation : Categorization.Collation)

/-- A comparison with NULL is not true. -/
def searched (search : String) (row : TransactionRow) : Bool :=
  let needle := "%" ++ search ++ "%"
  ilike X row.normalizedDescriptor needle || ilike X row.rawDescriptor needle ||
    row.merchant.any (ilike X · needle) || row.merchantOverride.any (ilike X · needle) ||
    row.note.any (ilike X · needle)

/-- The ids are compared in the collation of their column. -/
def isBefore (cursor : PageCursor) (row : TransactionRow) : Bool :=
  unitsBefore row.postedAt cursor.postedAt ||
    row.postedAt = cursor.postedAt && !collation.le cursor.id row.id

def slugsOf (kind : QueryKind) : List String :=
  (CATEGORIES.filter fun category => kind.kind = some category.2).map Prod.fst

/-- The conditions of the statement. -/
def selects (query : TransactionQuery) (row : TransactionRow) : Bool :=
  (nonEmpty query.accountId).all (fun accountId => row.accountId = accountId) &&
  (nonEmpty query.categorySlug).all (fun categorySlug => row.categorySlug = categorySlug) &&
  query.categoryKind.all (fun kind => (slugsOf kind).contains row.categorySlug) &&
  query.range.all (fun range => isWithin row.postedAt range) &&
  query.before.all (fun cursor => isBefore collation cursor row) &&
  (nonEmpty query.search).all (fun search => searched X search row) &&
  query.pending.all (fun pending => row.pending = pending) &&
  query.recurring.all (fun recurring => row.isRecurring = recurring) &&
  query.amountMin.all (fun amountMin => decide (amountMin ≤ |row.amount|)) &&
  query.amountMax.all (fun amountMax => decide (|row.amount| ≤ amountMax)) &&
  (nonEmpty query.tag).all fun tag => row.tags.contains (X.toLowerCase (trim tag))

/-- The latest first. -/
def listOrder (a b : TransactionRow) : Prop :=
  ¬unitsBefore a.postedAt b.postedAt ∧ (a.postedAt = b.postedAt → collation.le b.id a.id = true)

instance : DecidableRel (listOrder collation) := fun _ _ => inferInstanceAs (Decidable (_ ∧ (_ → _)))

/-- Where no category has the kind, no statement is sent. -/
def list (db : Database) (userId : Nat) (query : TransactionQuery) : List Transaction :=
  if query.categoryKind.any (fun kind => slugsOf kind = []) then []
  else
    let rows := ((db.rowsOf userId).filter (selects X collation query)).insertionSort
      (listOrder collation)
    (query.limit.elim rows rows.take).map toTransaction

end PostgresTransactionStore

end Finverse.Ledger
