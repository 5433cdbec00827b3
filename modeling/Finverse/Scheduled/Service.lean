import Finverse.Framework.OrderedMap
import Finverse.Framework.Table
import Finverse.Insights.Subscriptions
import Finverse.Scheduled.Schedule

/-! The scheduled service over the in-memory store of schedules. -/

namespace Finverse.Scheduled

open Auth (trim)
open Ledger (IsoDate)

structure Account where
  id : String
  name : String
  currency : String
  deriving DecidableEq, Repr

/-- The accounts of the users, and the order of strings. -/
structure ScheduleContext where
  accounts : String → List Account
  localeCompare : String → String → Ordering

structure CreateScheduleInput where
  accountId : String
  name : String
  amount : Number
  categorySlug : Option String := none
  cadence : Option ScheduleCadence
  startDate : String
  endDate : Option String := none
  reminderDays : Option Number := none

def CreateScheduleInput.input (input : CreateScheduleInput) : ScheduleInput where
  name := some input.name
  amount := input.amount
  cadence := input.cadence
  startDate := some input.startDate
  endDate := input.endDate
  reminderDays := input.reminderDays

/-- Any part of the fields, each none where the patch has no such field. -/
structure SchedulePatch where
  accountId : Option String := none
  name : Option String := none
  amount : Option Number := none
  categorySlug : Option String := none
  cadence : Option (Option ScheduleCadence) := none
  startDate : Option String := none
  endDate : Option (Option String) := none
  reminderDays : Option Number := none

/-- What is validated: the schedule with the fields of the patch in place of its own. -/
def ScheduledTransaction.merged (existing : ScheduledTransaction) (patch : SchedulePatch) :
    ScheduleInput where
  name := some (patch.name.getD existing.name)
  amount := patch.amount.getD (some existing.amount)
  cadence := patch.cadence.getD (some existing.cadence)
  startDate := some (patch.startDate.getD existing.startDate)
  endDate := patch.endDate.getD existing.endDate
  reminderDays := some (patch.reminderDays.getD (some existing.reminderDays))

/-- What is stored for an accepted patch. The id is never patched, and the currency as given. -/
def ScheduledTransaction.patched (existing : ScheduledTransaction) (patch : SchedulePatch)
    (currency : String) : ScheduledTransaction :=
  { existing with
    accountId := patch.accountId.getD existing.accountId
    name := patch.name.getD existing.name
    amount := (patch.amount.getD (some existing.amount)).getD existing.amount
    currency
    categorySlug := patch.categorySlug.getD existing.categorySlug
    cadence := (patch.cadence.getD (some existing.cadence)).getD existing.cadence
    startDate := patch.startDate.getD existing.startDate
    endDate := patch.endDate.getD existing.endDate
    reminderDays := (patch.reminderDays.getD (some existing.reminderDays)).getD existing.reminderDays }

/-! ### The store -/

structure InMemoryScheduleStore where
  byUser : OrdMap String (List ScheduledTransaction) := ∅

namespace InMemoryScheduleStore

variable (localeCompare : String → String → Ordering) (st : InMemoryScheduleStore)

def bucket (userId : String) : List ScheduledTransaction := (st.byUser.get? userId).getD []

def list (userId : String) (includeArchived : Bool := false) : List ScheduledTransaction :=
  ((st.bucket userId).filter fun s => includeArchived || s.archivedAt == none).insertionSort
    fun a b => (localeCompare a.startDate b.startDate).then (localeCompare a.name b.name) ≠ .gt

def get (userId id : String) : Option ScheduledTransaction :=
  Table.lookup ScheduledTransaction.id id (st.bucket userId)

def create (userId : String) (schedule : ScheduledTransaction) : InMemoryScheduleStore :=
  ⟨st.byUser.set userId (st.bucket userId ++ [schedule])⟩

def update (userId id : String) (patch : SchedulePatch) (currency : String) :
    Option ScheduledTransaction × InMemoryScheduleStore :=
  match st.get userId id with
  | none => (none, st)
  | some row =>
    (some (row.patched patch currency), ⟨st.byUser.set userId
      (Table.modify ScheduledTransaction.id id (·.patched patch currency) (st.bucket userId))⟩)

/-- The id of a schedule, and whether it is archived. -/
def liveKey (schedule : ScheduledTransaction) : String × Option String :=
  (schedule.id, schedule.archivedAt)

def archive (userId id at_ : String) : Bool × InMemoryScheduleStore :=
  match Table.lookup liveKey (id, none) (st.bucket userId) with
  | none => (false, st)
  | some _ => (true, ⟨st.byUser.set userId (Table.modify liveKey (id, none)
      (fun row => { row with archivedAt := some at_ }) (st.bucket userId))⟩)

end InMemoryScheduleStore

/-! ### The service -/

def isKnownCategory (slug : String) : Bool := Insights.CATEGORIES.any fun category => category.1 = slug

inductive ScheduleError
  | http (error : HttpError)
  | rejected (problems : List String)
  | date (error : DateError)
  deriving DecidableEq, Repr

structure ScheduleView where
  schedule : ScheduledTransaction
  accountName : String
  nextDate : Option IsoDate
  dueSoon : Bool
  deriving DecidableEq, Repr

structure UpcomingEntry where
  occurrence : Occurrence
  scheduleId : String
  name : String
  amount : Int
  currency : String
  categorySlug : String
  accountId : String
  accountName : String
  deriving DecidableEq, Repr

structure UpcomingResult where
  entries : List UpcomingEntry
  committedOutflow : Int
  horizonDays : Int
  deriving DecidableEq, Repr

/-- The fresh id, the day and the time of a request. -/
structure Stamp where
  id : String
  today : String
  now : String

def MAX_HORIZON_DAYS : Int := 365

namespace ScheduledService

variable (X : ScheduleContext) (st : InMemoryScheduleStore)

def account (userId accountId : String) : Option Account :=
  (X.accounts userId).find? fun a => a.id = accountId

def requireAccount (userId accountId : String) : Except ScheduleError Account :=
  orThrow (account X userId accountId) (.http (.notFound "No such account."))

/-- The name of an account. Where two accounts have one id, the last of them counts. -/
def nameOf (userId accountId : String) : String :=
  (((X.accounts userId).reverse.find? fun a => a.id = accountId).map (·.name)).getD "Closed account"

def view (schedule : ScheduledTransaction) (accountName : String) (today : IsoDate) :
    Except ScheduleError ScheduleView :=
  (do
    let nextDate ← nextOccurrence schedule today
    let upcoming ← upcomingOccurrences schedule today schedule.reminderDays.toNat
    return ⟨schedule, accountName, nextDate, upcoming.any (·.due)⟩ :
    Except DateError ScheduleView).mapError .date

def list (userId : String) (includeArchived : Bool) (stamp : Stamp) :
    Except ScheduleError (List ScheduleView) :=
  (st.list X.localeCompare userId includeArchived).mapM fun schedule =>
    view schedule (nameOf X userId schedule.accountId) stamp.today

/-- The schedule that a request creates. -/
def newSchedule (account : Account) (input : CreateScheduleInput) (stamp : Stamp) :
    Except ScheduleError ScheduledTransaction := do
  let problems := validateSchedule input.input
  throwIf (problems ≠ []) (.rejected problems)
  let categorySlug := input.categorySlug.getD "unknown"
  throwIf (isKnownCategory categorySlug = false)
    (.http (.badRequest ("Unknown category \"" ++ categorySlug ++ "\".")))
  return {
    id := stamp.id
    accountId := account.id
    name := trim input.name
    amount := input.amount.getD 0
    -- taken from the account, never from the request
    currency := account.currency
    categorySlug
    cadence := input.cadence.getD .monthly
    startDate := input.startDate
    endDate := input.endDate
    reminderDays := (input.reminderDays.getD (some 3)).getD 3
    archivedAt := none }

def create (userId : String) (input : CreateScheduleInput) (stamp : Stamp) :
    Except ScheduleError ScheduleView × InMemoryScheduleStore :=
  match requireAccount X userId input.accountId with
  | .error e => (.error e, st)
  | .ok account =>
    match newSchedule account input stamp with
    | .error e => (.error e, st)
    | .ok schedule => (view schedule account.name stamp.today, st.create userId schedule)

def update (userId id : String) (patch : SchedulePatch) (stamp : Stamp) :
    Except ScheduleError ScheduleView × InMemoryScheduleStore :=
  match st.get userId id with
  | none => (.error (.http (.notFound "No such schedule.")), st)
  | some existing =>
    match validateSchedule (existing.merged patch) with
    | problem :: problems => (.error (.rejected (problem :: problems)), st)
    | [] =>
      match st.update userId id patch existing.currency with
      | (none, st) => (.error (.http (.notFound "No such schedule.")), st)
      | (some updated, st) =>
        let name := ((account X userId updated.accountId).map (·.name)).getD "Closed account"
        (view updated name stamp.today, st)

def archive (userId id : String) (stamp : Stamp) : Except ScheduleError Unit × InMemoryScheduleStore :=
  match st.archive userId id stamp.now with
  | (true, st) => (.ok (), st)
  | (false, st) =>
    (.error (.http (.notFound "No such schedule, or it is already archived.")), st)

/-- The entries of one schedule. -/
def entriesOf (userId : String) (schedule : ScheduledTransaction) (today : IsoDate) (days : Nat) :
    Except DateError (List UpcomingEntry) := do
  let upcoming ← upcomingOccurrences schedule today days
  return upcoming.map fun occurrence =>
    { occurrence
      scheduleId := schedule.id
      name := schedule.name
      amount := schedule.amount
      currency := schedule.currency
      categorySlug := schedule.categorySlug
      accountId := schedule.accountId
      accountName := nameOf X userId schedule.accountId }

/-- Every occurrence of every live schedule, in the order of the dates, and what is spoken for. -/
def upcoming (userId : String) (days : Number) (stamp : Stamp) : Except ScheduleError UpcomingResult :=
  let refused : HttpError := .badRequest "days must be between 1 and 365."
  match days with
  | none => .error (.http refused)
  | some days =>
    if isSafeInteger days = false ∨ days < 1 ∨ MAX_HORIZON_DAYS < days then .error (.http refused)
    else
      (do
        let schedules := st.list X.localeCompare userId
        let entries ← schedules.mapM fun schedule =>
          entriesOf X userId schedule stamp.today days.toNat
        let outflow ← committedOutflow schedules stamp.today days.toNat
        return {
          entries := entries.flatten.insertionSort fun a b =>
            (X.localeCompare a.occurrence.date b.occurrence.date).then
              (X.localeCompare a.name b.name) ≠ .gt
          committedOutflow := outflow
          horizonDays := days } : Except DateError UpcomingResult).mapError .date

end ScheduledService

end Finverse.Scheduled
