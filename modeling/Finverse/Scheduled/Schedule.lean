import Finverse.Auth.Domain
import Finverse.Scheduled.IsoDates

/-! Scheduled obligations: bills and transfers a user has declared. -/

namespace Finverse.Scheduled

open Auth (trim jsLength)
open Imports (decimal padStart daysInMonth)
open Ledger (IsoDate)

inductive ScheduleCadence
  | weekly
  | fortnightly
  | monthly
  | quarterly
  | yearly
  deriving DecidableEq, Repr

structure ScheduledTransaction where
  id : String
  accountId : String
  name : String
  amount : Int
  currency : String
  categorySlug : String
  cadence : ScheduleCadence
  startDate : IsoDate
  endDate : Option IsoDate
  reminderDays : Int
  archivedAt : Option String
  deriving DecidableEq, Repr

/-- `daysUntil` is none where a date is no date. -/
structure Occurrence where
  date : IsoDate
  due : Bool
  daysUntil : Option Int
  deriving DecidableEq, Repr

def MONTHS_PER_CADENCE : ScheduleCadence → Nat
  | .weekly => 0
  | .fortnightly => 0
  | .monthly => 1
  | .quarterly => 3
  | .yearly => 12

def DAYS_PER_CADENCE : ScheduleCadence → Nat
  | .weekly => 7
  | .fortnightly => 14
  | .monthly => 0
  | .quarterly => 0
  | .yearly => 0

def addDaysIso (date : IsoDate) (days : Nat) : Except DateError IsoDate := do
  let d ← toUtcDate date
  toIsoDate (d.map (·.addDays days))

/-- `Number`, of a part of a date text: a sign in front is taken with the digits. -/
def number (cs : List Char) : Nat := decimal (cs.dropWhile (· = '+'))

/-- The nth occurrence after the start date. -/
def occurrenceAt (schedule : ScheduledTransaction) (index : Nat) : Except DateError IsoDate :=
  if index = 0 then .ok schedule.startDate
  else if 0 < DAYS_PER_CADENCE schedule.cadence then
    addDaysIso schedule.startDate (DAYS_PER_CADENCE schedule.cadence * index)
  else do
    let monthStep := MONTHS_PER_CADENCE schedule.cadence
    let anchorDay := number (slice 8 10 schedule.startDate.toList)
    let firstOfStart := String.ofList (slice 0 7 schedule.startDate.toList ++ ['-', '0', '1'])
    let advanced ← addMonths firstOfStart (monthStep * index)
    let year := number (slice 0 4 advanced.toList)
    let month := number (slice 5 7 advanced.toList)
    let day := min anchorDay (utcDaysInMonth year month)
    return String.ofList (slice 0 7 advanced.toList ++ '-' :: padStart 2 day)

/-- `Math.round` of the milliseconds between, in days. -/
def daysBetween (date today : IsoDate) : Except DateError (Option Int) := do
  let d ← toUtcDate date
  let t ← toUtcDate today
  return d.bind fun d => t.map fun t => (d.number : Int) - t.number

/-- The loop of `upcomingOccurrences`, with the turns that are left. -/
def walk (schedule : ScheduledTransaction) (today horizon : IsoDate) :
    Nat → Nat → Except DateError (List Occurrence)
  | 0, _ => .ok []
  | turns + 1, index => do
    let date ← occurrenceAt schedule index
    if horizon < date then return []
    else if schedule.endDate.any fun endDate => endDate ≠ "" ∧ endDate < date then return []
    else if date < today then walk schedule today horizon turns (index + 1)
    else
      let daysUntil ← daysBetween date today
      let later ← walk schedule today horizon turns (index + 1)
      return ⟨date, daysUntil.any fun days => days ≤ schedule.reminderDays, daysUntil⟩ :: later

def maxIterations : Nat := 1000

def upcomingOccurrences (schedule : ScheduledTransaction) (today : IsoDate) (days : Nat) :
    Except DateError (List Occurrence) :=
  if schedule.archivedAt ≠ none then .ok []
  else do
    let horizon ← addDaysIso today days
    walk schedule today horizon maxIterations 0

/-- The next occurrence on or after `today`, none when the schedule has ended. -/
def nextOccurrence (schedule : ScheduledTransaction) (today : IsoDate) :
    Except DateError (Option IsoDate) := do
  let upcoming ← upcomingOccurrences schedule today 366
  return upcoming.head?.map (·.date)

/-! ### What is accepted -/

def MAX_SCHEDULE_NAME_LENGTH : Nat := 80

def MAX_REMINDER_DAYS : Int := 30

def MAX_SAFE_INTEGER : Int := 9007199254740991

/-- A number of a request, none for one that is no integer. -/
abbrev Number := Option Int

/-- The fields that are looked at, none where one is missing. A cadence that is none of the list is
as good as none. -/
structure ScheduleInput where
  name : Option String := none
  amount : Number := none
  cadence : Option ScheduleCadence := none
  startDate : Option String := none
  endDate : Option String := none
  reminderDays : Option Number := none
  deriving DecidableEq, Repr

def isSafeInteger (n : Int) : Bool := -MAX_SAFE_INTEGER ≤ n && n ≤ MAX_SAFE_INTEGER

def problemWhen (problem : Bool) (message : String) : List String := if problem then [message] else []

/-- The problems, none for a schedule that is accepted. -/
def validateSchedule (input : ScheduleInput) : List String :=
  let name := trim (input.name.getD "")
  let reminder := input.reminderDays.getD (some 0)
  problemWhen (jsLength name == 0) "Give the schedule a name." ++
  problemWhen (MAX_SCHEDULE_NAME_LENGTH < jsLength name) "Use 80 characters or fewer." ++
  problemWhen (!input.amount.any isSafeInteger || input.amount == some 0)
    "Enter an amount in whole minor units. Zero is not a commitment." ++
  problemWhen (input.cadence == none)
    "Cadence must be one of: weekly, fortnightly, monthly, quarterly, yearly." ++
  problemWhen (!input.startDate.any isIsoDate)
    "startDate must be a calendar date (YYYY-MM-DD)." ++
  (match input.endDate with
    | none => []
    | some endDate =>
      if isIsoDate endDate = false then ["endDate must be a calendar date (YYYY-MM-DD)."]
      else problemWhen (input.startDate.any fun startDate => startDate ≠ "" ∧ endDate < startDate)
        "endDate must not be before startDate.") ++
  problemWhen (!reminder.any isSafeInteger ||
      reminder.any fun days => days < 0 || MAX_REMINDER_DAYS < days)
    "reminderDays must be between 0 and 30."

/-- What an accepted input is. -/
structure Accepted (input : ScheduleInput) : Prop where
  name : 0 < jsLength (trim (input.name.getD "")) ∧
    jsLength (trim (input.name.getD "")) ≤ MAX_SCHEDULE_NAME_LENGTH
  amount : ∃ amount, input.amount = some amount ∧ isSafeInteger amount = true ∧ amount ≠ 0
  cadence : ∃ cadence, input.cadence = some cadence
  startDate : ∃ startDate, input.startDate = some startDate ∧ isIsoDate startDate = true
  endDate : ∀ endDate ∈ input.endDate, isIsoDate endDate = true ∧
    ∀ startDate ∈ input.startDate, ¬endDate < startDate
  reminderDays : ∀ reminder ∈ input.reminderDays, ∃ days, reminder = some days ∧
    0 ≤ days ∧ days ≤ MAX_REMINDER_DAYS

theorem problemWhen_eq_nil {problem : Bool} {message : String} :
    problemWhen problem message = [] ↔ problem = false := by
  cases problem with
  | false => exact iff_of_true rfl rfl
  | true => simp [problemWhen]

theorem isSafeInteger_small {n : Int} (low : 0 ≤ n) (high : n ≤ MAX_REMINDER_DAYS) :
    isSafeInteger n = true := by
  have bounds : -MAX_SAFE_INTEGER ≤ n ∧ n ≤ MAX_SAFE_INTEGER := by
    rw [MAX_REMINDER_DAYS] at high
    rw [MAX_SAFE_INTEGER]
    omega
  exact Bool.and_eq_true_iff.mpr ⟨decide_eq_true bounds.1, decide_eq_true bounds.2⟩

theorem isIsoDate_ne_empty {text : String} (iso : isIsoDate text = true) : text ≠ "" := by
  rintro rfl
  exact absurd iso (by decide)

/-- The input is accepted just where no check finds a problem. -/
theorem validateSchedule_iff (input : ScheduleInput) :
    validateSchedule input = [] ↔ Accepted input := by
  simp only [validateSchedule, List.append_eq_nil_iff, problemWhen_eq_nil]
  constructor
  · rintro ⟨⟨⟨⟨⟨⟨named, short⟩, amount⟩, cadence⟩, started⟩, ended⟩, reminder⟩
    have start : ∃ startDate, input.startDate = some startDate ∧ isIsoDate startDate = true :=
      (Option.any_eq_true _ _).mp ((Bool.not_eq_false' _).mp started)
    refine ⟨⟨?_, ?_⟩, ?_, ?_, start, ?_, ?_⟩
    · exact Nat.pos_of_ne_zero (by simpa using named)
    · simpa using short
    · obtain ⟨safe, zero⟩ := Bool.or_eq_false_iff.mp amount
      obtain ⟨value, given, within⟩ := (Option.any_eq_true _ _).mp ((Bool.not_eq_false' _).mp safe)
      refine ⟨value, given, within, ?_⟩
      rintro rfl
      simp [given] at zero
    · exact Option.ne_none_iff_exists'.mp (beq_eq_false_iff_ne.mp cadence)
    · intro endDate given
      rw [Option.mem_def.mp given] at ended
      by_cases iso : isIsoDate endDate = false
      · simp [iso] at ended
      refine ⟨by simpa using iso, fun startDate begun before => ?_⟩
      simp only [if_neg iso, problemWhen_eq_nil, Option.mem_def.mp begun] at ended
      obtain ⟨startDate', begun', iso'⟩ := start
      obtain rfl := Option.some.inj (begun.symm.trans begun')
      exact of_decide_eq_false ended ⟨isIsoDate_ne_empty iso', before⟩
    · intro days given
      rw [Option.mem_def.mp given] at reminder
      obtain ⟨safe, within⟩ := Bool.or_eq_false_iff.mp reminder
      obtain ⟨value, rfl, -⟩ := (Option.any_eq_true _ _).mp ((Bool.not_eq_false' _).mp safe)
      refine ⟨value, rfl, ?_⟩
      simpa using within
  · intro accepted
    obtain ⟨amount, given, safe, nonzero⟩ := accepted.amount
    obtain ⟨cadence, cadence_given⟩ := accepted.cadence
    obtain ⟨startDate, begun, iso⟩ := accepted.startDate
    refine ⟨⟨⟨⟨⟨⟨?_, ?_⟩, ?_⟩, ?_⟩, ?_⟩, ?_⟩, ?_⟩
    · simpa using Nat.ne_of_gt accepted.name.1
    · simpa using accepted.name.2
    · simp [given, safe, nonzero]
    · simp [cadence_given]
    · simp [begun, iso]
    · cases ended : input.endDate with
      | none => rfl
      | some endDate =>
        obtain ⟨iso', after⟩ := accepted.endDate endDate ended
        have before := after startDate begun
        simp only [iso', Bool.true_eq_false, if_false, problemWhen_eq_nil, begun]
        exact decide_eq_false fun h => before h.2
    · cases reminded : input.reminderDays with
      | none => decide
      | some reminder =>
        obtain ⟨days, rfl, low, high⟩ := accepted.reminderDays reminder reminded
        simp [isSafeInteger_small low high, low, high]

def ScheduledTransaction.input (schedule : ScheduledTransaction) : ScheduleInput where
  name := some schedule.name
  amount := some schedule.amount
  cadence := some schedule.cadence
  startDate := some schedule.startDate
  endDate := schedule.endDate
  reminderDays := some (some schedule.reminderDays)

/-- The outflow of the schedules up to the horizon, in positive minor units. -/
def committedOutflow (schedules : List ScheduledTransaction) (today : IsoDate) (days : Nat) :
    Except DateError Int :=
  schedules.foldlM (fun total schedule =>
    if 0 ≤ schedule.amount then .ok total
    else do
      let upcoming ← upcomingOccurrences schedule today days
      return total + schedule.amount.natAbs * upcoming.length) 0

end Finverse.Scheduled
