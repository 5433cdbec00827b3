import Finverse.Framework.Steps
import Finverse.Scheduled.Anchored
import Finverse.Scheduled.Service
import Mathlib.Data.List.DropRight

/-! What holds of every stored schedule. -/

namespace Finverse.Scheduled

open Auth (trim isJsSpace jsLength)
open ScheduledService (account newSchedule)

variable {X : ScheduleContext} {userId : String} {schedule existing : ScheduledTransaction}

/-- The schedule is one that would be accepted, of a known category, and in the currency of an account
of the user. -/
structure Stored (X : ScheduleContext) (userId : String) (schedule : ScheduledTransaction) : Prop where
  accepted : validateSchedule schedule.input = []
  category : isKnownCategory schedule.categorySlug = true
  account : ∃ a, account X userId schedule.accountId = some a ∧ a.currency = schedule.currency

def Sound (X : ScheduleContext) (st : InMemoryScheduleStore) : Prop :=
  ∀ userId, ∀ schedule ∈ st.bucket userId, Stored X userId schedule

/-! ### A new schedule -/

theorem trim_trim (s : String) : trim (trim s) = trim s := by
  have front : ((s.toList.dropWhile isJsSpace).rdropWhile isJsSpace).dropWhile isJsSpace =
      (s.toList.dropWhile isJsSpace).rdropWhile isJsSpace := by
    rw [List.dropWhile_eq_self_iff]
    intro some_
    have before := List.rdropWhile_prefix isJsSpace (s.toList.dropWhile isJsSpace)
    have there := some_.trans_le before.length_le
    rw [before.getElem some_]
    exact List.dropWhile_get_zero_not isJsSpace s.toList there
  have same : ∀ t : String, trim t =
      String.ofList ((t.toList.dropWhile isJsSpace).rdropWhile isJsSpace) := fun _ => rfl
  rw [same (trim s), same s, String.toList_ofList, front, List.rdropWhile_idempotent]

theorem account_id {accountId : String} {a : Account} (found : account X userId accountId = some a) :
    a.id = accountId := by
  rw [account] at found
  simpa using List.find?_some found

theorem newSchedule_stored {input : CreateScheduleInput} {stamp : Stamp} {a : Account}
    (found : account X userId input.accountId = some a)
    (made : newSchedule a input stamp = .ok schedule) : Stored X userId schedule := by
  obtain ⟨_, noProblem, made⟩ := bind_ok made
  obtain ⟨_, known, made⟩ := bind_ok made
  obtain rfl := Except.ok.inj made
  have problems := not_not.mp (throwIf_ok noProblem)
  have accepted := (validateSchedule_iff _).mp problems
  have named : a.id = input.accountId := account_id found
  refine ⟨(validateSchedule_iff _).mpr ?_, by simpa using throwIf_ok known, a, ?_, rfl⟩
  · obtain ⟨amount, given, safe, nonzero⟩ := accepted.amount
    constructor
    · change 0 < jsLength (trim (trim input.name)) ∧ jsLength (trim (trim input.name)) ≤ _
      rw [trim_trim]
      exact accepted.name
    · refine ⟨amount, ?_, safe, nonzero⟩
      change some (input.amount.getD 0) = some amount
      rw [show input.amount = some amount from given]
      rfl
    · exact ⟨_, rfl⟩
    · exact accepted.startDate
    · exact accepted.endDate
    · intro reminder reminded
      obtain rfl := Option.some.inj reminded
      cases given : input.reminderDays with
      | none => exact ⟨3, rfl, by decide, by decide⟩
      | some reminder =>
        obtain ⟨days, rfl, low, high⟩ := accepted.reminderDays reminder given
        exact ⟨days, rfl, low, high⟩
  · rw [named]
    exact found

/-! ### A patched schedule -/

/-- What is stored for an accepted patch is what was validated. -/
theorem patched_input {patch : SchedulePatch} {currency : String}
    (accepted : Accepted (existing.merged patch)) :
    (existing.patched patch currency).input = existing.merged patch := by
  obtain ⟨amount, given, -⟩ := accepted.amount
  obtain ⟨cadence, given'⟩ := accepted.cadence
  obtain ⟨days, given'', -⟩ := accepted.reminderDays _ rfl
  have amount_given : patch.amount.getD (some existing.amount) = some amount := given
  have cadence_given : patch.cadence.getD (some existing.cadence) = some cadence := given'
  rw [ScheduledTransaction.input, ScheduledTransaction.merged, ScheduledTransaction.patched]
  dsimp only
  rw [amount_given, cadence_given, given'']
  rfl

/-- The fields that are not validated with the rest. -/
structure Fitting (X : ScheduleContext) (userId : String) (existing : ScheduledTransaction)
    (patch : SchedulePatch) : Prop where
  category : ∀ slug ∈ patch.categorySlug, isKnownCategory slug = true
  account : ∀ accountId ∈ patch.accountId, ∃ a, account X userId accountId = some a ∧
    a.currency = existing.currency

theorem patched_stored_iff (stored : Stored X userId existing) {patch : SchedulePatch}
    (accepted : validateSchedule (existing.merged patch) = []) :
    Stored X userId (existing.patched patch existing.currency) ↔
      Fitting X userId existing patch := by
  have input := @patched_input existing patch existing.currency ((validateSchedule_iff _).mp accepted)
  constructor
  · intro after
    constructor
    · intro slug given
      have category := after.category
      rw [ScheduledTransaction.patched, Option.mem_def.mp given] at category
      exact category
    · intro accountId given
      have account := after.account
      rw [ScheduledTransaction.patched, Option.mem_def.mp given] at account
      exact account
  · intro fitting
    refine ⟨by rw [input]; exact accepted, ?_, ?_⟩
    · change isKnownCategory (patch.categorySlug.getD existing.categorySlug) = true
      cases given : patch.categorySlug with
      | none => exact stored.category
      | some slug => exact fitting.category slug given
    · change ∃ a, account X userId (patch.accountId.getD existing.accountId) = some a ∧ _
      cases given : patch.accountId with
      | none => exact stored.account
      | some accountId => exact fitting.account accountId given

/-! ### One call after another -/

inductive Call
  | create (userId : String) (input : CreateScheduleInput) (stamp : Stamp)
  | update (userId id : String) (patch : SchedulePatch) (stamp : Stamp)
  | archive (userId id : String) (stamp : Stamp)

def Call.run (X : ScheduleContext) (st : InMemoryScheduleStore) : Call → InMemoryScheduleStore
  | .create userId input stamp => (ScheduledService.create X st userId input stamp).2
  | .update userId id patch stamp => (ScheduledService.update X st userId id patch stamp).2
  | .archive userId id stamp => (ScheduledService.archive st userId id stamp).2

/-- A patch that is accepted fits the schedule it is for. -/
def Fits (X : ScheduleContext) : Call → InMemoryScheduleStore → Prop
  | .update userId id patch _, st => ∀ existing, st.get userId id = some existing →
      validateSchedule (existing.merged patch) = [] → Fitting X userId existing patch
  | _, _ => True

theorem bucket_set (st : InMemoryScheduleStore) (userId other : String)
    (rows : List ScheduledTransaction) :
    InMemoryScheduleStore.bucket ⟨st.byUser.set userId rows⟩ other =
      if userId = other then rows else st.bucket other := by
  rw [InMemoryScheduleStore.bucket, OrdMap.get?_set]
  split
  · rfl
  · rfl

variable {st : InMemoryScheduleStore}

/-- The rows of one user are written. -/
theorem sound_set {rows : List ScheduledTransaction} (sound : Sound X st) :
    Sound X ⟨st.byUser.set userId rows⟩ ↔ ∀ schedule ∈ rows, Stored X userId schedule := by
  constructor
  · intro after schedule mem
    refine after userId schedule ?_
    rw [bucket_set, if_pos rfl]
    exact mem
  · intro all other schedule mem
    rw [bucket_set] at mem
    split at mem
    · rename_i same
      exact same ▸ all schedule mem
    · exact sound other schedule mem

theorem create_sound (sound : Sound X st) (userId : String) (input : CreateScheduleInput)
    (stamp : Stamp) : Sound X (ScheduledService.create X st userId input stamp).2 := by
  rw [ScheduledService.create]
  cases found : ScheduledService.requireAccount X userId input.accountId with
  | error e => exact sound
  | ok a =>
    dsimp only
    cases made : newSchedule a input stamp with
    | error e => exact sound
    | ok schedule =>
      refine (sound_set sound).mpr fun row mem => ?_
      rcases List.mem_append.mp mem with old | new
      · exact sound userId row old
      · obtain rfl := List.mem_singleton.mp new
        exact newSchedule_stored (orThrow_ok found) made

theorem archive_sound (sound : Sound X st) (userId id : String) (stamp : Stamp) :
    Sound X (ScheduledService.archive st userId id stamp).2 := by
  rw [ScheduledService.archive, InMemoryScheduleStore.archive]
  cases found : Table.lookup InMemoryScheduleStore.liveKey (id, none) (st.bucket userId) with
  | none => exact sound
  | some live =>
    refine (sound_set sound).mpr fun row mem => ?_
    rcases Table.mem_modify mem with old | ⟨old, stored, -, rfl⟩
    · exact sound userId row old
    · have before := sound userId old stored
      exact ⟨before.accepted, before.category, before.account⟩

section Patched

variable {id currency : String} {patch : SchedulePatch}

theorem patched_mem (found : st.get userId id = some existing) :
    existing.patched patch currency ∈
      Table.modify ScheduledTransaction.id id (·.patched patch currency) (st.bucket userId) := by
  refine Table.lookup_mem (?_ : Table.lookup ScheduledTransaction.id id _ = _)
  rw [Table.lookup_modify fun row there => (Table.lookup_key there : row.id = id), if_pos rfl,
    show Table.lookup ScheduledTransaction.id id (st.bucket userId) = some existing from found]
  rfl

/-- Only the row that is found is patched. -/
theorem patched_rows (rows : ∀ row ∈ st.bucket userId, Stored X userId row)
    (found : st.get userId id = some existing)
    (next : Stored X userId (existing.patched patch currency)) :
    ∀ row ∈ Table.modify ScheduledTransaction.id id (·.patched patch currency) (st.bucket userId),
      Stored X userId row := by
  have moved : List.Forall₂ (fun row row' => Stored X userId row → Stored X userId row')
      (st.bucket userId)
      (Table.modify ScheduledTransaction.id id (·.patched patch currency) (st.bucket userId)) := by
    refine Table.forall₂_modify (fun _ same => same) fun row there _ => ?_
    obtain rfl := Option.some.inj (found.symm.trans there)
    exact next
  exact Table.forall_of_forall₂ (fun _ _ keeps => keeps) moved rows

end Patched

theorem update_sound_iff (sound : Sound X st) (userId id : String) (patch : SchedulePatch)
    (stamp : Stamp) :
    Sound X (ScheduledService.update X st userId id patch stamp).2 ↔
      ∀ existing, st.get userId id = some existing →
        validateSchedule (existing.merged patch) = [] → Fitting X userId existing patch := by
  rw [ScheduledService.update]
  cases found : st.get userId id with
  | none =>
    refine iff_of_true sound ?_
    intro existing there
    cases there
  | some existing =>
    dsimp only
    cases checked : validateSchedule (existing.merged patch) with
    | cons problem problems =>
      refine iff_of_true sound ?_
      intro existing' there valid
      obtain rfl := Option.some.inj there
      rw [checked] at valid
      cases valid
    | nil =>
      have stored := sound userId existing (Table.lookup_mem found)
      have fits := patched_stored_iff stored checked
      rw [InMemoryScheduleStore.update, found]
      refine (sound_set sound).trans ⟨?_, ?_⟩
      · intro after existing' there _
        obtain rfl := Option.some.inj there
        exact fits.mp (after _ (patched_mem found))
      · intro fitting
        exact patched_rows (sound userId) found (fits.mpr (fitting existing rfl checked))

theorem run_sound_iff (call : Call) (sound : Sound X st) :
    Sound X (call.run X st) ↔ Fits X call st := by
  cases call with
  | create userId input stamp => exact iff_of_true (create_sound sound userId input stamp) trivial
  | archive userId id stamp => exact iff_of_true (archive_sound sound userId id stamp) trivial
  | update userId id patch stamp => exact update_sound_iff sound userId id patch stamp

theorem sound_empty : Sound X {} := by
  intro userId schedule mem
  cases mem

/-- In every run the stored schedules are sound from state to state just where every patch that is
accepted fits: a known category, and an account of the user in the currency of the schedule. -/
theorem schedules_sound_iff (X : ScheduleContext) (calls : List Call) :
    Steps.Always (fun call st => Call.run X st call) (Sound X) calls {} ↔
      Steps.Each (fun call st => Call.run X st call) (Fits X) calls {} := by
  have runs := @Steps.always_iff _ _ (fun call st => Call.run X st call) (Sound X) (fun _ => True)
    (Fits X) (fun _ _ _ _ _ => trivial) (fun call _ _ sound => run_sound_iff call sound) calls {} trivial
  exact runs.trans (and_iff_right sound_empty)

def twoAccounts : ScheduleContext where
  accounts := fun _ => [⟨"a1", "Checking", "USD"⟩, ⟨"a2", "Euro account", "EUR"⟩]
  localeCompare := compare

def rentInput : CreateScheduleInput where
  accountId := "a1"
  name := "Rent"
  amount := some (-120000)
  categorySlug := some "rent"
  cadence := some .monthly
  startDate := "2026-01-31"

def firstStamp : Stamp := ⟨"s1", "2026-01-15", "2026-01-15T12:00:00.000Z"⟩

theorem rent_created :
    (ScheduledService.create twoAccounts {} "u1" rentInput firstStamp).2.get "u1" "s1" =
      some (monthlyFrom "2026-01-31") := by
  decide +kernel

/-- A patch moves a schedule to an account of another currency, and its own currency stays. -/
theorem not_always_sound :
    ¬∀ (X : ScheduleContext) (calls : List Call),
      Steps.Always (fun call st => Call.run X st call) (Sound X) calls {} := by
  intro all
  have always := all twoAccounts [.create "u1" rentInput firstStamp,
    .update "u1" "s1" { accountId := some "a2" } firstStamp]
  have created := create_sound (sound_empty (X := twoAccounts)) "u1" rentInput firstStamp
  have fits := (update_sound_iff created "u1" "s1" { accountId := some "a2" } firstStamp).mp
    always.2.2 _ rent_created (by decide)
  obtain ⟨a, found, same⟩ := fits.account "a2" rfl
  have euro : account twoAccounts "u1" "a2" = some ⟨"a2", "Euro account", "EUR"⟩ := by decide
  obtain rfl := Option.some.inj (euro.symm.trans found)
  exact absurd same (by decide)

end Finverse.Scheduled
