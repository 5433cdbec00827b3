import Finverse.Scheduled.Anchored

/-! The upcoming occurrences of a schedule, and the next one. -/

namespace Finverse.Scheduled

open Ledger (IsoDate)

variable {schedule : ScheduledTransaction} {start today : Insights.Date} {days : Nat}

/-- The date is not after the end date, if there is one. -/
def NotAfter (endDate : Option IsoDate) (date : Insights.Date) : Prop :=
  ∀ end_ ∈ endDate, date.year ≤ 9999 ∧ ¬end_ < text date

/-- From today on, and not after the end date. -/
def Due (schedule : ScheduledTransaction) (today date : Insights.Date) : Prop :=
  today ≤ date ∧ NotAfter schedule.endDate date

def InWindow (schedule : ScheduledTransaction) (today : Insights.Date) (days : Nat)
    (date : Insights.Date) : Prop :=
  Due schedule today date ∧ date ≤ today.addDays days

theorem InWindow.year {date : Insights.Date} (within : InWindow schedule today days date)
    (small : (today.addDays days).year ≤ 9999) : date.year ≤ 9999 :=
  Nat.le_trans (Insights.Date.year_le_of_digits within.2) small

theorem notAfter_of_le {endDate : Option IsoDate} {a b : Insights.Date} (before : a ≤ b)
    (notAfter : NotAfter endDate b) : NotAfter endDate a := by
  intro end_ mem
  obtain ⟨small, within⟩ := notAfter end_ mem
  have small' := Nat.le_trans (Insights.Date.year_le_of_digits before) small
  refine ⟨small', fun passed => ?_⟩
  rcases Nat.lt_or_eq_of_le (before : a.digits ≤ b.digits) with less | same
  · exact within (lt_trans passed ((text_lt_iff small' small).mpr less))
  · rw [Insights.Date.le_antisymm before same.ge] at passed
    exact within passed

/-- The end date has the form of a date. -/
def EndsOnText (schedule : ScheduledTransaction) : Prop :=
  ∀ end_ ∈ schedule.endDate, isIsoDate end_ = true

/-- What the loop has found: in order, the dates of the window among the turns it had. -/
structure Walked (schedule : ScheduledTransaction) (start today : Insights.Date) (days : Nat)
    (turns index : Nat) (found : List Occurrence) : Prop where
  sorted : (found.map (·.date)).Pairwise (· < ·)
  dates : ∀ value, value ∈ found.map (·.date) ↔ ∃ k, index ≤ k ∧ k < index + turns ∧
    InWindow schedule today days (reckoned schedule.cadence start k) ∧
    value = text (reckoned schedule.cadence start k)

theorem Walked.skip {turns index : Nat} {found : List Occurrence}
    (walked : Walked schedule start today days turns (index + 1) found)
    (out : ¬InWindow schedule today days (reckoned schedule.cadence start index)) :
    Walked schedule start today days (turns + 1) index found := by
  refine ⟨walked.sorted, fun value => (walked.dates value).trans ?_⟩
  constructor
  · rintro ⟨k, low, high, within, same⟩
    exact ⟨k, by omega, by omega, within, same⟩
  · rintro ⟨k, low, high, within, same⟩
    have later : k ≠ index := by
      rintro rfl
      exact out within
    exact ⟨k, by omega, by omega, within, same⟩

theorem Walked.stop {index : Nat} (turns : Nat)
    (out : ∀ k, index ≤ k → ¬InWindow schedule today days (reckoned schedule.cadence start k)) :
    Walked schedule start today days turns index [] := by
  refine ⟨List.Pairwise.nil, fun value => ?_⟩
  simp only [List.map_nil, List.not_mem_nil, false_iff]
  rintro ⟨k, low, -, within, -⟩
  exact out k low within

theorem Walked.keep {turns index : Nat} {found : List Occurrence} {first : Occurrence}
    (small : (today.addDays days).year ≤ 9999)
    (walked : Walked schedule start today days turns (index + 1) found)
    (within : InWindow schedule today days (reckoned schedule.cadence start index))
    (date : first.date = text (reckoned schedule.cadence start index)) :
    Walked schedule start today days (turns + 1) index (first :: found) := by
  constructor
  · refine List.pairwise_cons.mpr ⟨fun value mem => ?_, walked.sorted⟩
    obtain ⟨k, low, -, within', rfl⟩ := (walked.dates value).mp mem
    change first.date < _
    rw [date]
    exact (text_lt_iff (within.year small) (within'.year small)).mpr (reckoned_lt (by omega))
  · intro value
    rw [List.map_cons, List.mem_cons, walked.dates, date]
    constructor
    · rintro (rfl | ⟨k, low, high, within', same⟩)
      · exact ⟨index, by omega, by omega, within, rfl⟩
      · exact ⟨k, by omega, by omega, within', same⟩
    · rintro ⟨k, low, high, within', same⟩
      rcases Nat.eq_or_lt_of_le low with rfl | later
      · exact Or.inl same
      · exact Or.inr ⟨k, later, by omega, within', same⟩

/-! ### One turn of the loop -/

/-- The end date is set and before the text. -/
def Passed (schedule : ScheduledTransaction) (value : IsoDate) : Prop :=
  schedule.endDate.any (fun endDate => endDate ≠ "" ∧ endDate < value) = true

section Turn

variable {value : IsoDate} {horizon now : IsoDate} {turns index : Nat}

variable (turns) in
theorem walk_stop (taken : occurrenceAt schedule index = .ok value)
    (past : horizon < value ∨ Passed schedule value) :
    walk schedule now horizon (turns + 1) index = .ok [] := by
  rw [walk, taken]
  by_cases beyond : horizon < value
  · exact if_pos beyond
  · exact (if_neg beyond).trans (if_pos (past.resolve_left beyond))

variable (turns) in
theorem walk_skip (taken : occurrenceAt schedule index = .ok value) (within : ¬horizon < value)
    (open_ : ¬Passed schedule value) (early : value < now) :
    walk schedule now horizon (turns + 1) index = walk schedule now horizon turns (index + 1) := by
  rw [walk, taken]
  exact (if_neg within).trans ((if_neg open_).trans (if_pos early))

theorem walk_keep {daysUntil : Option Int} {later : List Occurrence}
    (taken : occurrenceAt schedule index = .ok value) (within : ¬horizon < value)
    (open_ : ¬Passed schedule value) (since : ¬value < now)
    (between : daysBetween value now = .ok daysUntil)
    (rest : walk schedule now horizon turns (index + 1) = .ok later) :
    walk schedule now horizon (turns + 1) index = .ok
      (⟨value, daysUntil.any fun days => days ≤ schedule.reminderDays, daysUntil⟩ :: later) := by
  rw [walk, taken]
  refine (if_neg within).trans ((if_neg open_).trans ((if_neg since).trans ?_))
  rw [between, rest]
  rfl

end Turn

theorem walk_walked (starts : Starts schedule start) (ends : EndsOnText schedule)
    (small : (today.addDays days).year ≤ 9999) (turns index : Nat) :
    ∃ found, walk schedule (text today) (text (today.addDays days)) turns index = .ok found ∧
      Walked schedule start today days turns index found := by
  have small_today := Nat.le_trans (Insights.Date.year_le_addDays today days) small
  induction turns generalizing index with
  | zero =>
    refine ⟨[], rfl, List.Pairwise.nil, fun value => ?_⟩
    simp only [List.map_nil, List.not_mem_nil, false_iff]
    rintro ⟨k, low, high, -⟩
    omega
  | succ turns ih =>
    obtain ⟨found, walked, spec⟩ := ih (index + 1)
    by_cases big : 9999 < (reckoned schedule.cadence start index).year
    · obtain ⟨value, taken, sign⟩ := occurrenceAt_big starts big
      have before := fun {end_ : IsoDate} (iso : isIsoDate end_ = true) => signed_lt sign iso
      have open_ : ¬Passed schedule value := by
        intro passed
        obtain ⟨end_, mem, after⟩ := (Option.any_eq_true _ _).mp passed
        exact lt_asymm (of_decide_eq_true after).2 (before (ends end_ mem))
      have skipped := walk_skip turns taken (lt_asymm (before (isIsoDate_text small)))
        open_ (before (isIsoDate_text small_today))
      refine ⟨found, skipped.trans walked, spec.skip fun within => ?_⟩
      exact absurd (within.year small) (Nat.not_le.mpr big)
    have small_date := Nat.le_of_not_lt big
    have taken := occurrenceAt_small starts small_date
    have onward : ∀ k, index ≤ k → reckoned schedule.cadence start index ≤
        reckoned schedule.cadence start k := by
      intro k low
      rcases Nat.eq_or_lt_of_le low with rfl | later
      · exact Nat.le_refl _
      · exact Nat.le_of_lt (reckoned_lt later)
    by_cases beyond : text (today.addDays days) < text (reckoned schedule.cadence start index)
    · refine ⟨[], walk_stop turns taken (Or.inl beyond), Walked.stop _ fun k low within => ?_⟩
      have after := (text_lt_iff small small_date).mp beyond
      exact absurd (Insights.Date.le_trans (onward k low) within.2) (Nat.not_le.mpr after)
    by_cases passed : Passed schedule (text (reckoned schedule.cadence start index))
    · refine ⟨[], walk_stop turns taken (Or.inr passed), Walked.stop _ fun k low within => ?_⟩
      obtain ⟨end_, mem, after⟩ := (Option.any_eq_true _ _).mp passed
      exact (notAfter_of_le (onward k low) within.1.2 end_ mem).2 (of_decide_eq_true after).2
    by_cases early : text (reckoned schedule.cadence start index) < text today
    · refine ⟨found, (walk_skip turns taken beyond passed early).trans walked,
        spec.skip fun within => ?_⟩
      exact absurd within.1.1 (Nat.not_le.mpr ((text_lt_iff small_date small_today).mp early))
    · have between : daysBetween (text (reckoned schedule.cadence start index)) (text today) =
          .ok (some ((reckoned schedule.cadence start index).number - today.number)) := by
        rw [daysBetween, toUtcDate_text small_date, toUtcDate_text small_today]
        rfl
      refine ⟨_, walk_keep taken beyond passed early between walked,
        spec.keep small ⟨⟨?_, fun end_ mem => ⟨small_date, fun after => ?_⟩⟩, ?_⟩ rfl⟩
      · exact Nat.le_of_not_lt fun h => early ((text_lt_iff small_date small_today).mpr h)
      · refine passed ((Option.any_eq_true _ _).mpr ⟨end_, mem, decide_eq_true ⟨?_, after⟩⟩)
        rintro rfl
        exact absurd (ends "" mem) (by decide)
      · exact Nat.le_of_not_lt fun h => beyond ((text_lt_iff small small_date).mpr h)

theorem addDaysIso_text {date : Insights.Date} (small : date.year ≤ 9999) (days : Nat) :
    addDaysIso (text date) days = .ok (text (date.addDays days)) := addDays_text small days

theorem upcoming_walked (live : schedule.archivedAt = none) (starts : Starts schedule start)
    (ends : EndsOnText schedule) (small : (today.addDays days).year ≤ 9999) :
    ∃ found, upcomingOccurrences schedule (text today) days = .ok found ∧
      Walked schedule start today days maxIterations 0 found := by
  have small_today := Nat.le_trans (Insights.Date.year_le_addDays today days) small
  rw [upcomingOccurrences, if_neg (not_not.mpr live), addDaysIso_text small_today]
  exact walk_walked starts ends small maxIterations 0

/-- A horizon past the year 9999 is before every date. -/
theorem upcoming_far (live : schedule.archivedAt = none) (starts : Starts schedule start)
    (now : today.year ≤ 9999) (far : 9999 < (today.addDays days).year) :
    upcomingOccurrences schedule (text today) days = .ok [] := by
  obtain ⟨cs, signed⟩ := text_toList_big far
  have first : occurrenceAt schedule 0 = .ok (text start) := by
    rw [occurrenceAt, if_pos rfl, starts.startDate]
  have sign : (text (today.addDays days)).toList.head? = some '+' := by
    rw [signed]
    rfl
  have before := signed_lt sign (isIsoDate_text starts.year)
  rw [upcomingOccurrences, if_neg (not_not.mpr live), addDaysIso_text now]
  exact walk_stop 999 first (Or.inl before)

theorem index_unique {k index : Nat} (same : reckoned schedule.cadence start k =
    occurrence schedule.cadence start index) : k = index := by
  by_cases days : 0 < DAYS_PER_CADENCE schedule.cadence
  · have number := congrArg Insights.Date.number same
    rw [number_reckoned days, occurrence, if_pos days, Insights.Date.number_addDays] at number
    exact Nat.eq_of_mul_eq_mul_left days (Nat.add_left_cancel number)
  · have months := congrArg Insights.Date.months same
    rw [months_reckoned days, occurrence, if_neg days, Insights.Date.months_sameDay] at months
    exact Nat.eq_of_mul_eq_mul_left (monthStep_pos days) (Nat.add_left_cancel months)

/-- Two days of February of the year 0. -/
def EndOfFebruaryZero (date : Insights.Date) : Prop :=
  date.year = 0 ∧ date.month = 2 ∧ 28 ≤ date.day

theorem leapZero_parts (leap : LeapZero schedule.cadence start) :
    ((reckoned schedule.cadence start 1).year = 0 ∧ (reckoned schedule.cadence start 1).month = 2 ∧
      (reckoned schedule.cadence start 1).day = 28) ∧
    (occurrence schedule.cadence start 1).year = 0 ∧
      (occurrence schedule.cadence start 1).month = 2 ∧
      (occurrence schedule.cadence start 1).day = 29 := by
  obtain ⟨monthly, zero, january, long⟩ := leap
  have first : (start.firstOfMonth 1).year = 0 ∧ (start.firstOfMonth 1).month = 2 := by
    rw [Insights.Date.firstOfMonth]
    dsimp only
    rw [zero, january]
    exact ⟨rfl, rfl⟩
  have common : Imports.daysInMonth (Imports.utcYear 0) 2 = 28 ∧ Imports.daysInMonth 0 2 = 29 := by
    decide
  rw [monthly]
  refine ⟨⟨first.1, first.2, ?_⟩, first.1, first.2, ?_⟩
  · change min start.day (Imports.daysInMonth (Imports.utcYear (start.firstOfMonth 1).year)
      (start.firstOfMonth 1).month) = 28
    rw [first.1, first.2, common.1]
    omega
  · change min start.day (Imports.daysInMonth (start.firstOfMonth 1).year
      (start.firstOfMonth 1).month) = 29
    rw [first.1, first.2, common.2]
    omega

theorem leapZero_february (leap : LeapZero schedule.cadence start) :
    EndOfFebruaryZero (reckoned schedule.cadence start 1) ∧
      EndOfFebruaryZero (occurrence schedule.cadence start 1) := by
  obtain ⟨⟨year, month, day⟩, year', month', day'⟩ := leapZero_parts leap
  exact ⟨⟨year, month, day.ge⟩, year', month', by omega⟩

theorem eq_of_february (leap : LeapZero schedule.cadence start) {date : Insights.Date}
    (february : EndOfFebruaryZero date) :
    date = reckoned schedule.cadence start 1 ∨ date = occurrence schedule.cadence start 1 := by
  obtain ⟨⟨year, month, day⟩, year', month', day'⟩ := leapZero_parts leap
  have last := date.day_valid.2
  have common : Imports.daysInMonth 0 2 = 29 := by decide
  rw [february.1, february.2.1, common] at last
  rcases Nat.lt_or_eq_of_le last with less | same
  · have twenty_eight : date.day = 28 := by
      have low := february.2.2
      omega
    exact Or.inl (Insights.Date.ext_parts (february.1.trans year.symm)
      (february.2.1.trans month.symm) (twenty_eight.trans day.symm))
  · exact Or.inr (Insights.Date.ext_parts (february.1.trans year'.symm)
      (february.2.1.trans month'.symm) (same.trans day'.symm))

/-! ### Exactly the occurrences -/

/-- What is returned: without an exception, the occurrences of the window, in order. -/
def Exact (schedule : ScheduledTransaction) (start today : Insights.Date) (days : Nat) : Prop :=
  ∃ found, upcomingOccurrences schedule (text today) days = .ok found ∧
    (found.map (·.date)).Pairwise (· < ·) ∧
    ∀ value, value ∈ found.map (·.date) ↔ ∃ index,
      InWindow schedule today days (occurrence schedule.cadence start index) ∧
      value = text (occurrence schedule.cadence start index)

/-- No occurrence of the window is out of reach: past the turns of the loop, or before a horizon past
the year 9999. And none of them is reckoned wrong. -/
structure WithinReach (schedule : ScheduledTransaction) (start today : Insights.Date)
    (days : Nat) : Prop where
  turns : ∀ index, InWindow schedule today days (occurrence schedule.cadence start index) →
    index < maxIterations
  horizon : ∀ index, InWindow schedule today days (occurrence schedule.cadence start index) →
    (today.addDays days).year ≤ 9999
  leap : LeapZero schedule.cadence start → ∀ date, EndOfFebruaryZero date →
    ¬InWindow schedule today days date

/-- What is returned for an occurrence of the window, where everything is. -/
theorem Exact.near (exact_ : Exact schedule start today days) (live : schedule.archivedAt = none)
    (starts : Starts schedule start) (ends : EndsOnText schedule) (now : today.year ≤ 9999)
    {index : Nat}
    (within : InWindow schedule today days (occurrence schedule.cadence start index)) :
    index < maxIterations ∧ (today.addDays days).year ≤ 9999 ∧
      reckoned schedule.cadence start index = occurrence schedule.cadence start index := by
  obtain ⟨found, stored, -, dates⟩ := exact_
  have mem := (dates _).mpr ⟨index, within, rfl⟩
  have small : (today.addDays days).year ≤ 9999 := by
    by_contra far
    rw [upcoming_far live starts now (Nat.lt_of_not_le far)] at stored
    rw [← Except.ok.inj stored] at mem
    cases mem
  obtain ⟨found', stored', walked⟩ := upcoming_walked live starts ends small
  obtain rfl := Except.ok.inj (stored.symm.trans stored')
  obtain ⟨k, -, turns, within', same⟩ := (walked.dates _).mp mem
  have equal := (text_inj (within.year small) (within'.year small)).mp same
  obtain rfl := index_unique equal.symm
  exact ⟨by omega, small, equal.symm⟩

/-- The second occurrence from the end of January of the year 0 is not in the window as reckoned. -/
theorem Exact.not_february (exact_ : Exact schedule start today days)
    (live : schedule.archivedAt = none) (starts : Starts schedule start)
    (ends : EndsOnText schedule) (accepted : days ≤ 365) (leap : LeapZero schedule.cadence start) :
    ¬InWindow schedule today days (reckoned schedule.cadence start 1) := by
  intro within
  have small : (today.addDays days).year ≤ 9999 := by
    have then_ := Insights.Date.year_le_of_digits within.1.1
    have later := Insights.Date.year_addDays_le today (by omega : days ≤ 366)
    have zero := (leapZero_february leap).1.1
    omega
  obtain ⟨found, stored, -, dates⟩ := exact_
  obtain ⟨found', stored', walked⟩ := upcoming_walked live starts ends small
  obtain rfl := Except.ok.inj (stored.symm.trans stored')
  have mem := (walked.dates _).mpr ⟨1, Nat.zero_le _, by decide, within, rfl⟩
  obtain ⟨index, within', same⟩ := (dates _).mp mem
  have equal := (text_inj (within.year small) (within'.year small)).mp same
  obtain rfl := index_unique equal
  exact reckoned_eq_iff.mp equal ⟨leap, rfl⟩

theorem Exact.withinReach (exact_ : Exact schedule start today days)
    (live : schedule.archivedAt = none) (starts : Starts schedule start)
    (ends : EndsOnText schedule) (now : today.year ≤ 9999) (accepted : days ≤ 365) :
    WithinReach schedule start today days := by
  refine ⟨fun _ within => (exact_.near live starts ends now within).1,
    fun _ within => (exact_.near live starts ends now within).2.1, fun leap date february within => ?_⟩
  rcases eq_of_february leap february with rfl | rfl
  · exact exact_.not_february live starts ends accepted leap within
  · exact reckoned_eq_iff.mp (exact_.near live starts ends now within).2.2 ⟨leap, rfl⟩

theorem WithinReach.reckoned_eq (reach : WithinReach schedule start today days) {k : Nat}
    (within : InWindow schedule today days (reckoned schedule.cadence start k) ∨
      InWindow schedule today days (occurrence schedule.cadence start k)) :
    reckoned schedule.cadence start k = occurrence schedule.cadence start k := by
  by_contra other
  rw [reckoned_eq_iff, not_not] at other
  obtain ⟨leap, rfl⟩ := other
  obtain ⟨february, february'⟩ := leapZero_february leap
  exact within.elim (reach.leap leap _ february) (reach.leap leap _ february')

theorem WithinReach.exact (reach : WithinReach schedule start today days)
    (live : schedule.archivedAt = none) (starts : Starts schedule start)
    (ends : EndsOnText schedule) (now : today.year ≤ 9999) : Exact schedule start today days := by
  by_cases far : 9999 < (today.addDays days).year
  · refine ⟨[], upcoming_far live starts now far, List.Pairwise.nil, fun value => ?_⟩
    simp only [List.map_nil, List.not_mem_nil, false_iff]
    rintro ⟨index, within, -⟩
    exact absurd (reach.horizon index within) (Nat.not_le.mpr far)
  obtain ⟨found, stored, walked⟩ := upcoming_walked live starts ends (Nat.le_of_not_lt far)
  refine ⟨found, stored, walked.sorted, fun value => (walked.dates value).trans ?_⟩
  constructor
  · rintro ⟨k, -, -, within, same⟩
    have equal := reach.reckoned_eq (Or.inl within)
    rw [equal] at within same
    exact ⟨k, within, same⟩
  · rintro ⟨index, within, same⟩
    have turns := reach.turns index within
    have equal := reach.reckoned_eq (Or.inr within)
    rw [← equal] at within same
    exact ⟨index, Nat.zero_le _, by omega, within, same⟩

theorem exact_iff (live : schedule.archivedAt = none) (starts : Starts schedule start)
    (ends : EndsOnText schedule) (now : today.year ≤ 9999) (accepted : days ≤ 365) :
    Exact schedule start today days ↔ WithinReach schedule start today days :=
  ⟨fun exact_ => exact_.withinReach live starts ends now accepted,
    fun reach => reach.exact live starts ends now⟩

theorem endsOnText_of_accepted (accepted : validateSchedule schedule.input = []) :
    EndsOnText schedule := by
  intro end_ mem
  exact (((validateSchedule_iff _).mp accepted).endDate end_ mem).1

theorem start_open (accepted : validateSchedule schedule.input = []) :
    ¬Passed schedule schedule.startDate := by
  intro passed
  obtain ⟨end_, mem, after⟩ := (Option.any_eq_true _ _).mp passed
  exact (((validateSchedule_iff _).mp accepted).endDate end_ mem).2 schedule.startDate rfl
    (of_decide_eq_true after).2

/-- The start is returned as it is written, whether it is a date or not. -/
theorem start_returned (live : schedule.archivedAt = none)
    (accepted : validateSchedule schedule.input = []) {now horizon : IsoDate}
    (reached : addDaysIso now days = .ok horizon) (within : ¬horizon < schedule.startDate)
    (since : ¬schedule.startDate < now) {found : List Occurrence}
    (stored : upcomingOccurrences schedule now days = .ok found) :
    schedule.startDate ∈ found.map (·.date) := by
  have first : occurrenceAt schedule 0 = .ok schedule.startDate := if_pos rfl
  rw [upcomingOccurrences, if_neg (not_not.mpr live), reached] at stored
  change walk schedule now horizon (999 + 1) 0 = .ok found at stored
  obtain ⟨value, taken, stored⟩ := bind_ok stored
  obtain rfl := Except.ok.inj (first.symm.trans taken)
  have open_ : ¬schedule.endDate.any (fun endDate => endDate ≠ "" ∧ endDate < schedule.startDate) =
      true := start_open accepted
  dsimp only at stored
  rw [if_neg within, if_neg open_, if_neg since] at stored
  obtain ⟨daysUntil, -, stored⟩ := bind_ok stored
  obtain ⟨later, -, stored⟩ := bind_ok stored
  rw [← Except.ok.inj stored]
  exact List.mem_cons_self

/-- Every occurrence of the window is returned, and nothing else, just for the schedules that start on
a real date and have the window within reach. A start that is no date is returned as it is. -/
theorem upcoming_exact_iff {schedule : ScheduledTransaction} {today : Insights.Date} {days : Nat}
    (live : schedule.archivedAt = none) (accepted : validateSchedule schedule.input = [])
    (now : today.year ≤ 9999) (horizon : 1 ≤ days ∧ days ≤ 365) :
    ((∃ start, Starts schedule start ∧ Exact schedule start today days) ↔
      ∃ start, Starts schedule start ∧ WithinReach schedule start today days) ∧
    (¬text (today.addDays days) < schedule.startDate → ¬schedule.startDate < text today →
      ∀ found, upcomingOccurrences schedule (text today) days = .ok found →
        schedule.startDate ∈ found.map (·.date)) := by
  constructor
  · apply exists_congr
    intro start
    apply and_congr_right
    intro starts
    exact exact_iff live starts (endsOnText_of_accepted accepted) now horizon.2
  · intro within since found stored
    exact start_returned live accepted (addDaysIso_text now days) within since stored

theorem june_valid : 1 ≤ 6 ∧ 6 ≤ 12 := by
  decide

theorem firstOfJune_valid : 1 ≤ 1 ∧ 1 ≤ Imports.daysInMonth 2026 6 := by
  decide

def firstOfJune : Insights.Date := ⟨2026, 6, 1, june_valid, firstOfJune_valid⟩

/-- What is due at the end of every month of a year is found in June. -/
theorem rent_found_in_june :
    Exact (monthlyFrom "2026-01-31") (lastOfJanuary 2026) firstOfJune 30 := by
  have reach : WithinReach (monthlyFrom "2026-01-31") (lastOfJanuary 2026) firstOfJune 30 := by
    have small : (firstOfJune.addDays 30).year ≤ 9999 := by decide +kernel
    refine ⟨fun index within => ?_, fun _ _ => small, fun leap => absurd leap.2.1 (by decide)⟩
    have year := Insights.Date.year_le_of_digits within.2
    have months := Insights.Date.months_sameDay (lastOfJanuary 2026) (1 * index)
    have horizon : (firstOfJune.addDays 30).year = 2026 := by decide +kernel
    have begun : (lastOfJanuary 2026).months = 24312 := by decide
    rw [horizon] at year
    change ((lastOfJanuary 2026).sameDay (1 * index)).year ≤ 2026 at year
    have month := ((lastOfJanuary 2026).sameDay (1 * index)).month_valid
    rw [begun, Insights.Date.months] at months
    rw [maxIterations]
    omega
  obtain ⟨start, starts, exact_⟩ := (upcoming_exact_iff (by decide) (by decide +kernel)
    (by decide) (by decide)).1.mpr ⟨lastOfJanuary 2026, starts_lastOfJanuary, reach⟩
  have same := (text_inj starts.year (by decide)).mp
    (starts.startDate.symm.trans starts_lastOfJanuary.startDate)
  rw [← same]
  exact exact_

def weeklyFrom (startDate : IsoDate) : ScheduledTransaction :=
  { monthlyFrom startDate with cadence := .weekly }

theorem secondOfJanuary_valid : 1 ≤ 2 ∧ 2 ≤ Imports.daysInMonth 2006 1 := by
  decide

def secondOfJanuary : Insights.Date := ⟨2006, 1, 2, january_valid, secondOfJanuary_valid⟩

/-- What is due every week for more than a thousand weeks is found no more. -/
theorem not_every_occurrence_found :
    ¬∀ (schedule : ScheduledTransaction) (today : Insights.Date) (days : Nat),
      schedule.archivedAt = none → validateSchedule schedule.input = [] → today.year ≤ 9999 →
      1 ≤ days ∧ days ≤ 365 →
      ∃ start, Starts schedule start ∧ Exact schedule start today days := by
  intro all
  obtain ⟨start, starts, exact_⟩ := all (weeklyFrom "2006-01-02") firstOfJune 30 (by decide)
    (by decide) (by decide) (by decide)
  have begun : Starts (weeklyFrom "2006-01-02") secondOfJanuary := ⟨by decide, by decide⟩
  obtain rfl := (text_inj starts.year begun.year).mp
    (starts.startDate.symm.trans begun.startDate)
  have reach := (exact_iff (by decide) begun (endsOnText_of_accepted (by decide)) (by decide)
    (by decide)).mp exact_
  have today : occurrence .weekly secondOfJanuary 1065 = firstOfJune := by
    apply Insights.Date.eq_of_number
    rw [occurrence, if_pos (by decide), Insights.Date.number_addDays]
    decide
  have within : InWindow (weeklyFrom "2006-01-02") firstOfJune 30
      (occurrence .weekly secondOfJanuary 1065) := by
    rw [today]
    refine ⟨⟨Nat.le_refl _, fun end_ mem => by cases mem⟩, by decide +kernel⟩
  exact absurd (reach.turns 1065 within) (by decide)

end Finverse.Scheduled
