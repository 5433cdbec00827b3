import Finverse.Scheduled.Upcoming

/-! The next occurrence of a schedule as the least one from today on. -/

namespace Finverse.Scheduled

open Ledger (IsoDate)

variable {schedule : ScheduledTransaction} {start today : Insights.Date}

/-- The schedule starts on a real date and ends on one, if it ends. -/
structure RealDates (schedule : ScheduledTransaction) (start : Insights.Date) : Prop where
  starts : Starts schedule start
  ends : ∀ end_ ∈ schedule.endDate, ∃ date : Insights.Date, date.year ≤ 9999 ∧ end_ = text date

theorem RealDates.endsOnText (real : RealDates schedule start) : EndsOnText schedule := by
  intro end_ mem
  obtain ⟨date, small, rfl⟩ := real.ends end_ mem
  exact isIsoDate_text small

def LeastDue (schedule : ScheduledTransaction) (start today : Insights.Date) (index : Nat) : Prop :=
  Due schedule today (occurrence schedule.cadence start index) ∧
    ∀ earlier < index, ¬Due schedule today (occurrence schedule.cadence start earlier)

theorem exists_leastDue {index : Nat}
    (due : Due schedule today (occurrence schedule.cadence start index)) :
    ∃ least, LeastDue schedule start today least := by
  classical
  have some_ : ∃ index, Due schedule today (occurrence schedule.cadence start index) := ⟨index, due⟩
  exact ⟨Nat.find some_, Nat.find_spec some_, fun _ before => Nat.find_min some_ before⟩

theorem LeastDue.le {least index : Nat} (h : LeastDue schedule start today least)
    (due : Due schedule today (occurrence schedule.cadence start index)) : least ≤ index :=
  Nat.le_of_not_lt fun before => h.2 index before due

theorem LeastDue.unique {least least' : Nat} (h : LeastDue schedule start today least)
    (h' : LeastDue schedule start today least') : least = least' :=
  Nat.le_antisymm (h.le h'.1) (h'.le h.1)

/-! ### A year covers every cadence -/

theorem occurrence_zero : occurrence schedule.cadence start 0 = start := by
  rw [occurrence, Nat.mul_zero, Nat.mul_zero, Insights.Date.sameDay_zero]
  split
  · rfl
  · rfl

theorem occurrence_le {index later : Nat} (h : index ≤ later) :
    occurrence schedule.cadence start index ≤ occurrence schedule.cadence start later := by
  rw [occurrence, occurrence]
  split
  · rename_i days
    have step := Nat.mul_le_mul_left (DAYS_PER_CADENCE schedule.cadence) h
    rw [Insights.Date.le_iff_number, Insights.Date.number_addDays, Insights.Date.number_addDays]
    omega
  · exact Insights.Date.sameDay_le start (Nat.mul_le_mul_left _ h)

theorem number_occurrence_succ (index : Nat) :
    (occurrence schedule.cadence start (index + 1)).number ≤
      (occurrence schedule.cadence start index).number + 366 := by
  rw [occurrence, occurrence]
  split
  · have week : DAYS_PER_CADENCE schedule.cadence ≤ 14 := by
      cases schedule.cadence <;> decide
    rw [Insights.Date.number_addDays, Insights.Date.number_addDays, Nat.mul_add_one]
    omega
  · have year : MONTHS_PER_CADENCE schedule.cadence ≤ 12 := by
      cases schedule.cadence <;> decide
    have within : start.sameDay (MONTHS_PER_CADENCE schedule.cadence * (index + 1)) ≤
        start.sameDay (MONTHS_PER_CADENCE schedule.cadence * index + 12) := by
      apply Insights.Date.sameDay_le
      rw [Nat.mul_add_one]
      omega
    exact (Insights.Date.le_iff_number.mp within).trans (Insights.Date.number_sameDay_year start _)

/-- The least one due is less than a year from today, unless it is the first. -/
theorem LeastDue.within {index : Nat} (h : LeastDue schedule start today (index + 1)) :
    occurrence schedule.cadence start (index + 1) ≤ today.addDays 366 := by
  have before : occurrence schedule.cadence start index ≤ today := by
    rcases Insights.Date.le_total (occurrence schedule.cadence start index) today with
      before | after
    · exact before
    · refine absurd ⟨after, notAfter_of_le ?_ h.1.2⟩ (h.2 index (Nat.lt_succ_self index))
      exact occurrence_le (Nat.le_succ index)
  have gap := @number_occurrence_succ schedule start index
  have number := Insights.Date.le_iff_number.mp before
  rw [Insights.Date.le_iff_number, Insights.Date.number_addDays]
  omega

/-! ### What is returned -/

theorem head_le {values : List IsoDate} {value : IsoDate} (sorted : values.Pairwise (· < ·))
    (head : values.head? = some value) : ∀ other ∈ values, ¬other < value := by
  obtain ⟨rest, rfl⟩ := List.head?_eq_some_iff.mp head
  intro other mem
  rcases List.mem_cons.mp mem with rfl | later
  · exact lt_irrefl _
  · exact lt_asymm ((List.pairwise_cons.mp sorted).1 other later)

/-- The window of `nextOccurrence`. -/
def InYear (schedule : ScheduledTransaction) (today date : Insights.Date) : Prop :=
  InWindow schedule today 366 date

theorem nextOccurrence_walked (live : schedule.archivedAt = none) (starts : Starts schedule start)
    (ends : EndsOnText schedule) (small : (today.addDays 366).year ≤ 9999) :
    ∃ next, nextOccurrence schedule (text today) = .ok next ∧
      (∀ value ∈ next, ∃ index < maxIterations,
        InYear schedule today (reckoned schedule.cadence start index) ∧
        (∀ earlier < index, ¬InYear schedule today (reckoned schedule.cadence start earlier)) ∧
        value = text (reckoned schedule.cadence start index)) ∧
      (next = none → ∀ index < maxIterations,
        ¬InYear schedule today (reckoned schedule.cadence start index)) := by
  obtain ⟨found, stored, walked⟩ := upcoming_walked live starts ends small
  have year : ∀ {d : Insights.Date}, InYear schedule today d → d.year ≤ 9999 :=
    fun within => InWindow.year within small
  have mem : ∀ index < maxIterations, InYear schedule today (reckoned schedule.cadence start index) →
      text (reckoned schedule.cadence start index) ∈ found.map (·.date) := by
    intro index turns within
    exact (walked.dates _).mpr ⟨index, Nat.zero_le _, by omega, within, rfl⟩
  refine ⟨(found.map (·.date)).head?, ?_, ?_, ?_⟩
  · rw [nextOccurrence, stored, List.head?_map]
    rfl
  · intro value head
    obtain ⟨index, -, turns, within, rfl⟩ := (walked.dates value).mp (List.mem_of_mem_head? head)
    refine ⟨index, by omega, within, fun earlier before within' => ?_, rfl⟩
    refine head_le walked.sorted head _ (mem earlier (by omega) within') ?_
    exact (text_lt_iff (year within') (year within)).mpr (reckoned_lt before)
  · intro none_ index turns within
    have there := mem index turns within
    rw [List.head?_eq_none_iff.mp none_] at there
    cases there

theorem nextOccurrence_far (live : schedule.archivedAt = none) (starts : Starts schedule start)
    (now : today.year ≤ 9999) (far : 9999 < (today.addDays 366).year) :
    nextOccurrence schedule (text today) = .ok none := by
  rw [nextOccurrence, upcoming_far live starts now far]
  rfl

theorem nextOccurrence_archived (archived : schedule.archivedAt ≠ none) (now : IsoDate) :
    nextOccurrence schedule now = .ok none := by
  rw [nextOccurrence, upcomingOccurrences, if_pos archived]
  rfl

/-! ### The least one -/

/-- The least occurrence due is returned, and none just where there is none. -/
def NextIsLeast (schedule : ScheduledTransaction) (start today : Insights.Date) : Prop :=
  ∃ next, nextOccurrence schedule (text today) = .ok next ∧
    (∀ value ∈ next, ∃ index, LeastDue schedule start today index ∧
      value = text (occurrence schedule.cadence start index)) ∧
    (next = none → schedule.archivedAt ≠ none ∨
      ∀ index, ¬Due schedule today (occurrence schedule.cadence start index))

/-- What is due first is among the turns of the loop, and the start is no more than a year ahead, in a
year that is written with four digits. And it is not reckoned wrong. -/
structure InSight (schedule : ScheduledTransaction) (start today : Insights.Date) : Prop where
  turns : ∀ index, LeastDue schedule start today index → index < maxIterations
  near : ∀ index, LeastDue schedule start today index → start ≤ today.addDays 366
  horizon : ∀ index, LeastDue schedule start today index → (today.addDays 366).year ≤ 9999
  leap : LeapZero schedule.cadence start → ∀ date, EndOfFebruaryZero date →
    Due schedule today date → today ≤ start

theorem year_le_of_text {a b : Insights.Date} (small : b.year ≤ 9999) (same : text a = text b) :
    a.year ≤ 9999 := by
  by_contra big
  obtain ⟨cs, signed⟩ := text_toList_big (Nat.lt_of_not_le big)
  have sign : (text a).toList.head? = some '+' := by
    rw [signed]
    rfl
  exact lt_irrefl _ (same ▸ signed_lt sign (isIsoDate_text small))

theorem Due.start_le {date : Insights.Date} (due : Due schedule today date)
    (after : start ≤ date) (since : today ≤ start) : Due schedule today start :=
  ⟨since, notAfter_of_le after due.2⟩

theorem start_le_reckoned (index : Nat) : start ≤ reckoned schedule.cadence start index := by
  rcases Nat.eq_zero_or_pos index with rfl | later
  · exact Nat.le_refl _
  · exact Nat.le_of_lt (@reckoned_lt schedule start 0 index later)

theorem start_le_occurrence (index : Nat) : start ≤ occurrence schedule.cadence start index := by
  have first := @occurrence_le schedule start 0 index (Nat.zero_le index)
  rw [occurrence_zero] at first
  exact first

/-- What is due after a start before today is reckoned right. -/
theorem InSight.reckoned_eq (sight : InSight schedule start today)
    (before : ¬Due schedule today start) {index : Nat}
    (due : Due schedule today (reckoned schedule.cadence start index) ∨
      Due schedule today (occurrence schedule.cadence start index)) :
    reckoned schedule.cadence start index = occurrence schedule.cadence start index := by
  by_contra other
  rw [reckoned_eq_iff, not_not] at other
  obtain ⟨leap, rfl⟩ := other
  obtain ⟨february, february'⟩ := leapZero_february leap
  rcases due with due | due
  · exact before (due.start_le (start_le_reckoned 1) (sight.leap leap _ february due))
  · exact before (due.start_le (start_le_occurrence 1) (sight.leap leap _ february' due))

/-- What is due is due within the year, if it is the least. -/
theorem LeastDue.inYear {index : Nat} (least : LeastDue schedule start today index)
    (near : start ≤ today.addDays 366) :
    InYear schedule today (occurrence schedule.cadence start index) := by
  refine ⟨least.1, ?_⟩
  cases index with
  | zero =>
    rw [occurrence_zero]
    exact near
  | succ index => exact least.within

theorem InSight.isLeast (sight : InSight schedule start today) (live : schedule.archivedAt = none)
    (real : RealDates schedule start) (now : today.year ≤ 9999) :
    NextIsLeast schedule start today := by
  by_cases far : 9999 < (today.addDays 366).year
  · refine ⟨none, nextOccurrence_far live real.starts now far, ?_, fun _ => Or.inr fun index due => ?_⟩
    · intro value head
      cases head
    obtain ⟨least, isLeast⟩ := exists_leastDue due
    exact absurd (sight.horizon least isLeast) (Nat.not_le.mpr far)
  obtain ⟨next, stored, found, none_⟩ :=
    nextOccurrence_walked live real.starts real.endsOnText (Nat.le_of_not_lt far)
  refine ⟨next, stored, ?_, ?_⟩
  · intro value head
    obtain ⟨index, -, within, first, rfl⟩ := found value head
    by_cases due : Due schedule today start
    · have least : LeastDue schedule start today 0 := by
        refine ⟨?_, fun earlier before => absurd before (Nat.not_lt_zero _)⟩
        rw [occurrence_zero]
        exact due
      have zero : index = 0 := by
        by_contra later
        exact first 0 (Nat.pos_of_ne_zero later) ⟨due, sight.near 0 least⟩
      refine ⟨0, least, ?_⟩
      rw [zero, occurrence_zero]
      rfl
    · have right := sight.reckoned_eq due (Or.inl within.1)
      refine ⟨index, ⟨right ▸ within.1, fun earlier before due' => ?_⟩, congrArg text right⟩
      have right' := sight.reckoned_eq due (Or.inr due')
      refine first earlier before (right'.symm ▸ ⟨due', ?_⟩)
      exact Insights.Date.le_trans (occurrence_le (Nat.le_of_lt before)) (right ▸ within.2)
  · intro empty
    refine Or.inr fun index due => ?_
    obtain ⟨least, isLeast⟩ := exists_leastDue due
    have within := isLeast.inYear (sight.near least isLeast)
    have turns := sight.turns least isLeast
    by_cases due' : Due schedule today start
    · exact none_ empty 0 (by decide) ⟨due', sight.near least isLeast⟩
    · refine none_ empty least turns ?_
      rw [sight.reckoned_eq due' (Or.inr isLeast.1)]
      exact within

/-- What is due first is found among the turns, where the least is returned. -/
theorem NextIsLeast.found (h : NextIsLeast schedule start today) (live : schedule.archivedAt = none)
    (real : RealDates schedule start) (now : today.year ≤ 9999) {index : Nat}
    (least : LeastDue schedule start today index) :
    (today.addDays 366).year ≤ 9999 ∧ index < maxIterations ∧
      reckoned schedule.cadence start index = occurrence schedule.cadence start index ∧
      InYear schedule today (occurrence schedule.cadence start index) := by
  obtain ⟨next, stored, value_, none_⟩ := h
  have some_ : next ≠ none := by
    intro empty
    rcases none_ empty with archived | nothing
    · exact archived live
    · exact nothing index least.1
  obtain ⟨value, rfl⟩ := Option.ne_none_iff_exists'.mp some_
  have small : (today.addDays 366).year ≤ 9999 := by
    by_contra far
    rw [nextOccurrence_far live real.starts now (Nat.lt_of_not_le far)] at stored
    cases stored
  obtain ⟨next, stored', found, -⟩ :=
    nextOccurrence_walked live real.starts real.endsOnText small
  obtain rfl := Except.ok.inj (stored.symm.trans stored')
  obtain ⟨index', least', same⟩ := value_ value rfl
  obtain rfl := least'.unique least
  obtain ⟨k, turns, within, -, same'⟩ := found value rfl
  have small' := InWindow.year within small
  have equal := (text_inj (year_le_of_text small' (same.symm.trans same')) small').mp
    (same.symm.trans same')
  obtain rfl := index_unique equal.symm
  rw [equal]
  exact ⟨small, turns, rfl, within⟩

/-- The second occurrence from the end of January of the year 0 is not returned as it is reckoned. -/
theorem NextIsLeast.not_february (h : NextIsLeast schedule start today)
    (live : schedule.archivedAt = none) (real : RealDates schedule start)
    (leap : LeapZero schedule.cadence start) (since : ¬today ≤ start) :
    ¬Due schedule today (reckoned schedule.cadence start 1) := by
  intro due
  have second : (occurrence schedule.cadence start 1).number ≤
      (occurrence schedule.cadence start 0).number + 366 := number_occurrence_succ 0
  have before := Insights.Date.number_lt (Nat.lt_of_not_le since)
  obtain ⟨⟨year, month, day⟩, year', month', day'⟩ := leapZero_parts leap
  have order : (reckoned schedule.cadence start 1).digits ≤
      (occurrence schedule.cadence start 1).digits := by
    rw [Insights.Date.digits, Insights.Date.digits, year, month, day, year', month', day']
    decide
  have within : InYear schedule today (reckoned schedule.cadence start 1) := by
    refine ⟨due, Insights.Date.le_trans order ?_⟩
    rw [occurrence_zero] at second
    rw [Insights.Date.le_iff_number, Insights.Date.number_addDays]
    omega
  have small : (today.addDays 366).year ≤ 9999 := by
    have zero := Insights.Date.year_le_of_digits due.1
    have later := Insights.Date.year_addDays_le today (Nat.le_refl 366)
    omega
  obtain ⟨next, stored, value_, -⟩ := h
  obtain ⟨next, stored', found, none_⟩ :=
    nextOccurrence_walked live real.starts real.endsOnText small
  obtain rfl := Except.ok.inj (stored.symm.trans stored')
  have some_ : next ≠ none := fun empty => none_ empty 1 (by decide) within
  obtain ⟨value, rfl⟩ := Option.ne_none_iff_exists'.mp some_
  obtain ⟨k, -, within', first, rfl⟩ := found value rfl
  have one : k = 1 := by
    rcases Nat.lt_trichotomy k 1 with zero | one | later
    · rw [Nat.lt_one_iff.mp zero] at within'
      exact absurd within'.1.1 since
    · exact one
    · exact absurd within (first 1 later)
  obtain ⟨index, -, same⟩ := value_ _ rfl
  have small' := InWindow.year within' small
  have equal := (text_inj small' (year_le_of_text small' same.symm)).mp same
  obtain rfl := index_unique equal
  exact reckoned_eq_iff.mp equal ⟨leap, one⟩

theorem NextIsLeast.inSight (h : NextIsLeast schedule start today) (live : schedule.archivedAt = none)
    (real : RealDates schedule start) (now : today.year ≤ 9999) : InSight schedule start today := by
  refine ⟨fun _ least => (h.found live real now least).2.1, fun index least => ?_,
    fun _ least => (h.found live real now least).1, fun leap date february due => ?_⟩
  · exact Insights.Date.le_trans (start_le_occurrence index)
      (h.found live real now least).2.2.2.2
  · by_contra since
    rcases eq_of_february leap february with rfl | rfl
    · exact h.not_february live real leap since due
    · have least : LeastDue schedule start today 1 := by
        refine ⟨due, fun earlier before => ?_⟩
        rw [Nat.lt_one_iff.mp before, occurrence_zero]
        exact fun due' => since due'.1
      exact reckoned_eq_iff.mp (h.found live real now least).2.2.1 ⟨leap, rfl⟩

/-- The least occurrence from today on is the next one, of a live schedule just where it is in sight. -/
theorem next_least_iff {schedule : ScheduledTransaction} {start today : Insights.Date}
    (real : RealDates schedule start) (now : today.year ≤ 9999) :
    NextIsLeast schedule start today ↔
      schedule.archivedAt ≠ none ∨ InSight schedule start today := by
  by_cases live : schedule.archivedAt = none
  · constructor
    · exact fun least => Or.inr (least.inSight live real now)
    · rintro (archived | sight)
      · exact absurd live archived
      · exact sight.isLeast live real now
  · refine iff_of_true ⟨none, nextOccurrence_archived live _, ?_, fun _ => Or.inl live⟩ (Or.inl live)
    intro value head
    cases head

/-- In June what is due at the end of every month is due at the end of June. -/
theorem rent_next_in_june :
    NextIsLeast (monthlyFrom "2026-01-31") (lastOfJanuary 2026) firstOfJune := by
  have due : Due (monthlyFrom "2026-01-31") firstOfJune
      (occurrence .monthly (lastOfJanuary 2026) 5) := by
    refine ⟨by decide +kernel, fun end_ mem => ?_⟩
    cases mem
  have early : ∀ index, LeastDue (monthlyFrom "2026-01-31") (lastOfJanuary 2026) firstOfJune index →
      index ≤ 5 := fun index least => least.le due
  refine (next_least_iff ⟨starts_lastOfJanuary, fun end_ mem => ?_⟩ (by decide)).mpr (Or.inr ?_)
  · cases mem
  · exact ⟨fun index least => (early index least).trans_lt (by decide),
      fun _ _ => by decide +kernel, fun _ _ => by decide +kernel,
      fun leap => absurd leap.2.1 (by decide)⟩

/-- What starts more than a year from now has no next occurrence. -/
theorem not_every_next_least :
    ¬∀ (schedule : ScheduledTransaction) (start today : Insights.Date), RealDates schedule start →
      today.year ≤ 9999 → NextIsLeast schedule start today := by
  intro all
  have starts : Starts (monthlyFrom "2028-01-31") (lastOfJanuary 2028) := ⟨by decide, by decide⟩
  have real : RealDates (monthlyFrom "2028-01-31") (lastOfJanuary 2028) := by
    refine ⟨starts, fun end_ mem => ?_⟩
    cases mem
  have least : LeastDue (monthlyFrom "2028-01-31") (lastOfJanuary 2028) firstOfJune 0 := by
    refine ⟨⟨by decide, fun end_ mem => ?_⟩, fun earlier before => absurd before (Nat.not_lt_zero _)⟩
    cases mem
  have sight := (all _ _ firstOfJune real (by decide)).inSight rfl real (by decide)
  exact absurd (sight.near 0 least) (by decide +kernel)

end Finverse.Scheduled
