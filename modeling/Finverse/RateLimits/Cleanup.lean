import Finverse.RateLimits.Storage
import Mathlib.Data.List.Induction
import Mathlib.Tactic.NormNum

/-! The cleanup of old rows: nobody is answered otherwise because of it. -/

namespace Finverse.RateLimits

/-- The events come in the order of the database's clock. -/
structure Timely (events : List Event) : Prop where
  order : events.Pairwise fun event later => event.time ≤ later.time
  locked : ∀ inst call, Event.increment inst call ∈ events → call.insertedAt ≤ call.databaseNow

def Event.isIncrement : Event → Bool
  | .increment _ _ => true
  | .cleanup _ => false

theorem run_concat (events : List Event) (event : Event) : run (events ++ [event]) = step (run events) event := by
  rw [run, List.foldl_append]
  rfl

theorem Timely.front {events : List Event} {event : Event} (timely : Timely (events ++ [event])) :
    Timely events ∧ (∀ earlier ∈ events, earlier.time ≤ event.time) ∧
      ∀ inst call, event = .increment inst call → call.insertedAt ≤ call.databaseNow := by
  obtain ⟨order, -, before⟩ := List.pairwise_append.mp timely.order
  refine ⟨⟨order, ?_⟩, ?_, ?_⟩
  · intro inst call listed
    exact timely.locked inst call (List.mem_append_left _ listed)
  · intro earlier listed
    exact before earlier listed event (List.mem_singleton.mpr rfl)
  · intro inst call same
    exact timely.locked inst call (by simp [same])

theorem Timely.exists_clock {events : List Event} (timely : Timely events) :
    ∃ clock, ∀ event ∈ events, event.time ≤ clock := by
  cases events using List.reverseRecOn with
  | nil => exact ⟨0, by simp⟩
  | append_singleton events event =>
    refine ⟨event.time, ?_⟩
    intro event' listed
    rcases List.mem_append.mp listed with earlier | last
    · exact timely.front.2.1 event' earlier
    · rw [List.mem_singleton.mp last]

theorem Timely.filter {events : List Event} (timely : Timely events) : Timely (events.filter Event.isIncrement) where
  order := timely.order.filter Event.isIncrement
  locked := fun inst call listed => timely.locked inst call (List.mem_of_mem_filter listed)

theorem getTime_mono {time later : Rat} (order : time ≤ later) : getTime time ≤ getTime later := Int.floor_mono order

/-! ### Rows that count for nothing any more -/

/-- The window and the block of a row are over. -/
structure Stale (bucket : BucketRow) (clock : Rat) : Prop where
  window : getTime bucket.windowExpiresAt ≤ getTime clock
  block : ∀ time ∈ bucket.blockedUntil, getTime time ≤ getTime clock

variable {bucket bucket' : BucketRow} {clock later : Rat} {now : Int}

theorem Stale.mono (stale : Stale bucket clock) (order : clock ≤ later) : Stale bucket later where
  window := stale.window.trans (getTime_mono order)
  block := fun time there => (stale.block time there).trans (getTime_mono order)

theorem Stale.reset (stale : Stale bucket clock) :
    bucket.blocked (getTime clock) = false ∧ bucket.reset (getTime clock) = true := by
  constructor
  · rw [BucketRow.blocked]
    cases until_ : bucket.blockedUntil with
    | none => rfl
    | some time =>
      have ended := stale.block time until_
      simpa using ended
  · simp [BucketRow.reset, stale.window]

/-- A row that has been over for a day is stale. -/
theorem stale_of_old (old : bucket.windowExpiresAt < clock - DAY ∧ ∀ time ∈ bucket.blockedUntil, time < clock - DAY) :
    Stale bucket clock := by
  have day : 0 ≤ DAY := by norm_num [DAY]
  have before : clock - DAY ≤ clock := sub_le_self clock day
  refine ⟨getTime_mono (old.1.le.trans before), ?_⟩
  intro time there
  exact getTime_mono ((old.2 time there).le.trans before)

/-- Rows that start a new window are the same to a call. -/
theorem hit_of_reset (limits : Limits) (free : bucket.blocked now = false) (reset : bucket.reset now = true)
    (free' : bucket'.blocked now = false) (reset' : bucket'.reset now = true) :
    bucket.hit limits now = bucket'.hit limits now := by
  simp [BucketRow.hit, free, reset, free', reset']

/-- Two tables that differ in rows that are stale and not there. -/
def Alike (clock : Rat) (cleaned buckets : Buckets) : Prop :=
  ∀ id, cleaned id = buckets id ∨ cleaned id = none ∧ ∃ bucket, buckets id = some bucket ∧ Stale bucket clock

variable {cleaned buckets : Buckets} {call : Call}

theorem Alike.mono (alike : Alike clock cleaned buckets) (order : clock ≤ later) : Alike later cleaned buckets := by
  intro id
  rcases alike id with same | ⟨gone, bucket, there, stale⟩
  · exact .inl same
  · exact .inr ⟨gone, bucket, there, stale.mono order⟩

theorem Alike.cleanup (alike : Alike clock cleaned buckets) :
    Alike clock (RateLimits.cleanup cleaned clock) buckets := by
  intro id
  rcases alike id with same | ⟨gone, bucket, there, stale⟩
  · rw [RateLimits.cleanup]
    cases row : cleaned id with
    | none => exact .inl (by rw [← same, row]; rfl)
    | some bucket =>
      rw [Option.filter_some]
      split
      · exact .inl (by rw [← same, row])
      · next old =>
        simp only [Bool.not_eq_true', Bool.not_eq_false, Bool.and_eq_true, decide_eq_true_eq, Option.all_eq_true]
          at old
        exact .inr ⟨rfl, bucket, by rw [← same, row], stale_of_old old⟩
  · exact .inr ⟨by rw [RateLimits.cleanup, gone]; rfl, bucket, there, stale⟩

/-- A call finds rows that differ in nothing it looks at. -/
theorem Alike.row (alike : Alike call.databaseNow cleaned buckets) (locked : call.insertedAt ≤ call.databaseNow)
    (limits : Limits) :
    (call.bucket cleaned).hit limits (getTime call.databaseNow) =
        (call.bucket buckets).hit limits (getTime call.databaseNow) ∧
      (call.bucket cleaned).blocked (getTime call.databaseNow) =
        (call.bucket buckets).blocked (getTime call.databaseNow) ∧
      (call.bucket cleaned).reset (getTime call.databaseNow) =
        (call.bucket buckets).reset (getTime call.databaseNow) := by
  rcases alike call.id with same | ⟨gone, bucket, there, stale⟩
  · simp only [Call.bucket, same, and_self]
  · have fresh : Stale ⟨0, call.insertedAt, none⟩ call.databaseNow := ⟨getTime_mono locked, by simp⟩
    obtain ⟨free, reset⟩ := fresh.reset
    obtain ⟨free', reset'⟩ := stale.reset
    simp only [Call.bucket, gone, there, Option.getD_none, Option.getD_some]
    exact ⟨hit_of_reset limits free reset free' reset', by rw [free, free'], by rw [reset, reset']⟩

theorem Alike.update (alike : Alike clock cleaned buckets) (id : BucketId) (row : Option BucketRow) :
    Alike clock (Function.update cleaned id row) (Function.update buckets id row) := by
  intro id'
  by_cases same : id' = id
  · exact .inl (by rw [same, Function.update_self, Function.update_self])
  · rw [Function.update_of_ne same, Function.update_of_ne same]
    exact alike id'

/-! ### Runs -/

variable {s s' : System} {journal : List Entry}

theorem Alike.increment (alike : Alike call.databaseNow s.buckets s'.buckets)
    (locked : call.insertedAt ≤ call.databaseNow) (inst : Nat) :
    (RateLimits.increment s inst call).2 = (RateLimits.increment s' inst call).2 ∧
      Alike call.databaseNow (RateLimits.increment s inst call).1.buckets
        (RateLimits.increment s' inst call).1.buckets := by
  unfold RateLimits.increment RateLimits.record
  cases checkParameters call.key call.throttlerName call.parameters with
  | error message => exact ⟨rfl, alike⟩
  | ok limits =>
    obtain ⟨hit, blocked, reset⟩ := alike.row locked limits
    dsimp only
    rw [hit, blocked, reset]
    cases (call.bucket s'.buckets).hit limits (getTime call.databaseNow) with
    | none => exact ⟨rfl, alike⟩
    | some result =>
      obtain ⟨answer, bucket⟩ := result
      exact ⟨rfl, alike.update call.id (some bucket)⟩

theorem run_cleanup {events : List Event} (timely : Timely events) (clock : Rat)
    (past : ∀ event ∈ events, event.time ≤ clock) :
    (run events).2 = (run (events.filter Event.isIncrement)).2 ∧
      Alike clock (run events).1.buckets (run (events.filter Event.isIncrement)).1.buckets := by
  induction events using List.reverseRecOn generalizing clock with
  | nil => exact ⟨rfl, fun _ => .inl rfl⟩
  | append_singleton events event ih =>
    obtain ⟨front, before, locked⟩ := timely.front
    obtain ⟨journal, alike⟩ := ih front event.time before
    have last : event.time ≤ clock := past event (by simp)
    rw [List.filter_append, run_concat]
    cases event with
    | increment inst call =>
      obtain ⟨entry, rows⟩ := alike.increment (locked inst call rfl) inst
      rw [List.filter_cons_of_pos (by rfl), List.filter_nil, run_concat]
      exact ⟨congrArg₂ List.cons entry journal, rows.mono last⟩
    | cleanup time =>
      rw [List.filter_cons_of_neg (by simp [Event.isIncrement]), List.filter_nil, List.append_nil]
      generalize run events = result at journal alike
      obtain ⟨s, entries⟩ := result
      rw [step]
      split
      · exact ⟨journal, alike.mono last⟩
      · exact ⟨journal, alike.cleanup.mono last⟩

end Finverse.RateLimits
