import Finverse.Framework.Windows
import Finverse.RateLimits.Cleanup
import Mathlib.Tactic.Linarith

/-! How many calls pass in any interval that is as long as a window. -/

namespace Finverse.RateLimits

open Windows (inInterval inWindow)

/-! ### The calls that pass, by windows -/

def Entry.passed (entry : Entry) : Bool :=
  match entry.answer with
  | .ok answer => !answer.isBlocked
  | .error _ => false

/-- The windows that have been started. -/
def windows (id : BucketId) (journal : List Entry) : Nat :=
  journal.countP fun entry => entry.id = id ∧ entry.reset

/-- When the calls that were not blocked came, and in which window. -/
def passes (id : BucketId) : List Entry → List (Rat × Nat)
  | [] => []
  | entry :: past =>
    if entry.id = id ∧ entry.passed then (entry.time, windows id (entry :: past)) :: passes id past
    else passes id past

/-! ### Dates -/

variable {now : Int} {ms : Rat} {time : Int}

/-- A date that is so many milliseconds on, is so many whole ones on at least. -/
theorem newDate_least (h : newDate (now + ms) = some time) : now + ⌊ms⌋ ≤ time := by
  have whole : ⌊(now + ms : Rat)⌋ = now + ⌊ms⌋ := Int.floor_intCast_add now ms
  have up := Int.floor_le_ceil (now + ms : Rat)
  simp only [newDate, Option.ite_none_right_eq_some, Option.some.injEq] at h
  obtain ⟨-, rfl⟩ := h
  split <;> omega

theorem getTime_intCast (time : Int) : getTime (time : Rat) = time := Int.floor_intCast time

/-! ### What the row says about the calls so far -/

namespace BucketRow

/-- No window is started before this time. -/
def deadline (bucket : BucketRow) : Int := getTime (bucket.blockedUntil.getD bucket.windowExpiresAt)

variable {bucket : BucketRow}

theorem deadline_le_of_reset (free : bucket.blocked now = false) (reset : bucket.reset now = true) :
    bucket.deadline ≤ now := by
  unfold blocked at free
  unfold BucketRow.reset at reset
  unfold deadline
  cases until_ : bucket.blockedUntil with
  | none => simpa [until_] using reset
  | some time => simpa [until_] using free

theorem not_reset (free : bucket.blocked now = false) (kept : bucket.reset now = false) :
    bucket.blockedUntil = none ∧ now < bucket.deadline ∧ bucket.deadline = getTime bucket.windowExpiresAt := by
  unfold blocked at free
  unfold BucketRow.reset at kept
  unfold deadline
  cases until_ : bucket.blockedUntil with
  | none => simpa [until_] using kept
  | some time =>
    simp [until_] at free kept
    omega

/-- What a call can do with a row. -/
theorem hit_cases {limits : Limits} {answer : ThrottlerStorageRecord} {bucket' : BucketRow}
    (h : bucket.hit limits now = some (answer, bucket')) :
    (bucket.blocked now = true ∧ answer.isBlocked = true ∧ bucket' = bucket) ∨
    bucket.blocked now = false ∧ ∃ (hits : Int) (expiry : Int),
      (bucket.reset now = true ∧ hits = 1 ∧ newDate (now + limits.ttl) = some expiry ∨
        bucket.reset now = false ∧ hits = bucket.totalHits + 1 ∧ expiry = getTime bucket.windowExpiresAt) ∧
      (limits.limit < hits ∧ answer.isBlocked = true ∧
          (∃ time : Int, newDate (now + limits.blockDuration) = some time ∧
            bucket' = ⟨hits, expiry, some time⟩) ∨
        hits ≤ limits.limit ∧ answer.isBlocked = false ∧ bucket' = ⟨hits, expiry, none⟩) := by
  unfold hit at h
  by_cases blocked : bucket.blocked now = true
  · rw [if_pos blocked] at h
    obtain ⟨rfl, rfl⟩ := Prod.mk.inj (Option.some.inj h)
    exact .inl ⟨blocked, rfl, rfl⟩
  · rw [if_neg blocked] at h
    refine .inr ⟨by simpa using blocked, ?_⟩
    obtain ⟨expiry, dated, rest⟩ := Option.bind_eq_some_iff.mp h
    generalize counted : (if bucket.reset now = true then 1 else bucket.totalHits + 1) = hits at rest
    refine ⟨hits, expiry, ?_, ?_⟩
    · by_cases reset : bucket.reset now = true
      · rw [if_pos reset] at dated counted
        exact .inl ⟨reset, counted.symm, dated⟩
      · rw [if_neg reset] at dated counted
        exact .inr ⟨by simpa using reset, counted.symm, (Option.some.inj dated).symm⟩
    · split at rest
      · next exceeded =>
        obtain ⟨time, dated', last⟩ := Option.map_eq_some_iff.mp rest
        obtain ⟨rfl, rfl⟩ := Prod.mk.inj last
        exact .inl ⟨exceeded, rfl, time, dated', rfl⟩
      · next within =>
        obtain ⟨rfl, rfl⟩ := Prod.mk.inj (Option.some.inj rest)
        exact .inr ⟨not_lt.mp within, rfl, rfl⟩

end BucketRow

/-! ### The invariant -/

/-- Where a call that passed stands: in the current window, in the one before, or in an older one. -/
structure Placed (pace gap : Int) (hit : Rat × Nat) (count : Nat) (opened deadline clock : Int) : Prop where
  number : hit.2 ≤ count
  time : getTime hit.1 ≤ clock
  current : hit.2 = count → getTime hit.1 + gap ≤ deadline
  previous : hit.2 + 1 = count → getTime hit.1 + gap ≤ opened
  older : hit.2 + 2 ≤ count → getTime hit.1 + gap + pace ≤ opened

/-- The current window was opened at `opened`. The next one cannot be before `pace` from then, nor
before `gap` from any call that has passed in this one. -/
structure Counted (id : BucketId) (limit : Nat) (pace gap : Int) (bucket : BucketRow) (opened : Int)
    (journal : List Entry) (clock : Int) : Prop where
  opened_le : opened ≤ clock
  paced : opened + pace ≤ bucket.deadline
  few : ∀ window, inWindow (passes id journal) window ≤ limit
  counted : (inWindow (passes id journal) (windows id journal) : Int) ≤ bucket.totalHits
  fresh : bucket.totalHits ≤ 0 → bucket.deadline ≤ clock
  placed : ∀ hit ∈ passes id journal, Placed pace gap hit (windows id journal) opened bucket.deadline clock
  apart : ∀ hit ∈ passes id journal, ∀ later ∈ passes id journal, hit.2 + 2 ≤ later.2 →
    getTime hit.1 + gap + pace ≤ getTime later.1

section Journal

variable {id : BucketId} {entry : Entry} {past : List Entry}

/-- An entry that counts for nothing. -/
theorem skipped (silent : entry.id ≠ id ∨ entry.passed = false ∧ entry.reset = false) (past : List Entry) :
    passes id (entry :: past) = passes id past ∧ windows id (entry :: past) = windows id past := by
  rcases silent with other | ⟨stopped, kept⟩
  · exact ⟨by simp [passes, other], by simp [windows, other]⟩
  · exact ⟨by simp [passes, stopped], by simp [windows, kept]⟩

theorem windows_own (own : entry.id = id) :
    windows id (entry :: past) = if entry.reset = true then windows id past + 1 else windows id past := by
  by_cases reset : entry.reset = true
  · rw [if_pos reset, windows, List.countP_cons_of_pos (by simp [own, reset])]
    rfl
  · rw [if_neg reset, windows, List.countP_cons_of_neg (by simp [reset])]
    rfl

theorem passes_own (own : entry.id = id) (passed : entry.passed = true) :
    passes id (entry :: past) = (entry.time, windows id (entry :: past)) :: passes id past := by
  rw [passes, if_pos ⟨own, passed⟩]

theorem inWindow_cons (hit : Rat × Nat) (hits : List (Rat × Nat)) (window : Nat) :
    inWindow (hit :: hits) window = if hit.2 = window then inWindow hits window + 1 else inWindow hits window := by
  by_cases same : hit.2 = window
  · rw [if_pos same, inWindow, List.countP_cons_of_pos (by simpa using same)]
    rfl
  · rw [if_neg same, inWindow, List.countP_cons_of_neg (by simpa using same)]
    rfl

end Journal

section Step

variable {id : BucketId} {limit : Nat} {pace gap opened clock now : Int} {bucket bucket' : BucketRow}
  {journal : List Entry} {entry : Entry}

theorem Placed.later {hit : Rat × Nat} {count : Nat} {deadline : Int}
    (placed : Placed pace gap hit count opened deadline clock) (order : clock ≤ now) :
    Placed pace gap hit count opened deadline now :=
  ⟨placed.number, placed.time.trans order, placed.current, placed.previous, placed.older⟩

theorem Counted.later (counted : Counted id limit pace gap bucket opened journal clock) (order : clock ≤ now) :
    Counted id limit pace gap bucket opened journal now :=
  ⟨counted.opened_le.trans order, counted.paced, counted.few, counted.counted,
    fun none_yet => (counted.fresh none_yet).trans order,
    fun hit listed => (counted.placed hit listed).later order, counted.apart⟩

/-- A call of another row, or one that is not let through and starts no window. -/
theorem Counted.skip (counted : Counted id limit pace gap bucket opened journal clock)
    (silent : entry.id ≠ id ∨ entry.passed = false ∧ entry.reset = false) :
    Counted id limit pace gap bucket opened (entry :: journal) clock := by
  obtain ⟨same, same'⟩ := skipped silent journal
  obtain ⟨opened_le, paced, few, counted, fresh, placed, apart⟩ := counted
  rw [← same] at few counted placed apart
  rw [← same'] at counted placed
  exact ⟨opened_le, paced, few, counted, fresh, placed, apart⟩

/-- A call beyond the limit puts the next window off. -/
theorem Counted.exceeded {expiry : Rat} {time : Int} (counted : Counted id limit pace gap bucket opened journal now)
    (short : gap ≤ pace) (begun : 1 ≤ bucket.totalHits) (block : now + pace ≤ time) :
    Counted id limit pace gap ⟨bucket.totalHits + 1, expiry, some time⟩ opened journal now := by
  have deadline : (⟨bucket.totalHits + 1, expiry, some time⟩ : BucketRow).deadline = time := getTime_intCast time
  have opened_le := counted.opened_le
  refine ⟨opened_le, by omega, counted.few, ?_, ?_, ?_, counted.apart⟩
  · have old := counted.counted
    dsimp only
    omega
  · intro none_yet
    dsimp only at none_yet
    omega
  · intro hit listed
    have placed := counted.placed hit listed
    have time_le := placed.time
    exact ⟨placed.number, time_le, fun _ => by omega, placed.previous, placed.older⟩

/-- The windows' hits stay apart if a hit is added that is in the last window or in a new one. -/
theorem apart_cons {hits : List (Rat × Nat)} {time : Rat} {count : Nat}
    (apart : ∀ hit ∈ hits, ∀ later ∈ hits, hit.2 + 2 ≤ later.2 → getTime hit.1 + gap + pace ≤ getTime later.1)
    (numbers : ∀ hit ∈ hits, hit.2 ≤ count)
    (last : ∀ hit ∈ hits, hit.2 + 2 ≤ count → getTime hit.1 + gap + pace ≤ getTime time) :
    ∀ hit ∈ (time, count) :: hits, ∀ later ∈ (time, count) :: hits, hit.2 + 2 ≤ later.2 →
      getTime hit.1 + gap + pace ≤ getTime later.1 := by
  intro hit listed later listed' far
  rcases List.mem_cons.mp listed with rfl | listed
  · rcases List.mem_cons.mp listed' with rfl | listed'
    · omega
    · have number := numbers later listed'
      dsimp only at far
      omega
  · rcases List.mem_cons.mp listed' with rfl | listed'
    · exact last hit listed far
    · exact apart hit listed later listed' far

/-- A call in a window that goes on. -/
theorem Counted.pass {expiry : Int} (counted : Counted id limit pace gap bucket opened journal now)
    (own : entry.id = id) (passed : entry.passed = true) (kept : entry.reset = false)
    (time : getTime entry.time = now) (begun : 1 ≤ bucket.totalHits) (within : bucket.totalHits + 1 ≤ limit)
    (room : now + gap ≤ bucket.deadline) (deadline : bucket.deadline = expiry) :
    Counted id limit pace gap ⟨bucket.totalHits + 1, expiry, none⟩ opened (entry :: journal) now := by
  have same : windows id (entry :: journal) = windows id journal := by
    rw [windows_own own, if_neg (by rw [kept]; exact Bool.false_ne_true)]
  have passes_eq : passes id (entry :: journal) = (entry.time, windows id journal) :: passes id journal := by
    rw [passes_own own passed, same]
  have deadline' : (⟨bucket.totalHits + 1, expiry, none⟩ : BucketRow).deadline = bucket.deadline := by
    rw [deadline]
    exact getTime_intCast expiry
  have old := counted.counted
  have opened_le := counted.opened_le
  refine ⟨opened_le, by rw [deadline']; exact counted.paced, ?_, ?_, ?_, ?_, ?_⟩
  · intro window
    rw [passes_eq, inWindow_cons]
    have few := counted.few window
    split
    · next current =>
      dsimp only at current
      rw [current] at old
      omega
    · exact few
  · rw [passes_eq, same, inWindow_cons, if_pos rfl]
    dsimp only
    omega
  · intro none_yet
    dsimp only at none_yet
    omega
  · rw [passes_eq, same, deadline']
    refine List.forall_mem_cons.mpr ⟨⟨le_rfl, time.le, fun _ => ?_, fun h => ?_, fun h => ?_⟩, counted.placed⟩
    · rw [time]
      exact room
    · exact absurd h (Nat.succ_ne_self _)
    · exact absurd h (by omega)
  · rw [passes_eq]
    refine apart_cons counted.apart (fun hit listed => (counted.placed hit listed).number) ?_
    intro hit listed far
    have older := (counted.placed hit listed).older far
    omega

/-- A call that starts a window. -/
theorem Counted.restart {expiry : Int} (counted : Counted id limit pace gap bucket opened journal now)
    (own : entry.id = id) (passed : entry.passed = true) (reset : entry.reset = true)
    (time : getTime entry.time = now) (some_limit : 1 ≤ limit) (positive : 0 < pace) (short : gap ≤ pace)
    (ended : bucket.deadline ≤ now) (later : now + pace ≤ expiry) :
    Counted id limit pace gap ⟨1, expiry, none⟩ now (entry :: journal) now := by
  have next : windows id (entry :: journal) = windows id journal + 1 := by rw [windows_own own, if_pos reset]
  have passes_eq : passes id (entry :: journal) = (entry.time, windows id journal + 1) :: passes id journal := by
    rw [passes_own own passed, next]
  have deadline' : (⟨1, expiry, none⟩ : BucketRow).deadline = expiry := getTime_intCast expiry
  have numbers (hit : Rat × Nat) (listed : hit ∈ passes id journal) : hit.2 ≤ windows id journal :=
    (counted.placed hit listed).number
  have nobody : inWindow (passes id journal) (windows id journal + 1) = 0 := by
    rw [inWindow, List.countP_eq_zero]
    intro hit listed
    have number := numbers hit listed
    simp
    omega
  have two_before (hit : Rat × Nat) (listed : hit ∈ passes id journal) (far : hit.2 + 2 ≤ windows id journal + 1) :
      getTime hit.1 + gap + pace ≤ now := by
    have placed := counted.placed hit listed
    have paced := counted.paced
    rcases Nat.lt_or_ge (hit.2 + 1) (windows id journal) with less | more
    · have older := placed.older less
      omega
    · have previous := placed.previous (by omega)
      omega
  refine ⟨le_rfl, by omega, ?_, ?_, by simp, ?_, ?_⟩
  · intro window
    rw [passes_eq, inWindow_cons]
    have few := counted.few window
    split
    · next current =>
      dsimp only at current
      rw [← current, nobody]
      exact some_limit
    · exact few
  · rw [passes_eq, next, inWindow_cons, if_pos rfl, nobody]
    simp
  · rw [passes_eq, next, deadline']
    refine List.forall_mem_cons.mpr ⟨⟨le_rfl, time.le, fun _ => ?_, fun h => ?_, fun h => ?_⟩, ?_⟩
    · show getTime entry.time + gap ≤ expiry
      omega
    · exact absurd h (Nat.succ_ne_self _)
    · exact absurd h (by omega)
    · intro hit listed
      have placed := counted.placed hit listed
      have number := placed.number
      have current := placed.current
      exact ⟨by omega, placed.time, fun h => by omega, fun h => by have last := current (by omega); omega,
        two_before hit listed⟩
  · rw [passes_eq]
    refine apart_cons counted.apart (fun hit listed => (numbers hit listed).trans (Nat.le_succ _)) ?_
    intro hit listed far
    rw [time]
    exact two_before hit listed far

/-- A window is `⌊ttl⌋` long at least. A call that passes in it comes `gap` before its end. -/
structure Spaced (ttl : Rat) (limit : Nat) (blockDuration : Rat) (gap : Int) : Prop where
  positive : 0 < ⌊ttl⌋
  block : ttl ≤ blockDuration
  short : gap ≤ ⌊ttl⌋
  room : gap ≤ 1 ∨ limit = 1

variable {ttl blockDuration : Rat} {answer : ThrottlerStorageRecord}

/-- What a call makes of the row it finds. -/
theorem Counted.hit (spaced : Spaced ttl limit blockDuration gap) (some_limit : 1 ≤ limit)
    (counted : Counted id limit ⌊ttl⌋ gap bucket opened journal now)
    (h : bucket.hit ⟨ttl, limit, blockDuration⟩ now = some (answer, bucket')) (own : entry.id = id)
    (time : getTime entry.time = now) (passed : entry.passed = !answer.isBlocked)
    (reset : entry.reset = (!bucket.blocked now && bucket.reset now)) :
    ∃ opened', Counted id limit ⌊ttl⌋ gap bucket' opened' (entry :: journal) now := by
  obtain ⟨positive, block, short, room⟩ := spaced
  have within_iff (hits : Int) : hits ≤ (limit : Rat) ↔ hits ≤ (limit : Int) := by
    rw [← Int.cast_natCast limit, Int.cast_le]
  rcases BucketRow.hit_cases h with ⟨blocked, stopped, rfl⟩ | ⟨free, hits, expiry, window, rest⟩
  · have kept : entry.reset = false := by rw [reset, blocked]; rfl
    exact ⟨opened, counted.skip (.inr ⟨by rw [passed, stopped]; rfl, kept⟩)⟩
  · rw [free] at reset
    rcases window with ⟨anew, rfl, dated⟩ | ⟨kept, rfl, rfl⟩
    · -- The first hit of a window is within the limit.
      have one_le : (1 : Int) ≤ limit := by omega
      rcases rest with ⟨exceeded, -⟩ | ⟨-, unblocked, rfl⟩
      · exact absurd ((within_iff 1).mpr one_le) (not_le.mpr exceeded)
      · rw [anew] at reset
        exact ⟨now, counted.restart own (by rw [passed, unblocked]; rfl) (by rw [reset]; rfl) time some_limit positive
          short (BucketRow.deadline_le_of_reset free anew) (newDate_least dated)⟩
    · obtain ⟨-, before, expires⟩ := BucketRow.not_reset free kept
      have begun : 1 ≤ bucket.totalHits := by
        by_contra none_yet
        have ended := counted.fresh (by omega)
        omega
      rw [kept] at reset
      have kept' : entry.reset = false := by rw [reset]; rfl
      rcases rest with ⟨-, blocked, time', dated, rfl⟩ | ⟨within, unblocked, rfl⟩
      · have longer : ⌊ttl⌋ ≤ ⌊blockDuration⌋ := Int.floor_mono block
        have least : now + ⌊blockDuration⌋ ≤ time' := newDate_least dated
        have put_off : Counted id limit ⌊ttl⌋ gap
            ⟨bucket.totalHits + 1, (getTime bucket.windowExpiresAt : Rat), some (time' : Rat)⟩ opened journal now :=
          counted.exceeded short begun (by omega)
        exact ⟨opened, put_off.skip (.inr ⟨by rw [passed, blocked]; rfl, kept'⟩)⟩
      · have within' := (within_iff _).mp within
        have room' : now + gap ≤ bucket.deadline := by omega
        exact ⟨opened, counted.pass own (by rw [passed, unblocked]; rfl) kept' time begun within' room' expires⟩

end Step

/-! ### Runs -/

/-- The invariant for a row that may not be there. -/
def CountedRow (id : BucketId) (limit : Nat) (pace gap : Int) (row : Option BucketRow) (journal : List Entry)
    (clock : Int) : Prop :=
  match row with
  | none => passes id journal = [] ∧ windows id journal = 0
  | some bucket => ∃ opened, Counted id limit pace gap bucket opened journal clock

section Run

variable {id : BucketId} {limit : Nat} {ttl blockDuration : Rat} {gap clock : Int} {call : Call} {s : System}
  {journal : List Entry}

theorem CountedRow.bucket {pace : Int} (row : CountedRow id limit pace gap (s.buckets id) journal clock)
    (nonneg : 0 ≤ pace) (own : call.id = id) (locked : call.insertedAt ≤ call.databaseNow)
    (order : clock ≤ getTime call.databaseNow) :
    ∃ opened, Counted id limit pace gap (call.bucket s.buckets) opened journal (getTime call.databaseNow) := by
  unfold Call.bucket
  rw [own]
  cases there : s.buckets id with
  | none =>
    obtain ⟨nobody, no_window⟩ : passes id journal = [] ∧ windows id journal = 0 := by rwa [there] at row
    have deadline : (⟨0, call.insertedAt, none⟩ : BucketRow).deadline = getTime call.insertedAt := rfl
    have inserted := getTime_mono locked
    refine ⟨getTime call.insertedAt - pace, ?_⟩
    rw [Option.getD_none]
    refine ⟨by omega, by omega, ?_, ?_, fun _ => by omega, ?_, ?_⟩
    · simp [nobody, inWindow]
    · simp [nobody, inWindow]
    · simp [nobody]
    · simp [nobody]
  | some bucket =>
    obtain ⟨opened, counted⟩ : ∃ opened, Counted id limit pace gap bucket opened journal clock := by rwa [there] at row
    exact ⟨opened, counted.later order⟩

theorem CountedRow.later {pace now : Int} {row : Option BucketRow}
    (counted : CountedRow id limit pace gap row journal clock) (order : clock ≤ now) :
    CountedRow id limit pace gap row journal now := by
  cases row with
  | none => exact counted
  | some bucket =>
    obtain ⟨opened, counted⟩ := counted
    exact ⟨opened, counted.later order⟩

theorem CountedRow.skip {pace : Int} {row : Option BucketRow} {entry : Entry}
    (counted : CountedRow id limit pace gap row journal clock)
    (silent : entry.id ≠ id ∨ entry.passed = false ∧ entry.reset = false) :
    CountedRow id limit pace gap row (entry :: journal) clock := by
  cases row with
  | none =>
    obtain ⟨same, same'⟩ := skipped silent journal
    exact ⟨same.trans counted.1, same'.trans counted.2⟩
  | some bucket =>
    obtain ⟨opened, counted⟩ := counted
    exact ⟨opened, counted.skip silent⟩

theorem checkParameters_ok {key name : String} {limits : Limits} {limit : Rat}
    (h : checkParameters key name ⟨some ttl, some limit, some blockDuration⟩ = .ok limits) :
    limits = ⟨ttl, limit, blockDuration⟩ ∧ 0 < limit := by
  unfold checkParameters at h
  split at h
  · cases h
  · dsimp only at h
    split at h
    · cases h
    · next fine =>
      push Not at fine
      exact ⟨(Except.ok.inj h).symm, fine.2.1⟩

theorem CountedRow.increment (spaced : Spaced ttl limit blockDuration gap)
    (row : CountedRow id limit ⌊ttl⌋ gap (s.buckets id) journal clock)
    (fixed : call.id = id → call.parameters = ⟨some ttl, some (limit : Rat), some blockDuration⟩)
    (locked : call.insertedAt ≤ call.databaseNow) (order : clock ≤ getTime call.databaseNow) (inst : Nat) :
    CountedRow id limit ⌊ttl⌋ gap ((RateLimits.increment s inst call).1.buckets id)
      ((RateLimits.increment s inst call).2 :: journal) (getTime call.databaseNow) := by
  unfold RateLimits.increment record
  cases checked : checkParameters call.key call.throttlerName call.parameters with
  | error message => exact (row.later order).skip (.inr ⟨rfl, rfl⟩)
  | ok limits =>
    dsimp only
    cases found : (call.bucket s.buckets).hit limits (getTime call.databaseNow) with
    | none => exact (row.later order).skip (.inr ⟨rfl, rfl⟩)
    | some result =>
      obtain ⟨answer, bucket'⟩ := result
      dsimp only
      by_cases own : call.id = id
      · rw [fixed own] at checked
        obtain ⟨rfl, positive⟩ := checkParameters_ok checked
        obtain ⟨opened, counted⟩ := row.bucket spaced.positive.le own locked order
        rw [own, Function.update_self]
        exact counted.hit spaced (Nat.cast_pos.mp positive) found rfl rfl rfl rfl
      · have other : id ≠ call.id := fun same => own same.symm
        rw [Function.update_of_ne other]
        exact (row.later order).skip (.inl own)

theorem run_counted (spaced : Spaced ttl limit blockDuration gap) {events : List Event} (timely : Timely events)
    (fixed : ∀ inst call, .increment inst call ∈ events → call.id = id →
      call.parameters = ⟨some ttl, some (limit : Rat), some blockDuration⟩)
    (increments : ∀ event ∈ events, event.isIncrement = true) (clock : Rat)
    (past : ∀ event ∈ events, event.time ≤ clock) :
    CountedRow id limit ⌊ttl⌋ gap ((run events).1.buckets id) (run events).2 (getTime clock) := by
  induction events using List.reverseRecOn generalizing clock with
  | nil => exact ⟨rfl, rfl⟩
  | append_singleton events event ih =>
    obtain ⟨front, before, locked⟩ := timely.front
    have fixed' (inst : Nat) (call : Call) (listed : Event.increment inst call ∈ events) :=
      fixed inst call (List.mem_append_left _ listed)
    have increments' (event' : Event) (listed : event' ∈ events) :=
      increments event' (List.mem_append_left _ listed)
    have row := ih front fixed' increments' event.time before
    have last : event.time ≤ clock := past event (by simp)
    rw [run_concat]
    cases event with
    | cleanup time => exact absurd (increments (.cleanup time) (by simp)) Bool.false_ne_true
    | increment inst call =>
      have row' := row.increment spaced (fixed inst call (by simp)) (locked inst call rfl) le_rfl inst
      exact row'.later (getTime_mono last)

theorem run_placed (spaced : Spaced ttl limit blockDuration gap) {events : List Event} (timely : Timely events)
    (fixed : ∀ inst call, .increment inst call ∈ events → call.id = id →
      call.parameters = ⟨some ttl, some (limit : Rat), some blockDuration⟩)
    (increments : ∀ event ∈ events, event.isIncrement = true) :
    (∀ window, inWindow (passes id (run events).2) window ≤ limit) ∧
      ∀ hit ∈ passes id (run events).2, ∀ later ∈ passes id (run events).2, hit.2 + 2 ≤ later.2 →
        getTime hit.1 + gap + ⌊ttl⌋ ≤ getTime later.1 := by
  obtain ⟨clock, past⟩ := timely.exists_clock
  have row := run_counted spaced timely fixed increments clock past
  cases there : (run events).1.buckets id with
  | none =>
    obtain ⟨nobody, -⟩ : passes id (run events).2 = [] ∧ windows id (run events).2 = 0 := by rwa [there] at row
    simp [nobody, inWindow]
  | some bucket =>
    obtain ⟨opened, counted⟩ : ∃ opened, Counted id limit ⌊ttl⌋ gap bucket opened (run events).2 (getTime clock) := by
      rwa [there] at row
    exact ⟨counted.few, counted.apart⟩

end Run

/-- What throttling promises for a row. -/
structure RateBound (id : BucketId) (ttl : Rat) (limit : Nat) (events : List Event) : Prop where
  interval : ∀ start, inInterval (passes id (run events).2) start ttl ≤ 2 * limit
  window : ∀ window, inWindow (passes id (run events).2) window ≤ limit
  cleanup : (run events).2 = (run (events.filter Event.isIncrement)).2

/-- The fraction of a `ttl` is lost in every window. -/
theorem spaced_of_whole {ttl blockDuration : Rat} {limit : Nat} (positive : 0 < ttl) (block : ttl ≤ blockDuration)
    (whole : (∃ ms : Nat, ttl = ms) ∨ limit = 1 ∧ 2 ≤ ttl) :
    ∃ gap, Spaced ttl limit blockDuration gap ∧ ttl + 1 ≤ ((gap + ⌊ttl⌋ : Int) : Rat) := by
  rcases whole with ⟨ms, rfl⟩ | ⟨rfl, two_le⟩
  · have floor : ⌊(ms : Rat)⌋ = ms := Int.floor_natCast ms
    have positive' : 0 < ms := Nat.cast_pos.mp positive
    refine ⟨1, ⟨by omega, block, by omega, .inl le_rfl⟩, ?_⟩
    rw [floor]
    push_cast
    linarith
  · have floor : 2 ≤ ⌊ttl⌋ := Int.le_floor.mpr two_le
    have least := Int.lt_floor_add_one ttl
    refine ⟨⌊ttl⌋, ⟨by omega, block, le_rfl, .inr rfl⟩, ?_⟩
    have floor' : (2 : Rat) ≤ ⌊ttl⌋ := by exact_mod_cast floor
    push_cast
    linarith

/-- At most twice the limit pass in any interval of the length of a window, at most the limit in a window,
and the cleanup changes nothing. -/
theorem rateBound (id : BucketId) (ttl blockDuration : Rat) (limit : Nat) (events : List Event)
    (positive : 0 < ttl) (block : ttl ≤ blockDuration)
    (fixed : ∀ inst call, .increment inst call ∈ events → call.id = id →
      call.parameters = ⟨some ttl, some (limit : Rat), some blockDuration⟩)
    (timely : Timely events) (whole : (∃ ms : Nat, ttl = ms) ∨ limit = 1 ∧ 2 ≤ ttl) :
    RateBound id ttl limit events := by
  obtain ⟨gap, spaced, long⟩ := spaced_of_whole positive block whole
  obtain ⟨clock, past⟩ := timely.exists_clock
  have clean := (run_cleanup timely clock past).1
  have fixed' (inst : Nat) (call : Call) (listed : Event.increment inst call ∈ events.filter Event.isIncrement) :=
    fixed inst call (List.mem_of_mem_filter listed)
  obtain ⟨few, apart⟩ := run_placed spaced timely.filter fixed' fun event listed => (List.mem_filter.mp listed).2
  rw [← clean] at few apart
  have separated : ∀ hit ∈ passes id (run events).2, ∀ later ∈ passes id (run events).2, hit.2 + 2 ≤ later.2 →
      hit.1 + ttl ≤ later.1 := by
    intro hit listed later listed' far
    have times := apart hit listed later listed' far
    have before : hit.1 < getTime hit.1 + 1 := Int.lt_floor_add_one hit.1
    have after : (getTime later.1 : Rat) ≤ later.1 := Int.floor_le later.1
    have times' : ((getTime hit.1 + (gap + ⌊ttl⌋) : Int) : Rat) ≤ getTime later.1 := by
      rw [Int.cast_le, ← add_assoc]
      exact times
    rw [Int.cast_add] at times'
    linarith
  exact ⟨Windows.inInterval_le few separated, few, clean⟩

/-- Three calls at once from one address; one is allowed. -/
def burst (ttl : Rat) : List Event :=
  List.replicate 3 (.increment 0 ⟨"203.0.113.7", "default", ⟨some ttl, some 1, some ttl⟩, 0, 0⟩)

theorem burst_parameters (ttl : Rat) (inst : Nat) (call : Call) (listed : .increment inst call ∈ burst ttl) :
    call.parameters = ⟨some ttl, some ((1 : Nat) : Rat), some ttl⟩ := by
  obtain ⟨-, rfl⟩ := Event.increment.inj (List.eq_of_mem_replicate listed)
  rw [Nat.cast_one]

theorem burst_timely (ttl : Rat) : Timely (burst ttl) := by
  constructor
  · exact List.pairwise_replicate.mpr (.inr le_rfl)
  · intro inst call listed
    obtain ⟨-, rfl⟩ := Event.increment.inj (List.eq_of_mem_replicate listed)
    exact le_rfl

theorem burst_bounded : RateBound ("203.0.113.7", "default") 1 1 (burst 1) :=
  rateBound ("203.0.113.7", "default") 1 1 1 (burst 1) rfl le_rfl
    (fun inst call listed _ => burst_parameters 1 inst call listed) (burst_timely 1) (.inl ⟨1, rfl⟩)

/-- A window of half a millisecond ends when it starts. -/
theorem burst_passes : ¬ ∀ (id : BucketId) (ttl blockDuration : Rat) (limit : Nat) (events : List Event),
    0 < ttl → ttl ≤ blockDuration →
      (∀ inst call, .increment inst call ∈ events → call.id = id →
        call.parameters = ⟨some ttl, some (limit : Rat), some blockDuration⟩) →
      Timely events → RateBound id ttl limit events := by
  intro claim
  have bound := claim ("203.0.113.7", "default") (1 / 2) (1 / 2) 1 (burst (1 / 2)) (by norm_num) le_rfl
    (fun inst call listed _ => burst_parameters (1 / 2) inst call listed) (burst_timely (1 / 2))
  have three : inInterval (passes ("203.0.113.7", "default") (run (burst (1 / 2))).2) 0 (1 / 2) = 3 := by
    decide +kernel
  have two := bound.interval 0
  omega

end Finverse.RateLimits
