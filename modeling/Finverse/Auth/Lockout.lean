import Finverse.Framework.Ranking
import Finverse.Framework.Solo
import Finverse.Auth.Service

/-! The lock on an address, while it is being tried. -/

namespace Finverse.Auth

open Interleave

/-! ### What a lock is computed from -/

section Evaluation

variable {failures : List Int} {now unlock trip : Int}

/-- The failures inside the window, the newest first. -/
def recentFirst (failures : List Int) (now : Int) : List Int :=
  (failures.filter fun t => decide (now - FAILURE_WINDOW_MS ≤ t)).insertionSort (· ≥ ·)

/-- The failure that trips the lock, the eighth from the newest. -/
theorem tripping_iff (inside : now - FAILURE_WINDOW_MS ≤ trip) :
    (recentFirst failures now)[MAX_FAILED_ATTEMPTS - 1]? = some trip ↔
      failures.countP (trip < ·) < MAX_FAILED_ATTEMPTS ∧
        MAX_FAILED_ATTEMPTS ≤ failures.countP (trip ≤ ·) := by
  have counts : ∀ p : Int → Bool, (∀ t, p t = true → trip ≤ t) →
      (failures.filter fun t => decide (now - FAILURE_WINDOW_MS ≤ t)).countP p =
        failures.countP p := by
    intro p later
    rw [List.countP_filter]
    refine List.countP_congr fun t _ => ?_
    simpa using fun hit => inside.trans (later t hit)
  rw [recentFirst, Ranking.getElem?_insertionSort_iff,
    counts (trip < ·) fun t after => le_of_lt (by simpa using after),
    counts (trip ≤ ·) fun t after => by simpa using after]
  simp only [MAX_FAILED_ATTEMPTS]
  omega

theorem evaluateLockout_eq : evaluateLockout failures now =
    match (recentFirst failures now)[MAX_FAILED_ATTEMPTS - 1]? with
    | none => ⟨false, (recentFirst failures now).length,
        MAX_FAILED_ATTEMPTS - (recentFirst failures now).length, none, 0⟩
    | some trip =>
      if trip + LOCKOUT_MS ≤ now then ⟨false, (recentFirst failures now).length, 1, none, 0⟩
      else ⟨true, (recentFirst failures now).length, 0, some (trip + LOCKOUT_MS),
        ceilDiv (trip + LOCKOUT_MS - now) 1000⟩ := by
  cases hplace : (recentFirst failures now)[MAX_FAILED_ATTEMPTS - 1]? with
  | none =>
    have short : (recentFirst failures now).length < MAX_FAILED_ATTEMPTS := by
      have bound := List.getElem?_eq_none_iff.mp hplace
      simp only [MAX_FAILED_ATTEMPTS] at bound ⊢
      omega
    exact if_pos short
  | some trip =>
    have long : ¬(recentFirst failures now).length < MAX_FAILED_ATTEMPTS := by
      have bound := (List.getElem?_eq_some_iff.mp hplace).1
      simp only [MAX_FAILED_ATTEMPTS] at bound ⊢
      omega
    have tripping : (recentFirst failures now).getD (MAX_FAILED_ATTEMPTS - 1) 0 = trip := by
      rw [List.getD_eq_getElem?_getD, hplace, Option.getD_some]
    rw [← tripping]
    exact if_neg long

/-- The lock lifts a fixed time after the failure that trips it. -/
theorem unlocksAt_iff : (evaluateLockout failures now).unlocksAt = some unlock ↔
    now < unlock ∧ failures.countP (unlock - LOCKOUT_MS < ·) < MAX_FAILED_ATTEMPTS ∧
      MAX_FAILED_ATTEMPTS ≤ failures.countP (unlock - LOCKOUT_MS ≤ ·) := by
  have windows : FAILURE_WINDOW_MS = LOCKOUT_MS := rfl
  rw [evaluateLockout_eq]
  constructor
  · intro lifts
    split at lifts
    · cases lifts
    · rename_i trip hplace
      split at lifts
      · cases lifts
      · rename_i later
        obtain rfl := Option.some.inj lifts
        have trips : trip + LOCKOUT_MS - LOCKOUT_MS = trip := by omega
        rw [trips]
        exact ⟨by omega, (tripping_iff (by omega)).mp hplace⟩
  · rintro ⟨later, tripping⟩
    have hplace := (tripping_iff (by omega : now - FAILURE_WINDOW_MS ≤ unlock - LOCKOUT_MS)).mpr tripping
    rw [hplace]
    dsimp only
    rw [if_neg (by omega)]
    exact congrArg some (Int.sub_add_cancel unlock LOCKOUT_MS)

theorem locked_iff : (evaluateLockout failures now).locked = true ↔
    ∃ unlock : Int, (evaluateLockout failures now).unlocksAt = some unlock := by
  rw [evaluateLockout_eq]
  split
  · simp
  · split <;> simp

/-- Eight failures since a time lock the address for as long after that time. -/
theorem locked_of_enough (enough : MAX_FAILED_ATTEMPTS ≤ failures.countP (trip ≤ ·))
    (soon : now < trip + LOCKOUT_MS) : (evaluateLockout failures now).locked = true := by
  have windows : FAILURE_WINDOW_MS = LOCKOUT_MS := rfl
  have long : MAX_FAILED_ATTEMPTS - 1 < (failures.insertionSort (· ≥ ·)).length := by
    have bound : failures.countP (trip ≤ ·) ≤ failures.length := List.countP_le_length
    rw [List.length_insertionSort]
    simp only [MAX_FAILED_ATTEMPTS] at enough ⊢
    omega
  obtain ⟨eighth, place⟩ : ∃ eighth, (failures.insertionSort (· ≥ ·))[MAX_FAILED_ATTEMPTS - 1]? =
      some eighth := ⟨_, List.getElem?_eq_getElem long⟩
  have tripping := Ranking.getElem?_insertionSort_iff.mp place
  have later : trip ≤ eighth := by
    by_contra earlier
    have more : failures.countP (trip ≤ ·) ≤ failures.countP (eighth < ·) :=
      List.countP_mono_left fun t _ after => by
        have after : trip ≤ t := by simpa using after
        simpa using (not_le.mp earlier).trans_le after
    simp only [MAX_FAILED_ATTEMPTS] at enough tripping
    omega
  refine locked_iff.mpr ⟨eighth + LOCKOUT_MS, unlocksAt_iff.mpr ⟨by omega, ?_⟩⟩
  have trips : eighth + LOCKOUT_MS - LOCKOUT_MS = eighth := by omega
  rw [trips]
  simp only [MAX_FAILED_ATTEMPTS] at tripping ⊢
  omega

end Evaluation

/-! ### Attempts -/

/-- A sign-in with nothing else in between, and what the environment decides during it. -/
structure Attempt where
  request : Nat
  email : String
  password : String
  context : RequestContext
  env : Env

variable (K : Config)

def performIn (env : Env) (call : ports.Op) (w : World) : ports.Reply call × World :=
  perform K call env w

def Attempt.run (a : Attempt) (w : World) : Except AuthError LoginResult × World :=
  Task.solo (performIn K a.env) (login K a.request a.email a.password a.context) w

def afterAttempts (w : World) (attempts : List Attempt) : World :=
  attempts.foldl (fun w a => (a.run K w).2) w

/-- The times of the failed sign-ins of an address. -/
def failuresOf (w : World) (address : String) : List Int :=
  (w.events.filter fun e => !e.succeeded && e.kind == .login &&
    e.emailAttempted == some address).map AuthEvent.createdAt

/-- What a sign-in would find of the lock. -/
def lockoutAt (w : World) (address : String) (now : Int) : LockoutState :=
  evaluateLockout (recentFailures w.events address (now - FAILURE_WINDOW_MS) .login) now

/-- The lock is where it was, whatever attempts were made, until it lifts. -/
structure LockStands (w : World) (address : String) (n u : Int) (attempts : List Attempt) : Prop where
  throughout : ∀ k t, n ≤ t → t < u → (∀ a ∈ attempts.take k, a.env.now ≤ t) →
    (lockoutAt (afterAttempts K w (attempts.take k)) address t).unlocksAt = some u
  opens : (lockoutAt (afterAttempts K w attempts) address u).locked = false

section Attempts

variable {K} {w : World} {address : String} {n u : Int} {attempts : List Attempt}

theorem lockoutAt_eq (w : World) (address : String) (now : Int) :
    lockoutAt w address now = evaluateLockout (failuresOf w address) now := by
  have window : recentFirst (recentFailures w.events address (now - FAILURE_WINDOW_MS) .login) now =
      recentFirst (failuresOf w address) now := by
    rw [recentFirst, recentFirst, recentFailures, failuresOf, List.filter_map, List.filter_map,
      List.filter_filter, List.filter_filter]
    congr 2
    refine List.filter_congr fun e _ => ?_
    simp only [Function.comp_apply]
    cases decide (now - FAILURE_WINDOW_MS ≤ e.createdAt) <;> simp
  rw [lockoutAt, evaluateLockout_eq, evaluateLockout_eq, window]

/-- An attempt on a locked address is rejected, and recorded as a failure. -/
theorem locked_attempt {a : Attempt} (ours : normalizeEmail K.prims a.email = address)
    (locked : (lockoutAt w address a.env.now).locked = true) :
    (a.run K w).1 = .error (tooManyAttempts (lockoutAt w address a.env.now)) ∧
      failuresOf (a.run K w).2 address = failuresOf w address ++ [a.env.now] := by
  have run : a.run K w = (.error (tooManyAttempts (lockoutAt w address a.env.now)),
      { w.draw 1 with
        events := w.events ++ [⟨w.supply, none, some address, .login, false, a.context.ipAddress,
          a.context.userAgent, some "locked out", a.env.now⟩] }) := by
    subst ours
    have now : Task.solo (performIn K a.env) (call .now) w = (.ok a.env.now, w) := rfl
    have failures : Task.solo (performIn K a.env) (call (.recentFailures
        (normalizeEmail K.prims a.email) (a.env.now - FAILURE_WINDOW_MS) .login)) w =
          (.ok (recentFailures w.events (normalizeEmail K.prims a.email)
            (a.env.now - FAILURE_WINDOW_MS) .login), w) := rfl
    rw [lockoutAt] at locked ⊢
    rw [Attempt.run, login, Task.solo_bind, now]
    dsimp only
    rw [Task.solo_bind, failures]
    dsimp only
    rw [if_pos locked]
    rfl
  rw [run]
  simp [failuresOf]

theorem failures_afterAttempts
    (enough : MAX_FAILED_ATTEMPTS ≤ (failuresOf w address).countP (u - LOCKOUT_MS ≤ ·))
    (during : ∀ a ∈ attempts, normalizeEmail K.prims a.email = address ∧ a.env.now < u) :
    failuresOf (afterAttempts K w attempts) address =
      failuresOf w address ++ attempts.map (·.env.now) := by
  induction attempts generalizing w with
  | nil => simp [afterAttempts]
  | cons a attempts ih =>
    obtain ⟨ours, soon⟩ := during a List.mem_cons_self
    have locked : (lockoutAt w address a.env.now).locked = true := by
      rw [lockoutAt_eq]
      exact locked_of_enough enough (by simpa using soon)
    have recorded := (locked_attempt ours locked).2
    have still : MAX_FAILED_ATTEMPTS ≤
        (failuresOf (a.run K w).2 address).countP (u - LOCKOUT_MS ≤ ·) := by
      rw [recorded, List.countP_append]
      exact enough.trans (Nat.le_add_right _ _)
    have rest := ih still fun b later => during b (List.mem_cons_of_mem _ later)
    rw [afterAttempts, List.foldl_cons, ← afterAttempts, rest, recorded]
    simp

/-- A lock stands under further attempts exactly when fewer than eight failures, recorded or still
to come, are later than the one that tripped it. -/
theorem lock_stands_iff (locked : (lockoutAt w address n).unlocksAt = some u)
    (during : ∀ a ∈ attempts, normalizeEmail K.prims a.email = address ∧ n ≤ a.env.now ∧
      a.env.now < u) :
    LockStands K w address n u attempts ↔
      (failuresOf w address).countP (u - LOCKOUT_MS < ·) +
        attempts.countP (u - LOCKOUT_MS < ·.env.now) < MAX_FAILED_ATTEMPTS := by
  rw [lockoutAt_eq, unlocksAt_iff] at locked
  obtain ⟨soon, -, enough⟩ := locked
  have recorded : ∀ k, failuresOf (afterAttempts K w (attempts.take k)) address =
      failuresOf w address ++ (attempts.take k).map (·.env.now) := by
    intro k
    refine failures_afterAttempts enough fun a tried => ?_
    obtain ⟨ours, -, before⟩ := during a (List.mem_of_mem_take tried)
    exact ⟨ours, before⟩
  have all : failuresOf (afterAttempts K w attempts) address =
      failuresOf w address ++ attempts.map (·.env.now) := by
    simpa using recorded attempts.length
  have later : (failuresOf (afterAttempts K w attempts) address).countP (u - LOCKOUT_MS < ·) =
      (failuresOf w address).countP (u - LOCKOUT_MS < ·) +
        attempts.countP (u - LOCKOUT_MS < ·.env.now) := by
    rw [all, List.countP_append, List.countP_map]
    rfl
  rw [← later]
  constructor
  · intro stands
    have end_ := stands.throughout attempts.length (u - 1) (by omega) (by omega) ?_
    · rw [List.take_length, lockoutAt_eq, unlocksAt_iff] at end_
      exact end_.2.1
    · intro a tried
      have before := (during a (List.mem_of_mem_take tried)).2.2
      exact Int.le_sub_one_of_lt before
  · intro few
    constructor
    · intro k t _ before _
      rw [lockoutAt_eq, unlocksAt_iff]
      refine ⟨before, ?_, ?_⟩
      · refine lt_of_le_of_lt ?_ few
        rw [recorded, all, List.countP_append, List.countP_append]
        exact Nat.add_le_add_left (((List.take_sublist k attempts).map _).countP_le) _
      · rw [recorded, List.countP_append]
        exact enough.trans (Nat.le_add_right _ _)
    · rw [lockoutAt_eq, Bool.eq_false_iff]
      intro still
      obtain ⟨u', lifts⟩ := locked_iff.mp still
      obtain ⟨after, -, reach⟩ := unlocksAt_iff.mp lifts
      have more : (failuresOf (afterAttempts K w attempts) address).countP (u' - LOCKOUT_MS ≤ ·) ≤
          (failuresOf (afterAttempts K w attempts) address).countP (u - LOCKOUT_MS < ·) :=
        List.countP_mono_left fun t _ reached => by
          have reached : u' - LOCKOUT_MS ≤ t := by simpa using reached
          have past : u - LOCKOUT_MS < t := by omega
          simpa using past
      omega

end Attempts

/-! ### Guesses at a password -/

def guess (now : Int) : Attempt where
  request := 0
  email := "kim@home"
  password := "guess"
  context := phone
  env := { now }

/-- After a guess a second. -/
def guessed (seconds : List Int) : World :=
  afterAttempts sampleConfig World.empty (seconds.map fun second => guess (1000 * second))

/-- A ninth guess postpones the end of the lock by the second between the first two. -/
theorem lock_postponed :
    (lockoutAt (guessed [1, 2, 3, 4, 5, 6, 7, 8]) "kim@home" 8000).unlocksAt = some 901000 ∧
    normalizeEmail sampleConfig.prims (guess 9000).email = "kim@home" ∧
    ¬LockStands sampleConfig (guessed [1, 2, 3, 4, 5, 6, 7, 8]) "kim@home" 8000 901000
      [guess 9000] := by
  refine ⟨by decide +kernel, by decide +kernel, fun stands => ?_⟩
  have same := stands.throughout 1 9000 (by decide) (by decide) (by decide)
  have moved : (lockoutAt (afterAttempts sampleConfig (guessed [1, 2, 3, 4, 5, 6, 7, 8])
      ([guess 9000].take 1)) "kim@home" 9000).unlocksAt = some 902000 := by decide +kernel
  rw [moved] at same
  cases same

/-- With the first two guesses at once, it takes another two to move the lock. -/
theorem lock_stands_once :
    (lockoutAt (guessed [1, 1, 2, 3, 4, 5, 6, 7]) "kim@home" 7000).unlocksAt = some 901000 ∧
    LockStands sampleConfig (guessed [1, 1, 2, 3, 4, 5, 6, 7]) "kim@home" 7000 901000
      [guess 9000] := by
  have locked : (lockoutAt (guessed [1, 1, 2, 3, 4, 5, 6, 7]) "kim@home" 7000).unlocksAt =
      some 901000 := by decide +kernel
  exact ⟨locked, (lock_stands_iff locked (by decide +kernel)).mpr (by decide +kernel)⟩

end Finverse.Auth
