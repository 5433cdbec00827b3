import Mathlib.Algebra.Order.Round
import Mathlib.Data.Rat.Floor
import Mathlib.Logic.Function.Basic

/-! Throttling in fixed windows, shared by all instances through one table. Times are milliseconds. -/

namespace Finverse.RateLimits

/-! ### Dates -/

/-- The driver makes a date of a timestamp: whole milliseconds. -/
def getTime (timestamp : Rat) : Int := ⌊timestamp⌋

/-- `new Date(ms)`: the fraction is dropped, and a date too far away is none. -/
def newDate (ms : Rat) : Option Int :=
  let time := if 0 ≤ ms then ⌊ms⌋ else ⌈ms⌉
  if |time| ≤ 8640000000000000 then some time else none

def secondsUntil (now expiry : Int) : Int := max 0 ⌈((expiry - now : Int) : Rat) / 1000⌉

/-! ### One row -/

structure BucketRow where
  totalHits : Int
  windowExpiresAt : Rat
  blockedUntil : Option Rat
  deriving DecidableEq

structure ThrottlerStorageRecord where
  totalHits : Int
  timeToExpire : Int
  isBlocked : Bool
  timeToBlockExpire : Int
  deriving DecidableEq

/-- The parameters of a call; a number that is not finite is none. -/
structure Parameters where
  ttl : Option Rat
  limit : Option Rat
  blockDuration : Option Rat
  deriving DecidableEq

structure Limits where
  ttl : Rat
  limit : Rat
  blockDuration : Rat

def checkParameters (key throttlerName : String) (p : Parameters) : Except String Limits :=
  if key = "" ∨ throttlerName = "" then .error "Rate-limit key and name are required."
  else
    match p.ttl, p.limit, p.blockDuration with
    | some ttl, some limit, some blockDuration =>
      if ttl ≤ 0 ∨ limit ≤ 0 ∨ blockDuration < 0 then
        .error "Rate-limit ttl and limit must be positive; block duration cannot be negative."
      else .ok ⟨ttl, limit, blockDuration⟩
    | _, _, _ => .error "Rate-limit parameters must be finite numbers."

namespace BucketRow

def blocked (bucket : BucketRow) (now : Int) : Bool := bucket.blockedUntil.any fun time => now < getTime time

def reset (bucket : BucketRow) (now : Int) : Bool :=
  let blockExpired := bucket.blockedUntil.any fun time => getTime time ≤ now
  let windowExpired := decide (getTime bucket.windowExpiresAt ≤ now)
  blockExpired || windowExpired

/-- What a call is answered once the row is locked, and the row after it; none if the database takes no
date of it. -/
def hit (limits : Limits) (bucket : BucketRow) (now : Int) : Option (ThrottlerStorageRecord × BucketRow) :=
  if bucket.blocked now then
    some (⟨bucket.totalHits, secondsUntil now (getTime bucket.windowExpiresAt), true,
      secondsUntil now (getTime (bucket.blockedUntil.getD 0))⟩, bucket)
  else
    let totalHits := if bucket.reset now then 1 else bucket.totalHits + 1
    let expiry := if bucket.reset now then newDate (now + limits.ttl) else some (getTime bucket.windowExpiresAt)
    expiry.bind fun windowExpiresAt =>
      if limits.limit < totalHits then
        (newDate (now + limits.blockDuration)).map fun blockedUntil =>
          (⟨totalHits, secondsUntil now windowExpiresAt, true, secondsUntil now blockedUntil⟩,
            ⟨totalHits, windowExpiresAt, some blockedUntil⟩)
      else some (⟨totalHits, secondsUntil now windowExpiresAt, false, 0⟩, ⟨totalHits, windowExpiresAt, none⟩)

end BucketRow

/-! ### The table -/

/-- A key and the name of a throttler. -/
abbrev BucketId := String × String

abbrev Buckets := BucketId → Option BucketRow

/-- A call, with the times that the database reads while it inserts and while it has the lock. -/
structure Call where
  key : String
  throttlerName : String
  parameters : Parameters
  insertedAt : Rat
  databaseNow : Rat

def Call.id (call : Call) : BucketId := (call.key, call.throttlerName)

/-- The row that a call finds or inserts. -/
def Call.bucket (call : Call) (buckets : Buckets) : BucketRow := (buckets call.id).getD ⟨0, call.insertedAt, none⟩

/-- The transaction of a call; nothing is left of one that fails. -/
def record (buckets : Buckets) (call : Call) : Except String ThrottlerStorageRecord × Buckets :=
  match checkParameters call.key call.throttlerName call.parameters with
  | .error message => (.error message, buckets)
  | .ok limits =>
    match (call.bucket buckets).hit limits (getTime call.databaseNow) with
    | none => (.error "invalid input syntax for type timestamp with time zone", buckets)
    | some (answer, bucket) => (.ok answer, Function.update buckets call.id (some bucket))

/-- A day, in milliseconds. -/
def DAY : Rat := 24 * 60 * 60 * 1000

/-- `DELETE FROM rate_limit_buckets`: the rows that have been expired for a day. -/
def cleanup (buckets : Buckets) (clock : Rat) : Buckets := fun id =>
  (buckets id).filter fun bucket =>
    !(bucket.windowExpiresAt < clock - DAY && bucket.blockedUntil.all fun time => time < clock - DAY)

/-! ### The instances -/

/-- The table, and how many operations each instance has counted. A thousandth one makes a cleanup due. -/
structure System where
  buckets : Buckets
  operations : Nat → Nat
  due : Nat

def System.start : System := ⟨fun _ => none, fun _ => 0, 0⟩

inductive Event
  | increment (inst : Nat) (call : Call)
  | cleanup (clock : Rat)

/-- The time of the lock, or of the deletion. -/
def Event.time : Event → Rat
  | .increment _ call => call.databaseNow
  | .cleanup clock => clock

/-- A call in the journal: when the row was locked, whether the window was started anew, and the answer. -/
structure Entry where
  id : BucketId
  time : Rat
  reset : Bool
  answer : Except String ThrottlerStorageRecord

def increment (s : System) (inst : Nat) (call : Call) : System × Entry :=
  let bucket := call.bucket s.buckets
  let now := getTime call.databaseNow
  match record s.buckets call with
  | (.error message, _) => (s, ⟨call.id, call.databaseNow, false, .error message⟩)
  | (.ok answer, buckets) =>
    let operations := s.operations inst + 1
    (⟨buckets, Function.update s.operations inst operations,
        if operations % 1000 = 0 then s.due + 1 else s.due⟩,
      ⟨call.id, call.databaseNow, !bucket.blocked now && bucket.reset now, .ok answer⟩)

/-- The state, and the journal with the latest call first. -/
def step : System × List Entry → Event → System × List Entry
  | (s, journal), .increment inst call =>
    let (s', entry) := increment s inst call
    (s', entry :: journal)
  | (s, journal), .cleanup clock =>
    if s.due = 0 then (s, journal)
    else ({ s with buckets := cleanup s.buckets clock, due := s.due - 1 }, journal)

def run (events : List Event) : System × List Entry := events.foldl step (.start, [])

end Finverse.RateLimits
