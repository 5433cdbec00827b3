import Finverse.Framework.History
import Finverse.Framework.OrderedMap
import Mathlib.Data.List.Sort

/-! Edits of transactions on a device that may be offline: the queue of those that could not be sent,
and its replay. -/

namespace Finverse.Mobile.Offline

open Interleave

/-! ### The queue -/

inductive Value
  | text (value : String)
  | flag (value : Bool)
  | texts (value : List String)
  deriving DecidableEq, Repr

/-- A JSON object. -/
abbrev Body : Type := OrdMap String Value

/-- What a queued write is found by. The owner is whoever is signed in. -/
structure Target where
  method : String
  path : String
  deriving DecidableEq, Repr

structure QueuedApiMutation where
  body : Body
  enqueuedAt : Nat

structure OfflineMutationRejected where
  path : String
  statusCode : Nat
  method : String
  reason : String
  enqueuedAt : Nat
  deriving DecidableEq, Repr

inductive ClientError
  | queued (path : String)
  | api (path : String) (statusCode : Nat)
  | storage
  deriving DecidableEq, Repr

structure Response where
  statusCode : Nat
  refreshUnavailable : Bool
  deriving DecidableEq, Repr

def Response.accepted (response : Response) : Bool :=
  200 ≤ response.statusCode && response.statusCode < 300

/-- How a request ends. One that fails for the client may have been applied all the same. -/
inductive Answer
  | answered (response : Response)
  | lost (applied : Bool)
  deriving DecidableEq, Repr

structure Env where
  now : Nat := 0
  answer : Answer := .lost false
  storeFails : Bool := false

/-- Whether the server applies the request. -/
def Env.applies (env : Env) : Bool :=
  match env.answer with
  | .answered response => response.accepted
  | .lost applied => applied

/-- The device, and what the server has of each target. -/
structure World where
  mutations : OrdMap Target QueuedApiMutation := ∅
  replaying : Bool := false
  rejected : List OfflineMutationRejected := []
  server : OrdMap Target Body := ∅

/-- The newer fields of a body replace the queued ones. -/
def mergedBody (found : Option QueuedApiMutation) (body : Body) : Body :=
  match found with
  | some previous => previous.body.addAll body
  | none => body

namespace World

variable (w : World)

/-- The server applies a request as a whole: each field of the body replaces the stored one. -/
def accept (target : Target) (body : Body) : World :=
  { w with server := w.server.set target (((w.server.get? target).getD ∅).addAll body) }

def enqueue (target : Target) (found : Option QueuedApiMutation) (body : Body) (enqueuedAt : Nat) : World :=
  { w with mutations := w.mutations.set target ⟨mergedBody found body, enqueuedAt⟩ }

def dequeue (target : Target) : World := { w with mutations := w.mutations.erase target }

def queued (target : Target) (field : String) : Option Value :=
  (w.mutations.get? target).bind (·.body.get? field)

def served (target : Target) (field : String) : Option Value :=
  (w.server.get? target).bind (·.get? field)

/-- A field as the user has it: what is queued goes over what the server has. -/
def shown (target : Target) (field : String) : Option Value :=
  (w.queued target field).or (w.served target field)

variable {w} {target target' : Target} {found : Option QueuedApiMutation} {body : Body} {field : String}
  {enqueuedAt : Nat}

@[simp] theorem queued_accept : (w.accept target body).queued target' field = w.queued target' field := rfl

@[simp] theorem served_enqueue :
    (w.enqueue target found body enqueuedAt).served target' field = w.served target' field := rfl

@[simp] theorem served_dequeue : (w.dequeue target).served target' field = w.served target' field := rfl

theorem served_accept : (w.accept target body).served target' field =
    if target = target' then (body.get? field).or (w.served target field) else w.served target' field := by
  rw [served, accept, OrdMap.get?_set]
  split
  · rw [Option.bind_some, OrdMap.get?_addAll, served]
    cases w.server.get? target <;> rfl
  · rfl

theorem mergedBody_get? : (mergedBody found body).get? field =
    (body.get? field).or (found.bind (·.body.get? field)) := by
  cases found with
  | none => rw [mergedBody, Option.bind_none, Option.or_none]
  | some previous => exact OrdMap.get?_addAll _ _ _

theorem queued_enqueue : (w.enqueue target found body enqueuedAt).queued target' field =
    if target = target' then (body.get? field).or (found.bind (·.body.get? field))
    else w.queued target' field := by
  rw [queued, enqueue, OrdMap.get?_set]
  split
  · rw [Option.bind_some, mergedBody_get?]
  · rfl

theorem queued_dequeue : (w.dequeue target).queued target' field =
    if target = target' then none else w.queued target' field := by
  rw [queued, dequeue, OrdMap.get?_erase, queued]
  by_cases same : target' = target
  · rw [if_pos same, if_pos same.symm, Option.bind_none]
  · rw [if_neg same, if_neg (Ne.symm same)]

end World

/-! ### Calls -/

inductive Call
  | beginReplay
  | endReplay
  | pendingMutations
  | perform (target : Target) (body : Body)
  | enqueueMutation (target : Target) (body : Body)
  | find (target : Target)
  | insert (target : Target) (found : Option QueuedApiMutation) (body : Body) (enqueuedAt : Nat)
  | removeMutation (target : Target)
  | reject (rejection : OfflineMutationRejected)

/-- A store that fails replies `none` or `false`, and so does a request that got no response. -/
@[reducible] def Call.Reply : Call → Type
  | .beginReplay => Bool
  | .endReplay | .reject _ => Unit
  | .pendingMutations => Option (List (Target × QueuedApiMutation))
  | .perform .. => Option Response
  | .enqueueMutation .. | .insert .. | .removeMutation _ => Bool
  | .find _ => Option (Nat × Option QueuedApiMutation)

abbrev ports : Interface := ⟨Call, Call.Reply⟩

def perform (call : Call) (env : Env) (w : World) : call.Reply × World :=
  match call with
  | .beginReplay => (!w.replaying, { w with replaying := true })
  | .endReplay => ((), { w with replaying := false })
  | .pendingMutations =>
    if env.storeFails then (none, w)
    else (some (w.mutations.entries.insertionSort fun a b => a.2.enqueuedAt ≤ b.2.enqueuedAt), w)
  | .perform target body =>
    (match env.answer with
      | .answered response => some response
      | .lost _ => none,
    if env.applies then w.accept target body else w)
  | .enqueueMutation target body =>
    if env.storeFails then (false, w)
    else (true, w.enqueue target (w.mutations.get? target) body env.now)
  | .find target =>
    if env.storeFails then (none, w) else (some (env.now, w.mutations.get? target), w)
  | .insert target found body enqueuedAt =>
    if env.storeFails then (false, w) else (true, w.enqueue target found body enqueuedAt)
  | .removeMutation target => if env.storeFails then (false, w) else (true, w.dequeue target)
  | .reject rejection => ((), { w with rejected := w.rejected ++ [rejection] })

def machine : Machine ports Env World where
  ready := fun _ _ _ => true
  exec := perform

/-! ### The client -/

abbrev Client (α : Type) : Type := Task ports ClientError α

def call (c : Call) : Client c.Reply := Task.call (I := ports) c

inductive Store
  | inMemory
  | sqlite
  deriving DecidableEq, Repr

/-- The in-memory store merges at once, the other one reads the row and then replaces it. -/
def enqueueMutation (store : Store) (target : Target) (body : Body) : Client Unit := do
  match store with
  | .inMemory => do
    let stored ← call (.enqueueMutation target body)
    if stored then pure () else throw .storage
  | .sqlite => do
    match ← call (.find target) with
    | none => throw .storage
    | some (enqueuedAt, found) => do
      let stored ← call (.insert target found body enqueuedAt)
      if stored then pure () else throw .storage

def queueOfflineMutation (store : Store) (target : Target) (body : Body) : Client Unit := do
  enqueueMutation store target body
  throw (.queued target.path)

/-- Sends a change, or else queues it. -/
def sendOrQueue (store : Store) (target : Target) (body : Body) : Client Unit := do
  match ← call (.perform target body) with
  | none => queueOfflineMutation store target body
  | some response =>
    if 400 ≤ response.statusCode then throw (.api target.path response.statusCode) else pure ()

structure Preferences where
  merchantOverride : Option String := none
  note : Option String := none
  excludedFromAnalytics : Option Bool := none
  isRecurring : Option Bool := none
  duplicateReported : Option Bool := none

/-- Only the fields that are given are there. -/
def Preferences.body (preferences : Preferences) : Body :=
  let field (key : String) (value : Option Value) (body : Body) : Body :=
    match value with
    | some value => body.set key value
    | none => body
  field "duplicateReported" (preferences.duplicateReported.map .flag)
    (field "isRecurring" (preferences.isRecurring.map .flag)
      (field "excludedFromAnalytics" (preferences.excludedFromAnalytics.map .flag)
        (field "note" (preferences.note.map .text)
          (field "merchantOverride" (preferences.merchantOverride.map .text) ∅))))

def updateTransactionPreferences (store : Store) (transactionId : String) (preferences : Preferences) :
    Client Unit :=
  sendOrQueue store ⟨"PATCH", "/transactions/" ++ transactionId ++ "/preferences"⟩ preferences.body

def updateTransactionTags (store : Store) (transactionId : String) (tags : List String) : Client Unit :=
  sendOrQueue store ⟨"PATCH", "/transactions/" ++ transactionId ++ "/tags"⟩
    ((∅ : Body).set "tags" (.texts tags))

def offlineRejectionReason (statusCode : Nat) : String :=
  match statusCode with
  | 409 | 412 => "This change conflicted with a newer server version and was not overwritten."
  | 403 => "This change is not allowed for the current account."
  | 404 => "The original record is no longer available."
  | 422 | 400 => "The server rejected this change because it is no longer valid."
  | _ => "This change could not be saved and will not be retried automatically."

def removeMutation (target : Target) : Client Unit := do
  let removed ← call (.removeMutation target)
  if removed then pure () else throw .storage

/-- A response after which the rest of the queue waits for another replay. -/
def Response.isTransient (response : Response) : Bool :=
  (response.statusCode = 401 && response.refreshUnavailable) || response.statusCode = 408 ||
    response.statusCode = 429 || response.statusCode < 400 || 500 ≤ response.statusCode

/-- Sends what was pending, in order. The answer is how many were accepted. -/
def replayAll : List (Target × QueuedApiMutation) → Nat → Client Nat
  | [], replayed => pure replayed
  | (target, mutation) :: rest, replayed => do
    match ← call (.perform target mutation.body) with
    | none => pure replayed
    | some response =>
      if response.accepted then do
        removeMutation target
        replayAll rest (replayed + 1)
      else if response.isTransient then pure replayed
      else do
        removeMutation target
        let _ ← call (.reject ⟨target.path, response.statusCode, target.method,
          offlineRejectionReason response.statusCode, mutation.enqueuedAt⟩)
        replayAll rest replayed

def replayPending : Client Nat := do
  match ← call .pendingMutations with
  | none => pure 0
  | some pending => replayAll pending 0

/-- One that finds another under way waits for its result instead. -/
def replayOfflineMutations : Client (Option Nat) := do
  let first ← call .beginReplay
  if first then
    tryCatch
      (do
        let replayed ← replayPending
        let _ ← call .endReplay
        pure (some replayed))
      fun e => do
        let _ ← call .endReplay
        throw e
  else pure none

inductive Request
  | updateTransactionPreferences (transactionId : String) (preferences : Preferences)
  | updateTransactionTags (transactionId : String) (tags : List String)
  | replayOfflineMutations

def Request.edits : Request → Bool
  | .replayOfflineMutations => false
  | _ => true

def handle (store : Store) : Request → Client (Option Nat)
  | .updateTransactionPreferences transactionId preferences =>
    (fun _ => none) <$> updateTransactionPreferences store transactionId preferences
  | .updateTransactionTags transactionId tags => (fun _ => none) <$> updateTransactionTags store transactionId tags
  | .replayOfflineMutations => replayOfflineMutations

def system (store : Store) : System ports Env World Request (Except ClientError (Option Nat)) where
  machine := machine
  serve := fun _ r => (handle store r).run

abbrev Deed : Type := Entry ports Env World Request

/-! ### What an operation does to the fields -/

section Fields

variable {w : World} {target target' : Target} {found : Option QueuedApiMutation} {body : Body} {field : String}
  {enqueuedAt : Nat}

theorem shown_accept_iff : (w.accept target body).shown target field = (body.get? field).or (w.shown target field) ↔
    ∀ v v', body.get? field = some v → w.queued target field = some v' → v' = v := by
  rw [World.shown, World.queued_accept, World.served_accept, if_pos rfl, World.shown]
  cases body.get? field <;> cases w.queued target field <;> simp

theorem shown_accept_same_iff : (w.accept target body).shown target field = w.shown target field ↔
    ∀ v, body.get? field = some v → w.queued target field = none → w.served target field = some v := by
  rw [World.shown, World.queued_accept, World.served_accept, if_pos rfl, World.shown]
  cases body.get? field <;> cases w.queued target field <;> simp [eq_comm]

theorem shown_accept_ne (other : target ≠ target') :
    (w.accept target body).shown target' field = w.shown target' field := by
  rw [World.shown, World.queued_accept, World.served_accept, if_neg other, World.shown]

theorem shown_enqueue_iff :
    (w.enqueue target found body enqueuedAt).shown target field = (body.get? field).or (w.shown target field) ↔
      (body.get? field = none →
        (found.bind (·.body.get? field)).or (w.served target field) = w.shown target field) := by
  rw [World.shown, World.queued_enqueue, if_pos rfl, World.served_enqueue, Option.or_assoc]
  cases body.get? field <;> simp

theorem shown_enqueue_ne (other : target ≠ target') :
    (w.enqueue target found body enqueuedAt).shown target' field = w.shown target' field := by
  rw [World.shown, World.queued_enqueue, if_neg other, World.served_enqueue, World.shown]

theorem shown_dequeue_iff : (w.dequeue target).shown target field = w.shown target field ↔
    ∀ v, w.queued target field = some v → w.served target field = some v := by
  rw [World.shown, World.queued_dequeue, if_pos rfl, World.served_dequeue, World.shown]
  cases w.queued target field <;> simp

theorem shown_dequeue_ne (other : target ≠ target') :
    (w.dequeue target).shown target' field = w.shown target' field := by
  rw [World.shown, World.queued_dequeue, if_neg other, World.served_dequeue, World.shown]

end Fields

/-- What the user set with an operation. -/
def sets (e : Deed) : Option (Target × Body) :=
  match e.op with
  | .perform target body => if e.req.edits && e.input.applies then some (target, body) else none
  | .enqueueMutation target body | .insert target _ body _ =>
    if e.input.storeFails then none else some (target, body)
  | _ => none

def setTo (e : Deed) (target : Target) (field : String) : Option Value :=
  (sets e).bind fun set => if set.1 = target then set.2.get? field else none

/-- The operation neither hides what the user has last set nor brings back what was there before. -/
def InTime (e : Deed) : Prop :=
  match e.op with
  -- Nothing else is queued when a change is applied, and what is replayed is still queued.
  | .perform target body => e.input.applies = true → ∀ field v, body.get? field = some v →
    if e.req.edits then ∀ v', e.before.queued target field = some v' → v' = v
    else e.before.queued target field = none → e.before.served target field = some v
  -- The row that is replaced has nothing that is not merged.
  | .insert target found body _ => e.input.storeFails = false → ∀ field, body.get? field = none →
    (found.bind (·.body.get? field)).or (e.before.served target field) = e.before.shown target field
  -- The server has what is removed.
  | .removeMutation target => e.input.storeFails = false → ∀ field v,
    e.before.queued target field = some v → e.before.served target field = some v
  | _ => True

theorem forall_target {P : Target → String → Prop} (target : Target)
    (others : ∀ target', target ≠ target' → ∀ field, P target' field) :
    (∀ target' field, P target' field) ↔ ∀ field, P target field := by
  constructor
  · exact fun all => all target
  · intro here target' field
    by_cases same : target = target'
    · exact same ▸ here field
    · exact others target' same field

/-- Every field is shown as it was, or as it is set, exactly if the operation comes in time. -/
theorem shown_after_iff {e : Deed} : (∀ target field,
    (e.after machine).shown target field = (setTo e target field).or (e.before.shown target field)) ↔ InTime e := by
  obtain ⟨thread, req, op, input, w⟩ := e
  change (∀ target field, (perform op input w).2.shown target field = _) ↔ _
  cases op with
  | perform target body =>
    simp only [perform, setTo, sets, InTime]
    cases input.applies with
    | false => simp
    | true =>
      cases req.edits with
      | true =>
        simp only [Bool.and_self, if_true, Option.bind_some, true_implies]
        refine (forall_target target fun target' other field => ?_).trans ?_
        · rw [if_neg other, Option.none_or, shown_accept_ne other]
        · simp only [if_true, shown_accept_iff]
          exact forall₂_congr fun field v => ⟨fun h given v' => h v' given, fun h v' given => h given v'⟩
      | false =>
        simp only [Bool.and_true, Bool.false_eq_true, if_false, if_true, Option.bind_none, Option.none_or, true_implies]
        refine (forall_target target fun target' other field => shown_accept_ne other).trans ?_
        exact forall_congr' fun field => shown_accept_same_iff
  | enqueueMutation target body =>
    simp only [perform, setTo, sets, InTime, iff_true]
    cases input.storeFails with
    | true => simp
    | false =>
      simp only [Bool.false_eq_true, if_false, Option.bind_some]
      refine (forall_target target fun target' other field => ?_).mpr fun field => ?_
      · rw [if_neg other, Option.none_or, shown_enqueue_ne other]
      · rw [if_pos rfl, shown_enqueue_iff]
        exact fun _ => rfl
  | insert target found body enqueuedAt =>
    simp only [perform, setTo, sets, InTime]
    cases input.storeFails with
    | true => simp
    | false =>
      simp only [Bool.false_eq_true, if_false, Option.bind_some, true_implies]
      refine (forall_target target fun target' other field => ?_).trans ?_
      · rw [if_neg other, Option.none_or, shown_enqueue_ne other]
      · simp only [if_true, shown_enqueue_iff]
  | removeMutation target =>
    simp only [perform, setTo, sets, InTime, Option.bind_none, Option.none_or]
    cases input.storeFails with
    | true => simp
    | false =>
      simp only [Bool.false_eq_true, if_false, true_implies]
      refine (forall_target target fun target' other field => shown_dequeue_ne other).trans ?_
      exact forall_congr' fun field => shown_dequeue_iff
  | pendingMutations | find =>
    simp only [perform, setTo, sets, InTime, Option.bind_none, Option.none_or, iff_true]
    intro target field
    split <;> rfl
  | beginReplay | endReplay | reject =>
    simp only [perform, setTo, sets, InTime, Option.bind_none, Option.none_or, iff_true]
    exact fun _ _ => rfl

/-- What the user has last set of a field, or what it was. -/
def lastSet (w₀ : World) (log : List Deed) (target : Target) (field : String) : Option Value :=
  log.foldl (fun v e => (setTo e target field).or v) (w₀.shown target field)

/-- Every field is as the user has last set it, at the server or in the queue. -/
def Kept (w₀ : World) (log : List Deed) : Prop :=
  ∀ target field, (ending machine w₀ log).shown target field = lastSet w₀ log target field

theorem lastSet_snoc (w₀ : World) (log : List Deed) (e : Deed) (target : Target) (field : String) :
    lastSet w₀ (log ++ [e]) target field = (setTo e target field).or (lastSet w₀ log target field) := by
  rw [lastSet, List.foldl_append]
  rfl

/-- The step from one state in which all is kept. -/
theorem kept_snoc_iff {w₀ : World} {log : List Deed} {e : Deed} (kept : Kept w₀ log)
    (from_ : e.before = ending machine w₀ log) : Kept w₀ (log ++ [e]) ↔ InTime e := by
  rw [← shown_after_iff]
  refine forall_congr' fun target => forall_congr' fun field => ?_
  rw [ending_snoc, lastSet_snoc, from_, kept target field]

/-! ### What the programs ask for -/

def begins (e : Event ports) : Bool :=
  match e with
  | ⟨.beginReplay, first⟩ => first
  | _ => false

def ends (e : Event ports) : Bool :=
  match e with
  | ⟨.endReplay, _⟩ => true
  | _ => false

/-- The request is replaying. -/
abbrev Within (h : List (Event ports)) : Prop := Pool.inside begins ends h false = true

def leftAfter (left : List (Target × QueuedApiMutation)) (e : Event ports) :
    List (Target × QueuedApiMutation) :=
  match e with
  | ⟨.beginReplay, _⟩ => []
  | ⟨.pendingMutations, some pending⟩ => pending
  | ⟨.removeMutation _, true⟩ => left.tail
  | _ => left

/-- What a replay has read and not removed yet. -/
def unsent (h : List (Event ports)) : List (Target × QueuedApiMutation) := h.foldl leftAfter []

theorem unsent_snoc (h : List (Event ports)) (e : Event ports) : unsent (h ++ [e]) = leftAfter (unsent h) e := by
  rw [unsent, List.foldl_append]
  rfl

/-- What a request has done before it asks for an operation. -/
def Asked (store : Store) (r : Request) (h : List (Event ports)) (op : Call) : Prop :=
  match op with
  | .beginReplay | .reject _ => r.edits = false
  | .endReplay | .pendingMutations => Within h
  | .perform target body => r.edits = true ∨
    Within h ∧ ∃ mutation, (unsent h).head? = some (target, mutation) ∧ mutation.body = body
  | .enqueueMutation .. | .find _ => r.edits = true
  | .insert .. => r.edits = true ∧ store = .sqlite
  | .removeMutation target => Within h ∧ ∃ mutation response, (unsent h).head? = some (target, mutation) ∧
    h.getLast? = some ⟨.perform target mutation.body, some response⟩ ∧
      (response.accepted = true ∨ response.isTransient = false)

section Programs

variable {store : Store} {r : Request} {h : List (Event ports)}

theorem Within.snoc {e : Event ports} (within : Within h) (quiet : ends e = false) : Within (h ++ [e]) := by
  rw [Within, Pool.inside_snoc, quiet]
  split
  · rfl
  · exact within

theorem sendOrQueue_asks (edits : r.edits = true) (target : Target) (body : Body) :
    Task.Asks (Asked store r) (fun _ _ => True) (fun _ _ => True) h (sendOrQueue store target body) := by
  refine Task.asks_call_bind.mpr ⟨.inl edits, fun response => ?_⟩
  cases response with
  | some response =>
    dsimp only
    split <;> trivial
  | none =>
    refine Task.asks_bind.mpr ?_
    cases store with
    | inMemory =>
      refine Task.asks_call_bind.mpr ⟨edits, fun stored => ?_⟩
      cases stored <;> trivial
    | sqlite =>
      refine Task.asks_call_bind.mpr ⟨edits, fun found => ?_⟩
      match found with
      | none => trivial
      | some (enqueuedAt, found) =>
        refine Task.asks_call_bind.mpr ⟨⟨edits, rfl⟩, fun stored => ?_⟩
        cases stored <;> trivial

theorem removeMutation_asks {target : Target} {ok : List (Event ports) → Unit → Prop}
    {err : List (Event ports) → ClientError → Prop}
    (asked : Asked store r h (.removeMutation target)) (removed : ok (h ++ [⟨.removeMutation target, true⟩]) ())
    (failed : err (h ++ [⟨.removeMutation target, false⟩]) .storage) :
    Task.Asks (Asked store r) ok err h (removeMutation target) := by
  refine Task.asks_call_bind.mpr ⟨asked, fun done => ?_⟩
  cases done with
  | true => exact removed
  | false => exact failed

theorem replayAll_asks (replays : r.edits = false) (rest : List (Target × QueuedApiMutation)) (replayed : Nat)
    (within : Within h) (left : unsent h = rest) :
    Task.Asks (Asked store r) (fun h _ => Within h) (fun h _ => Within h) h (replayAll rest replayed) := by
  induction rest generalizing h replayed with
  | nil => exact within
  | cons first rest ih =>
    obtain ⟨target, mutation⟩ := first
    have next : (unsent h).head? = some (target, mutation) := by rw [left]; rfl
    refine Task.asks_call_bind.mpr ⟨.inr ⟨within, mutation, next, rfl⟩, fun response => ?_⟩
    cases response with
    | none => exact within.snoc rfl
    | some response =>
      have within' : Within (h ++ [⟨.perform target mutation.body, some response⟩]) := within.snoc rfl
      have left' : unsent (h ++ [⟨.perform target mutation.body, some response⟩]) = (target, mutation) :: rest := by
        rw [unsent_snoc]
        exact left
      have asked (settled : response.accepted = true ∨ response.isTransient = false) :
          Asked store r (h ++ [⟨.perform target mutation.body, some response⟩]) (.removeMutation target) :=
        ⟨within', mutation, response, by rw [left']; rfl, List.getLast?_concat, settled⟩
      have left'' : unsent (h ++ [⟨.perform target mutation.body, some response⟩] ++
          [⟨.removeMutation target, true⟩]) = rest := by
        rw [unsent_snoc, left']
        rfl
      dsimp only
      by_cases accepted : response.accepted = true
      · rw [if_pos accepted]
        refine Task.asks_bind.mpr (removeMutation_asks (asked (.inl accepted)) ?_ (within'.snoc rfl))
        exact ih _ (within'.snoc rfl) left''
      · rw [if_neg accepted]
        by_cases transient : response.isTransient = true
        · rw [if_pos transient]
          exact within'
        · rw [if_neg transient]
          have refused := asked (.inr (Bool.eq_false_iff.mpr transient))
          refine Task.asks_bind.mpr (removeMutation_asks refused ?_ (within'.snoc rfl))
          refine Task.asks_call_bind.mpr ⟨replays, fun _ => ih _ ((within'.snoc rfl).snoc rfl) ?_⟩
          rw [unsent_snoc]
          exact left''

theorem replayPending_asks (replays : r.edits = false) (within : Within h) :
    Task.Asks (Asked store r) (fun h _ => Within h) (fun h _ => Within h) h replayPending := by
  refine Task.asks_call_bind.mpr ⟨within, fun pending => ?_⟩
  cases pending with
  | none => exact within.snoc rfl
  | some pending => exact replayAll_asks replays pending 0 (within.snoc rfl) (unsent_snoc _ _)

theorem handle_asks (store : Store) (r : Request) :
    Task.Asks (Asked store r) (fun _ _ => True) (fun _ _ => True) [] (handle store r) := by
  cases r with
  | updateTransactionPreferences transactionId preferences => exact Task.asks_map.mpr (sendOrQueue_asks rfl _ _)
  | updateTransactionTags transactionId tags => exact Task.asks_map.mpr (sendOrQueue_asks rfl _ _)
  | replayOfflineMutations =>
    refine Task.asks_call_bind.mpr ⟨rfl, fun first => ?_⟩
    cases first with
    | false => trivial
    | true =>
      refine Task.asks_tryCatch.mpr (Task.asks_bind.mpr ((replayPending_asks rfl rfl).weaken ?_ ?_))
      · exact fun h replayed within => Task.asks_call_bind.mpr ⟨within, fun _ => trivial⟩
      · exact fun h e within => Task.asks_call_bind.mpr ⟨within, fun _ => trivial⟩

end Programs

/-! ### Runs -/

section Runs

open Pool

variable {store : Store} {w₀ : World} {cond : List Deed → Deed → Prop} {log : List Deed} {e : Deed} {n : Nat}
  {c : Pool ports World Request (Except ClientError (Option Nat))}

theorem deed_asked (recorded : Recorded (system store) w₀ cond (log ++ [e]) c) :
    Asked store e.req (own machine log e.thread) e.op :=
  recorded.asks (handle_asks store e.req)

theorem locks (store : Store) : Locks (system store) cond World.replaying begins ends where
  acquire e began := by
    obtain ⟨thread, req, op, input, w⟩ := e
    cases op with
    | beginReplay => exact ⟨(Bool.not_eq_true' _).mp began, rfl⟩
    | _ => cases began
  release e ended := by
    obtain ⟨thread, req, op, input, w⟩ := e
    cases op with
    | endReplay => rfl
    | _ => cases ended
  other _ e _ idle quiet := by
    obtain ⟨thread, req, op, input, w⟩ := e
    cases op with
    | beginReplay => exact ((Bool.not_eq_false' _).mp idle).symm
    | endReplay => cases quiet
    | perform => exact apply_ite World.replaying _ _ _ |>.trans (ite_self _)
    | reject => rfl
    | pendingMutations | enqueueMutation | find | insert | removeMutation =>
      change World.replaying (ite _ _ _ : _ × World).2 = _
      split <;> rfl
  mine n r := Prog.Asks.weaken (handle_asks store r) (fun h op asked reply ended => by
    cases op with
    | endReplay => exact asked
    | _ => cases ended) fun _ _ _ => trivial

theorem own_unsent : unsent (own machine (log ++ [e]) n) =
    if e.thread = n then leftAfter (unsent (own machine log n)) (e.event machine) else unsent (own machine log n) := by
  rw [own_snoc]
  split
  · exact unsent_snoc _ _
  · rfl

theorem within_before (idle : begins (e.event machine) = false) (within : Within (own machine (log ++ [e]) n)) :
    Within (own machine log n) := by
  rw [Within, own_snoc] at within
  split at within
  · rw [inside_snoc, idle] at within
    cases quiet : ends (e.event machine) with
    | true =>
      rw [quiet] at within
      cases within
    | false =>
      rw [quiet] at within
      exact within
  · exact within

/-- Only one replay is under way. -/
theorem within_same (recorded : Recorded (system store) w₀ cond log c) {m : Nat} (within : Within (own machine log n))
    (within' : Within (own machine log m)) : m = n :=
  (recorded.exclusive (locks store) n within).2 m within'

theorem began_of_within {h : List (Event ports)} (within : Within h) : ∃ first, ⟨.beginReplay, first⟩ ∈ h := by
  induction h using List.reverseRecOn with
  | nil => cases within
  | append_singleton h e ih =>
    rw [Within, inside_snoc] at within
    cases began : begins e with
    | true =>
      obtain ⟨op, reply⟩ := e
      cases op with
      | beginReplay => exact ⟨reply, by simp⟩
      | _ => cases began
    | false =>
      have before : Within h := by
        cases quiet : ends e <;> rw [began, quiet] at within
        · exact within
        · cases within
      obtain ⟨first, there⟩ := ih before
      exact ⟨first, List.mem_append_left _ there⟩

/-- Whoever replays is no edit. -/
theorem replays_of_within (recorded : Recorded (system store) w₀ cond log c)
    (within : Within (own machine log e.thread)) (done : e ∈ log) : e.req.edits = false := by
  obtain ⟨first, there⟩ := began_of_within within
  obtain ⟨e', done', mine, same⟩ := mem_own.mp there
  rw [recorded.same_req done done' mine.symm]
  obtain ⟨before, after, rfl⟩ := List.append_of_mem done'
  have asked := recorded.asks (handle_asks store e'.req)
  rwa [(Entry.of_event same).1] at asked

/-- The operation leaves the queue as it is. -/
def Call.leaves : Call → Bool
  | .enqueueMutation .. | .insert .. | .removeMutation _ => false
  | _ => true

theorem mutations_kept (e : Deed) (leaves : e.op.leaves = true) :
    (e.after machine).mutations = e.before.mutations := by
  obtain ⟨thread, req, op, input, w⟩ := e
  change (perform op input w).2.mutations = w.mutations
  cases op with
  | beginReplay | endReplay | reject => rfl
  | enqueueMutation | insert | removeMutation => cases leaves
  | perform | pendingMutations | find =>
    simp only [perform]
    split <;> rfl

variable {Q : QueuedApiMutation → QueuedApiMutation → Prop}

/-- What a replay has still to send is in the queue, as it was read or as it has become since. -/
def Held (w₀ : World) (Q : QueuedApiMutation → QueuedApiMutation → Prop) (log : List Deed) : Prop :=
  ∀ n, Within (own machine log n) → ((unsent (own machine log n)).map Prod.fst).Nodup ∧
    ∀ target read, (target, read) ∈ unsent (own machine log n) →
      ∃ current, (ending machine w₀ log).mutations.get? target = some current ∧ Q read current

/-- What edits make of a queued row while a replay is under way. -/
def Carries (store : Store) (w₀ : World) (cond : List Deed → Deed → Prop)
    (Q : QueuedApiMutation → QueuedApiMutation → Prop) : Prop :=
  ∀ log e c, Recorded (system store) w₀ cond (log ++ [e]) c → e.req.edits = true → e.before.replaying = true →
    ∀ target read current, e.before.mutations.get? target = some current → Q read current →
      ∃ current', (e.after machine).mutations.get? target = some current' ∧ Q read current'

theorem held (refl : ∀ read, Q read read) (carries : Carries store w₀ cond Q)
    (recorded : Recorded (system store) w₀ cond log c) : Held w₀ Q log := by
  refine recorded.induct (P := Held w₀ Q) ?_ ?_
  · intro n within
    cases within
  · intro log e c recorded from_ _ sofar n within
    obtain ⟨c', earlier⟩ := recorded.of_append
    have asked := deed_asked recorded
    rw [ending_snoc]
    -- Where nothing of the list and nothing in the queue changes.
    have still (same : unsent (own machine (log ++ [e]) n) = unsent (own machine log n))
        (before : Within (own machine log n)) (kept : (e.after machine).mutations = e.before.mutations) :
        ((unsent (own machine (log ++ [e]) n)).map Prod.fst).Nodup ∧
          ∀ target read, (target, read) ∈ unsent (own machine (log ++ [e]) n) →
            ∃ current, (e.after machine).mutations.get? target = some current ∧ Q read current := by
      rw [same, kept, from_]
      exact sofar n before
    -- Where an edit changes the queue.
    have edited (edits : e.req.edits = true) (same : leftAfter (unsent (own machine log n)) (e.event machine) =
        unsent (own machine log n)) (idle : begins (e.event machine) = false) :
        ((unsent (own machine (log ++ [e]) n)).map Prod.fst).Nodup ∧
          ∀ target read, (target, read) ∈ unsent (own machine (log ++ [e]) n) →
            ∃ current, (e.after machine).mutations.get? target = some current ∧ Q read current := by
      have before := within_before idle within
      have replaying : e.before.replaying = true := from_ ▸ (earlier.exclusive (locks store) n before).1
      obtain ⟨distinct, queued⟩ := sofar n before
      rw [own_unsent, same, ite_self]
      refine ⟨distinct, fun target read there => ?_⟩
      obtain ⟨current, found, such⟩ := queued target read there
      exact carries log e c recorded edits replaying target read current (from_ ▸ found) such
    obtain ⟨thread, req, op, input, w⟩ := e
    cases op with
    | perform | find | reject | endReplay =>
      refine still ?_ (within_before rfl within) (mutations_kept _ rfl)
      rw [own_unsent]
      exact ite_self _
    | enqueueMutation => exact edited asked rfl rfl
    | insert => exact edited asked.1 rfl rfl
    | beginReplay =>
      by_cases mine : thread = n
      · have nothing : unsent (own machine (log ++ [⟨thread, req, .beginReplay, input, w⟩]) n) = [] := by
          rw [own_unsent, if_pos mine]
          rfl
        rw [nothing]
        exact ⟨List.nodup_nil, fun _ _ there => absurd there List.not_mem_nil⟩
      · rw [own_snoc, if_neg mine] at within
        refine still ?_ within (mutations_kept _ rfl)
        rw [own_unsent, if_neg mine]
    | pendingMutations =>
      have before := within_before rfl within
      cases fails : input.storeFails with
      | true =>
        refine still ?_ before (mutations_kept _ rfl)
        rw [own_unsent]
        simp [Entry.event, Entry.reply, machine, perform, fails, leftAfter]
      | false =>
        by_cases mine : thread = n
        · have read : unsent (own machine (log ++ [⟨thread, req, .pendingMutations, input, w⟩]) n) =
              w.mutations.entries.insertionSort fun a b => a.2.enqueuedAt ≤ b.2.enqueuedAt := by
            rw [own_unsent, if_pos mine]
            simp [Entry.event, Entry.reply, machine, perform, fails, leftAfter]
          have sorted := List.perm_insertionSort
            (fun a b : Target × QueuedApiMutation => a.2.enqueuedAt ≤ b.2.enqueuedAt) w.mutations.entries
          rw [read, mutations_kept _ rfl]
          refine ⟨(sorted.map Prod.fst).nodup_iff.mpr w.mutations.nodup, fun target read there => ?_⟩
          exact ⟨read, OrdMap.get?_eq_some.mpr (sorted.mem_iff.mp there), refl read⟩
        · refine still ?_ before (mutations_kept _ rfl)
          rw [own_unsent, if_neg mine]
    | removeMutation target =>
      have before := within_before rfl within
      obtain ⟨within', mutation, response, next, -⟩ := asked
      obtain rfl : thread = n := within_same earlier before within'
      cases fails : input.storeFails with
      | true =>
        refine still ?_ before ?_
        · rw [own_unsent]
          simp [Entry.event, Entry.reply, machine, perform, fails, leftAfter]
        · simp [Entry.after, machine, perform, fails]
      | false =>
        obtain ⟨distinct, queued⟩ := sofar thread before
        have rest : unsent (own machine (log ++ [⟨thread, req, .removeMutation target, input, w⟩]) thread) =
            (unsent (own machine log thread)).tail := by
          rw [own_unsent, if_pos rfl]
          simp [Entry.event, Entry.reply, machine, perform, fails, leftAfter]
        have erased : (Entry.after machine ⟨thread, req, .removeMutation target, input, w⟩ : World).mutations =
            w.mutations.erase target := by
          simp [Entry.after, machine, perform, fails, World.dequeue]
        rw [rest, erased]
        obtain ⟨left, split⟩ : ∃ left, unsent (own machine log thread) = (target, mutation) :: left :=
          List.head?_eq_some_iff.mp next
        rw [split] at distinct queued ⊢
        obtain ⟨new, distinct⟩ := List.nodup_cons.mp distinct
        refine ⟨distinct, fun other read there => ?_⟩
        obtain ⟨current, found, such⟩ := queued other read (List.mem_cons_of_mem _ there)
        refine ⟨current, ?_, such⟩
        have differs : target ≠ other := by
          rintro rfl
          exact new (List.mem_map.mpr ⟨_, there, rfl⟩)
        have from_ : w = ending machine w₀ log := from_
        rw [OrdMap.get?_erase_ne _ differs, from_]
        exact found

/-! ### In the in-memory store -/

/-- Nothing else is queued when a change is applied, and the server has what is removed. -/
def OnTime (e : Deed) : Prop :=
  match e.op with
  | .perform target body => e.req.edits = true → e.input.applies = true →
    ∀ field v v', body.get? field = some v → e.before.queued target field = some v' → v' = v
  | .removeMutation target => e.input.storeFails = false →
    ∀ field v, e.before.queued target field = some v → e.before.served target field = some v
  | _ => True

/-- The fields of a queued row are still there. -/
def Covers (read current : QueuedApiMutation) : Prop :=
  ∀ field, (read.body.get? field).isSome = true → (current.body.get? field).isSome = true

theorem covers_merged (current : QueuedApiMutation) (body : Body) (enqueuedAt : Nat) :
    Covers current ⟨mergedBody (some current) body, enqueuedAt⟩ := by
  intro field there
  rw [World.mergedBody_get?, Option.bind_some, Option.isSome_or, there, Bool.or_true]

theorem covers_carried : Carries .inMemory w₀ cond Covers := by
  intro log e c recorded edits _ target read current found covers
  have asked := deed_asked recorded
  obtain ⟨thread, req, op, input, w⟩ := e
  cases op with
  | enqueueMutation other body =>
    change ∃ current', (perform (.enqueueMutation other body) input w).2.mutations.get? target = some current' ∧ _
    simp only [perform]
    split
    · exact ⟨current, found, covers⟩
    · rw [World.enqueue, OrdMap.get?_set]
      split
      · rename_i same
        subst same
        have found : w.mutations.get? other = some current := found
        rw [found]
        exact ⟨_, rfl, fun field there => covers_merged current body _ field (covers field there)⟩
      · exact ⟨current, found, covers⟩
  | insert => exact absurd asked.2 (by decide)
  | removeMutation other =>
    have replays := replays_of_within recorded ?_ (List.mem_append_right _ (List.mem_singleton_self _))
    · exact absurd edits (by rw [replays]; decide)
    · rw [own_snoc_self]
      exact asked.1.snoc rfl
  | _ => exact ⟨current, by rw [mutations_kept _ rfl]; exact found, covers⟩

/-- The conditions of one operation, when the programs of the others are taken into account. -/
theorem inTime_iff (recorded : Recorded (system .inMemory) w₀ cond (log ++ [e]) c) : InTime e ↔ OnTime e := by
  obtain ⟨from_, -⟩ := recorded.step
  have asked := deed_asked recorded
  obtain ⟨c', earlier⟩ := recorded.of_append
  obtain ⟨thread, req, op, input, w⟩ := e
  replace from_ : w = ending machine w₀ log := from_
  cases op with
  | perform target body =>
    cases edits : req.edits with
    | true =>
      simp only [InTime, OnTime, edits, if_true, true_implies]
      exact ⟨fun h applied field v v' given queued => h applied field v given v' queued,
        fun h applied field v given v' queued => h applied field v v' given queued⟩
    | false =>
      simp only [InTime, OnTime, edits, Bool.false_eq_true, if_false, false_implies, iff_true]
      intro applied field v given nothing
      obtain ⟨within, mutation, next, rfl⟩ := asked.resolve_left (by simp [edits])
      obtain ⟨-, queued⟩ := held (fun _ _ there => there) covers_carried earlier thread within
      obtain ⟨current, found, covers⟩ := queued target mutation (List.mem_of_mem_head? next)
      have there := covers field (by rw [given]; rfl)
      rw [World.queued, from_, found, Option.bind_some] at nothing
      rw [nothing] at there
      cases there
  | insert => exact absurd asked.2 (by decide)
  | removeMutation => rfl
  | _ => rfl

/-- An edit is applied at once only where nothing else is queued, it is queued during a replay only where
nothing is, and a row is replaced as it was found. What is replayed is not refused. -/
def Careful (e : Deed) : Prop :=
  match e.op with
  | .perform target body =>
    if e.req.edits then e.input.applies = true →
      ∀ field v v', body.get? field = some v → e.before.queued target field = some v' → v' = v
    else ∀ response, e.input.answer = .answered response →
      response.accepted = true ∨ response.isTransient = true
  | .enqueueMutation target _ => e.before.replaying = true → e.before.mutations.get? target = none
  | .insert target found _ _ => e.before.mutations.get? target = found ∧
    (e.before.replaying = true → found = none)
  | _ => True

theorem enqueue_carried {w : World} {target other : Target} {found : Option QueuedApiMutation} {body : Body}
    {enqueuedAt : Nat} {current : QueuedApiMutation} (there : w.mutations.get? target = some current)
    (free : w.mutations.get? other = none) :
    (w.enqueue other found body enqueuedAt).mutations.get? target = some current := by
  have differs : other ≠ target := by
    rintro rfl
    rw [free] at there
    cases there
  rw [World.enqueue, OrdMap.get?_set_ne _ _ differs, there]

/-- The rows that a replay has still to send stay as it has read them. -/
theorem eq_carried : Carries store w₀ (fun _ e => Careful e) Eq := by
  rintro log e c recorded edits replaying target read current found rfl
  have asked := deed_asked recorded
  obtain ⟨-, careful⟩ := recorded.step
  obtain ⟨thread, req, op, input, w⟩ := e
  cases op with
  | enqueueMutation other body =>
    refine ⟨read, ?_, rfl⟩
    change (perform (.enqueueMutation other body) input w).2.mutations.get? target = some read
    simp only [perform]
    split
    · exact found
    · exact enqueue_carried found (careful replaying)
  | insert other row body enqueuedAt =>
    refine ⟨read, ?_, rfl⟩
    change (perform (.insert other row body enqueuedAt) input w).2.mutations.get? target = some read
    simp only [perform]
    split
    · exact found
    · exact enqueue_carried found (careful.1.trans (careful.2 replaying))
  | removeMutation other =>
    have replays := replays_of_within recorded ?_ (List.mem_append_right _ (List.mem_singleton_self _))
    · exact absurd edits (by rw [replays]; decide)
    · rw [own_snoc_self]
      exact asked.1.snoc rfl
  | _ => exact ⟨read, by rw [mutations_kept _ rfl]; exact found, rfl⟩

/-- What a replay has just sent is still queued as it was. -/
theorem queued_of_last (recorded : Recorded (system store) w₀ (fun _ e => Careful e) log c)
    (within : Within (own machine log n)) {target : Target} {body : Body} {response : Option Response}
    (last : (own machine log n).getLast? = some ⟨.perform target body, response⟩) (field : String) :
    (ending machine w₀ log).queued target field = body.get? field := by
  obtain ⟨h, split⟩ := List.getLast?_eq_some_iff.mp last
  obtain ⟨before, e, after, rfl, rfl, same, mine, -⟩ := own_split split
  have asked := recorded.asks (handle_asks store e.req)
  rw [(Entry.of_event same).1] at asked
  have replays := replays_of_within recorded within (List.mem_append_right _ List.mem_cons_self)
  obtain ⟨-, mutation, next, rfl⟩ := asked.resolve_left (by rw [replays]; decide)
  have left : unsent (own machine (before ++ e :: after) e.thread) = unsent h := by
    rw [split, unsent_snoc]
    rfl
  obtain ⟨-, queued⟩ := held (fun _ => rfl) eq_carried recorded e.thread within
  rw [left] at queued
  obtain ⟨current, found, rfl⟩ := queued target mutation (List.mem_of_mem_head? (by rw [← mine]; exact next))
  rw [World.queued, found, Option.bind_some]

theorem answer_of_reply {target : Target} {body : Body} {env : Env} {w : World} {response : Response}
    (replied : (perform (.perform target body) env w).1 = some response) : env.answer = .answered response := by
  simp only [perform] at replied
  split at replied
  · rename_i answer
    rw [answer, Option.some.inj replied]
  · cases replied

/-- What is removed was not refused. -/
theorem settled_of_last (recorded : Recorded (system store) w₀ (fun _ e => Careful e) log c)
    (within : Within (own machine log n)) {target : Target} {body : Body} {response : Response}
    (last : (own machine log n).getLast? = some ⟨.perform target body, some response⟩) :
    response.accepted = true ∨ response.isTransient = true := by
  obtain ⟨e, done, rfl, same⟩ := mem_own.mp (List.mem_of_getLast? last)
  have replays := replays_of_within recorded within done
  obtain ⟨before, after, rfl⟩ := List.append_of_mem done
  obtain ⟨-, careful⟩ := recorded.step
  obtain ⟨asked, replied⟩ := Entry.of_event same
  obtain ⟨thread, req, op, input, w⟩ := e
  obtain rfl : op = .perform target body := asked
  replace replays : req.edits = false := replays
  simp only [Careful, replays, Bool.false_eq_true, if_false] at careful
  exact careful response (answer_of_reply replied)

/-- What was just accepted of a replay is what the server has. -/
theorem accepted_served (recorded : Recorded (system store) w₀ (fun _ e => Careful e) log c)
    (within : Within (own machine log n)) {target : Target} {body : Body} {response : Response}
    (last : (own machine log n).getLast? = some ⟨.perform target body, some response⟩)
    (accepted : response.accepted = true) {field : String} {v : Value} (given : body.get? field = some v) :
    (ending machine w₀ log).served target field = some v := by
  refine recorded.induct (P := fun log => Within (own machine log n) →
    (own machine log n).getLast? = some ⟨.perform target body, some response⟩ →
      (ending machine w₀ log).served target field = some v) ?_ ?_ within last
  · intro within
    cases within
  · intro log e c recorded from_ careful ih within last
    rw [ending_snoc]
    by_cases mine : e.thread = n
    · subst mine
      rw [own_snoc_self, List.getLast?_concat] at last
      obtain ⟨asked, replied⟩ := Entry.of_event (Option.some.inj last)
      obtain ⟨thread, req, op, input, w⟩ := e
      obtain rfl : op = .perform target body := asked
      have answer := answer_of_reply replied
      have applies : input.applies = true := by
        rw [Env.applies, answer]
        exact accepted
      change (perform (.perform target body) input w).2.served target field = some v
      simp only [perform, applies, if_true, World.served_accept]
      rw [given, Option.some_or]
    · obtain ⟨c', earlier⟩ := recorded.of_append
      rw [own_snoc, if_neg mine] at within last
      replace from_ : e.before = ending machine w₀ log := from_
      have before := ih within last
      rw [← from_] at before
      have queued := queued_of_last earlier within last field
      rw [given] at queued
      have asked := deed_asked recorded
      obtain ⟨thread, req, op, input, w⟩ := e
      replace from_ : w = ending machine w₀ log := from_
      replace before : w.served target field = some v := before
      rw [← from_] at queued
      change (perform op input w).2.served target field = some v
      cases op with
      | perform other body' =>
        have edits : req.edits = true := asked.resolve_right fun replays =>
          mine (within_same earlier within replays.1)
        simp only [Careful, edits, if_true] at careful
        simp only [perform]
        split
        · rename_i applies
          rw [World.served_accept]
          split
          · rename_i same
            subst same
            cases given' : body'.get? field with
            | none => rw [Option.none_or, before]
            | some v' => rw [Option.some_or, careful applies field v' v given' queued]
          · exact before
        · exact before
      | beginReplay | endReplay | reject => exact before
      | pendingMutations | find | enqueueMutation | insert | removeMutation =>
        simp only [perform]
        split <;> exact before

theorem inTime_of_careful (recorded : Recorded (system store) w₀ (fun _ e => Careful e) (log ++ [e]) c) :
    InTime e := by
  obtain ⟨from_, careful⟩ := recorded.step
  have asked := deed_asked recorded
  obtain ⟨c', earlier⟩ := recorded.of_append
  obtain ⟨thread, req, op, input, w⟩ := e
  replace from_ : w = ending machine w₀ log := from_
  cases op with
  | perform target body =>
    cases edits : req.edits with
    | true =>
      simp only [Careful, edits, if_true] at careful
      simp only [InTime, edits, if_true]
      exact fun applied field v given v' queued => careful applied field v v' given queued
    | false =>
      simp only [InTime, edits, Bool.false_eq_true, if_false]
      intro applied field v given nothing
      obtain ⟨within, mutation, next, rfl⟩ := asked.resolve_left (by simp [edits])
      obtain ⟨-, queued⟩ := held (fun _ => rfl) eq_carried earlier thread within
      obtain ⟨current, found, rfl⟩ := queued target mutation (List.mem_of_mem_head? next)
      rw [World.queued, from_, found, Option.bind_some, given] at nothing
      cases nothing
  | insert target found body enqueuedAt =>
    intro _ field _
    have found : w.mutations.get? target = found := careful.1
    rw [← found]
    rfl
  | removeMutation target =>
    intro _ field v queued
    obtain ⟨within, mutation, response, next, last, settled⟩ := asked
    have same := queued_of_last earlier within last field
    replace queued : w.queued target field = some v := queued
    rw [← from_, queued] at same
    have accepted : response.accepted = true := by
      rcases settled_of_last earlier within last with accepted | transient
      · exact accepted
      · exact settled.resolve_right (by rw [transient]; decide)
    rw [← accepted_served earlier within last accepted same.symm, ← from_]
  | _ => trivial

end Runs

/-! ### A note that is changed again -/

section Example

def ok : Env := { answer := .answered ⟨200, false⟩ }

def offline : Env := { answer := .lost false }

def noteOf (note : String) : Request := .updateTransactionPreferences "t1" { note := some note }

def turns (n : Nat) : List Env → List (Pool.Move Env Request) := List.map (.run n)

/-- The conditions, on the fields that are there. Rows that are replaced are left aside. -/
def checked (e : Deed) : Bool :=
  match e.op with
  | .perform target body =>
    if e.req.edits then
      !e.input.applies || body.entries.all fun entry => (e.before.queued target entry.1).all (· = entry.2)
    else
      match e.input.answer with
      | .answered response => response.accepted || response.isTransient
      | .lost _ => true
  | .enqueueMutation target _ => !e.before.replaying || (e.before.mutations.get? target).isNone
  | .removeMutation target => (e.before.mutations.get? target).all fun mutation =>
    mutation.body.entries.all fun entry => e.before.served target entry.1 = some entry.2
  | .insert .. => false
  | _ => true

theorem onTime_of_checked {e : Deed} (checks : checked e = true) : OnTime e := by
  obtain ⟨thread, req, op, input, w⟩ := e
  cases op with
  | perform target body =>
    intro edits applies field v v' given queued
    simp only [checked, edits, applies, if_true, Bool.not_true, Bool.false_or] at checks
    have agrees := List.all_eq_true.mp checks (field, v) (OrdMap.get?_eq_some.mp given)
    rw [queued] at agrees
    exact of_decide_eq_true agrees
  | removeMutation target =>
    intro _ field v queued
    obtain ⟨mutation, found, given⟩ := Option.bind_eq_some_iff.mp queued
    simp only [checked] at checks
    rw [found] at checks
    exact of_decide_eq_true (List.all_eq_true.mp checks (field, v) (OrdMap.get?_eq_some.mp given))
  | _ => trivial

theorem careful_of_checked {e : Deed} (checks : checked e = true) : Careful e := by
  obtain ⟨thread, req, op, input, w⟩ := e
  cases op with
  | perform target body =>
    cases edits : req.edits with
    | true =>
      simp only [Careful, edits, if_true]
      exact onTime_of_checked checks edits
    | false =>
      simp only [Careful, edits, Bool.false_eq_true, if_false]
      intro response answer
      simp only [checked, edits, Bool.false_eq_true, if_false] at checks
      rw [answer] at checks
      exact (Bool.or_eq_true _ _).mp checks
  | enqueueMutation target body =>
    intro replaying
    simp only [checked] at checks
    rw [replaying, Bool.not_true, Bool.false_or] at checks
    exact Option.isNone_iff_eq_none.mp checks
  | insert => cases checks
  | _ => trivial

/-- A note is set offline and replayed, and set again when there is a connection. -/
def noteReplayed : Pool.Course ports Env World Request (Except ClientError (Option Nat)) :=
  Pool.courseUnder (system .inMemory) (fun _ e => checked e) {}
    (.start (noteOf "with Sam") :: turns 0 [offline, {}] ++
      .start .replayOfflineMutations :: turns 1 [{}, {}, ok, {}, {}] ++ .start (noteOf "with Ada") :: turns 2 [ok])

/-- The note is set again offline while the first one is on its way: the replay removes both. -/
def noteOverlapped : Pool.Course ports Env World Request (Except ClientError (Option Nat)) :=
  Pool.course (system .inMemory) {}
    (.start (noteOf "with Sam") :: turns 0 [offline, {}] ++ .start .replayOfflineMutations :: turns 1 [{}, {}, ok] ++
      .start (noteOf "with Ada") :: turns 2 [offline, {}] ++ turns 1 [{}, {}])

example : (noteOverlapped.2.state.mutations.entries.length,
    noteOverlapped.2.state.shown ⟨"PATCH", "/transactions/t1/preferences"⟩ "note",
    lastSet {} noteOverlapped.1 ⟨"PATCH", "/transactions/t1/preferences"⟩ "note") =
      (0, some (.text "with Sam"), some (.text "with Ada")) := by decide +kernel

end Example

end Finverse.Mobile.Offline
