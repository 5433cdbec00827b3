import Finverse.Webauthn.CborReading

/-! The decoder with a journal: every call of `decode`, and every place the offset has been at. -/

namespace Finverse.Webauthn

open Attempts

structure Journal where
  /-- The depths of the calls, the latest one first. -/
  calls : List Nat
  offsets : List Int

/-- A step of the decoder with the journal beside its state. -/
abbrev Watched := EStateM CborError (Reader × Journal)

/-- A step that sets the offset once at most, and the place where it leaves it. -/
def watch {α : Type} (x : Decoder α) : Watched α := fun s =>
  match x.run s.1 with
  | .ok a r => .ok a (r, { s.2 with offsets := r.offset :: s.2.offsets })
  | .error e r => .error e (r, { s.2 with offsets := r.offset :: s.2.offsets })

namespace Watched

/-- A call of `decode`. -/
def enter (depth : Nat) : Watched Unit := modify fun s => (s.1, { s.2 with calls := depth :: s.2.calls })

section Decode

variable (replaced : List UInt8 → String) (data : List UInt8)

def takeBigInt : Nat → Nat → Watched Nat
  | 0, n => return n
  | count + 1, n => do
    let byte ← watch (takeByte data)
    takeBigInt count (n * 256 + byte.toNat)

def takeValue (additional : Nat) : Watched Int := do
  if additional < 24 then return additional
  else if additional = 24 then
    let byte ← watch (takeByte data)
    return byte.toNat
  else if additional = 25 then
    let high ← watch (takeByte data)
    let low ← watch (takeByte data)
    return ((high.toNat <<< 8) ||| low.toNat : Nat)
  else if additional = 26 then
    let a ← watch (takeByte data)
    let b ← watch (takeByte data)
    let c ← watch (takeByte data)
    let d ← watch (takeByte data)
    return (a.toNat * 2 ^ 24 + b.toNat * 2 ^ 16 + c.toNat * 2 ^ 8 + d.toNat : Nat)
  else if additional = 27 then
    let n ← takeBigInt data 8 0
    return n
  else if additional = 31 then return -1
  else throw (.error "CBOR: unsupported additional info")

section Containers

variable (item : Watched CborValue)

def takeItems : Nat → Watched (List CborValue)
  | 0 => return []
  | count + 1 => do
    let first ← item
    let rest ← takeItems count
    return first :: rest

def takeEntries : Nat → List (CborValue × CborValue) → Watched (List (CborValue × CborValue))
  | 0, entries => return entries
  | count + 1, entries => do
    let key ← item
    let value ← item
    takeEntries count (setEntry entries key value)

def takeUntilBreak : Nat → List (CborValue × CborValue) → Watched (List (CborValue × CborValue))
  | 0, _ => throw .outOfTurns
  | turns + 1, entries => do
    let reader ← watch get
    if byteAt data reader.offset = some 0xff then
      watch (set { reader with offset := reader.offset + 1 })
      return entries
    else
      let key ← item
      let value ← item
      takeUntilBreak turns (setEntry entries key value)

end Containers

def decodeMajor (turns : Nat) (item : Watched CborValue) (major additional : Nat) (value : Int) :
    Watched CborValue :=
  match major with
  | 0 => return .number (toNumber value)
  | 1 => return .number (toNumber (-1 - toNumber value))
  | 2 => do
    let length := toNumber value
    watch (refuse (length < 0) "CBOR: indefinite byte strings not supported")
    let content ← watch (takeSlice data length "CBOR: truncated byte string")
    return .bytes content
  | 3 => do
    let content ← watch (takeSlice data (toNumber value) "CBOR: truncated text string")
    return .text (utf8Text replaced content)
  | 4 => do
    let length := toNumber value
    watch (refuse (length < 0) "CBOR: indefinite arrays not supported")
    let reader ← watch get
    watch (refuse (MAX_CBOR_ITEMS - reader.decodedItems < length) "CBOR: item limit exceeded")
    let items ← takeItems item length.toNat
    return .array items
  | 5 => do
    let entries ← if additional = 31 then takeUntilBreak data item turns []
      else takeEntries item (toNumber value).toNat []
    return .map entries
  | 6 => item
  | 7 =>
    match additional with
    | 20 => return .boolean false
    | 21 => return .boolean true
    | 22 => return .null
    | _ => throw (.error "CBOR: unsupported simple value")
  | _ => throw (.error "CBOR: unsupported major type")

def decode (turns : Nat) : Nat → Watched CborValue
  | 0 => do
    enter (MAX_CBOR_DEPTH + 1)
    throw (.error "CBOR: maximum nesting depth exceeded")
  | room + 1 => do
    enter (MAX_CBOR_DEPTH - room)
    watch countItem
    let initial ← watch (takeByte data)
    let additional := initial.toNat &&& 0x1f
    let value ← takeValue data additional
    decodeMajor replaced data turns (decode turns room) (initial.toNat >>> 5) additional value

/-- What comes of the bytes, and the journal of it. -/
def decodeCbor : Except CborError CborValue × Journal :=
  if data.length = 0 ∨ MAX_CBOR_BYTES < data.length then
    (.error (.error "CBOR: input size is outside the supported WebAuthn bounds"), ⟨[], []⟩)
  else
    match (decode replaced data (MAX_CBOR_ITEMS + 1) (MAX_CBOR_DEPTH + 1)).run (⟨0, 0⟩, ⟨[], [0]⟩) with
    | .error e s => (.error e, s.2)
    | .ok value s =>
      if s.1.offset ≠ data.length then (.error (.error "CBOR: trailing input"), s.2) else (.ok value, s.2)

end Decode

end Watched

/-! ### Without the journal -/

section Erasure

variable {α β : Type} {replaced : List UInt8 → String} {data : List UInt8}

def forget : EStateM.Result CborError (Reader × Journal) α → EStateM.Result CborError Reader α
  | .ok a s => .ok a s.1
  | .error e s => .error e s.1

/-- The watched step does what the step does. -/
def Erases (x : Watched α) (y : Decoder α) : Prop := ∀ s, forget (x.run s) = y.run s.1

namespace Erases

theorem pure (a : α) : Erases (pure a) (pure a) := fun _ => rfl

theorem throw (e : CborError) : Erases (throw e : Watched α) (throw e) := fun _ => rfl

theorem watch (y : Decoder α) : Erases (watch y) y := by
  intro s
  change forget (Webauthn.watch y s) = y.run s.1
  unfold Webauthn.watch
  cases y.run s.1 with
  | ok a r => rfl
  | error e r => rfl

theorem bind {x : Watched α} {y : Decoder α} {f : α → Watched β} {g : α → Decoder β} (first : Erases x y)
    (rest : ∀ a, Erases (f a) (g a)) : Erases (x >>= f) (y >>= g) := by
  intro s
  have one := first s
  rw [EStateM.run_bind, EStateM.run_bind, ← one]
  cases x.run s with
  | ok a t => exact rest a t
  | error e t => rfl

theorem enter {x : Watched α} {y : Decoder α} (depth : Nat) (rest : Erases x y) :
    Erases (do Watched.enter depth; x) y := fun s => rest (s.1, { s.2 with calls := depth :: s.2.calls })

theorem takeBigInt (count n : Nat) : Erases (Watched.takeBigInt data count n) (takeBigInt data count n) := by
  induction count generalizing n with
  | zero => exact pure n
  | succ count ih => exact (watch _).bind fun byte => ih _

theorem takeValue (additional : Nat) : Erases (Watched.takeValue data additional) (takeValue data additional) := by
  unfold Watched.takeValue Webauthn.takeValue
  split
  · exact pure _
  split
  · exact (watch _).bind fun _ => pure _
  split
  · exact (watch _).bind fun _ => (watch _).bind fun _ => pure _
  split
  · exact (watch _).bind fun _ => (watch _).bind fun _ => (watch _).bind fun _ => (watch _).bind fun _ => pure _
  split
  · exact (takeBigInt _ _).bind fun _ => pure _
  split
  · exact pure _
  · exact throw _

variable {x : Watched CborValue} {y : Decoder CborValue}

theorem takeItems (item : Erases x y) (count : Nat) : Erases (Watched.takeItems x count) (takeItems y count) := by
  induction count with
  | zero => exact pure []
  | succ count ih => exact item.bind fun first => ih.bind fun rest => pure _

theorem takeEntries (item : Erases x y) (count : Nat) (entries : List (CborValue × CborValue)) :
    Erases (Watched.takeEntries x count entries) (takeEntries y count entries) := by
  induction count generalizing entries with
  | zero => exact pure entries
  | succ count ih => exact item.bind fun key => item.bind fun value => ih _

theorem takeUntilBreak (item : Erases x y) (turns : Nat) (entries : List (CborValue × CborValue)) :
    Erases (Watched.takeUntilBreak data x turns entries) (takeUntilBreak data y turns entries) := by
  induction turns generalizing entries with
  | zero => exact throw _
  | succ turns ih =>
    refine (watch get).bind fun reader => ?_
    split
    · exact (watch _).bind fun _ => pure _
    · exact item.bind fun key => item.bind fun value => ih _

theorem decodeMajor (item : Erases x y) (turns major additional : Nat) (value : Int) :
    Erases (Watched.decodeMajor replaced data turns x major additional value)
      (decodeMajor replaced data turns y major additional value) := by
  unfold Watched.decodeMajor Webauthn.decodeMajor
  split
  · exact pure _
  · exact pure _
  · exact (watch _).bind fun _ => (watch _).bind fun _ => pure _
  · exact (watch _).bind fun _ => pure _
  · exact (watch _).bind fun _ => (watch _).bind fun _ => (watch _).bind fun _ =>
      (takeItems item _).bind fun _ => pure _
  · split
    · exact (takeUntilBreak item turns []).bind fun _ => pure _
    · exact (takeEntries item _ []).bind fun _ => pure _
  · exact item
  · repeat' first
      | exact pure _
      | exact throw _
      | contradiction
      | split
  · repeat' first
      | exact throw _
      | contradiction
      | split

theorem decode (turns room : Nat) :
    Erases (Watched.decode replaced data turns room) (decode replaced data turns room) := by
  induction room with
  | zero => exact enter _ (throw _)
  | succ room ih =>
    exact enter _ ((watch countItem).bind fun _ => (watch _).bind fun initial =>
      (takeValue _).bind fun value => decodeMajor ih turns _ _ value)

end Erases

theorem watched_decodeCbor (replaced : List UInt8 → String) (data : List UInt8) :
    (Watched.decodeCbor replaced data).1 = decodeCbor replaced data := by
  unfold Watched.decodeCbor decodeCbor
  split
  · rfl
  · have same := @Erases.decode replaced data (MAX_CBOR_ITEMS + 1) (MAX_CBOR_DEPTH + 1) (⟨0, 0⟩, ⟨[], [0]⟩)
    rw [← same]
    cases (Watched.decode replaced data (MAX_CBOR_ITEMS + 1) (MAX_CBOR_DEPTH + 1)).run (⟨0, 0⟩, ⟨[], [0]⟩) with
    | ok value s =>
      simp only [forget]
      split <;> rfl
    | error e s => rfl

end Erasure

end Finverse.Webauthn
