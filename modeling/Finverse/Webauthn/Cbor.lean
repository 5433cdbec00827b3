import Finverse.Framework.Doubles

/-! The decoder of CBOR, as much as an attestation object needs. -/

namespace Finverse.Webauthn

/-- What is decoded. Two byte strings, arrays or maps are two objects, also when they have the same content. -/
inductive CborValue
  | number (n : Int)
  | boolean (b : Bool)
  | null
  | bytes (content : List UInt8)
  | text (s : String)
  | array (items : List CborValue)
  | map (entries : List (CborValue × CborValue))

def MAX_CBOR_BYTES : Nat := 24 * 1024

def MAX_CBOR_DEPTH : Nat := 16

def MAX_CBOR_ITEMS : Nat := 1024

inductive CborError
  | error (message : String)
  /-- A loop has had its turns. -/
  | outOfTurns
  deriving DecidableEq

/-! ### Maps and numbers of the runtime -/

/-- Whether two keys are one in a map. -/
def CborValue.sameKey : CborValue → CborValue → Bool
  | .number m, .number n => m = n
  | .boolean a, .boolean b => a = b
  | .null, .null => true
  | .text s, .text t => s = t
  | _, _ => false

/-- `Map.prototype.set` -/
def setEntry (entries : List (CborValue × CborValue)) (key value : CborValue) : List (CborValue × CborValue) :=
  if entries.any fun entry => key.sameKey entry.1 then
    entries.map fun entry => if key.sameKey entry.1 then (entry.1, value) else entry
  else entries ++ [(key, value)]

/-- `Map.prototype.get` -/
def getEntry (entries : List (CborValue × CborValue)) (key : CborValue) : Option CborValue :=
  (entries.find? fun entry => key.sameKey entry.1).map Prod.snd

/-- `Number` of a whole number. -/
def toNumber (n : Int) : Int := ⌊Doubles.nearest n⌋

/-- The text that bytes are in UTF-8; the runtime replaces what is none. -/
def utf8Text (replaced : List UInt8 → String) (content : List UInt8) : String :=
  (String.fromUTF8? content.toByteArray).getD (replaced content)

/-! ### Reading -/

structure Reader where
  offset : Int
  decodedItems : Nat
  deriving DecidableEq

abbrev Decoder := EStateM CborError Reader

/-- `if (bad) throw new Error(message)` -/
def refuse (bad : Prop) [Decidable bad] (message : String) : Decoder Unit :=
  if bad then throw (.error message) else pure ()

section Decode

variable (replaced : List UInt8 → String) (data : List UInt8)

/-- `data[offset]` -/
def byteAt (offset : Int) : Option UInt8 := if offset < 0 then none else data[offset.toNat]?

def takeByte : Decoder UInt8 := do
  let reader ← get
  match byteAt data reader.offset with
  | none => throw (.error "CBOR: truncated input")
  | some byte =>
    set { reader with offset := reader.offset + 1 }
    return byte

/-- `n = n * 256n + BigInt(takeByte())`, so many times -/
def takeBigInt : Nat → Nat → Decoder Nat
  | 0, n => return n
  | count + 1, n => do
    let byte ← takeByte data
    takeBigInt count (n * 256 + byte.toNat)

/-- The value behind an initial byte, or -1 for the marker of an indefinite length. -/
def takeValue (additional : Nat) : Decoder Int := do
  if additional < 24 then return additional
  else if additional = 24 then
    let byte ← takeByte data
    return byte.toNat
  else if additional = 25 then
    let high ← takeByte data
    let low ← takeByte data
    return ((high.toNat <<< 8) ||| low.toNat : Nat)
  else if additional = 26 then
    let a ← takeByte data
    let b ← takeByte data
    let c ← takeByte data
    let d ← takeByte data
    return (a.toNat * 2 ^ 24 + b.toNat * 2 ^ 16 + c.toNat * 2 ^ 8 + d.toNat : Nat)
  else if additional = 27 then
    let n ← takeBigInt data 8 0
    return n
  else if additional = 31 then return -1
  else throw (.error "CBOR: unsupported additional info")

/-- `data.subarray(offset, offset + length)`, and the offset moves on. -/
def takeSlice (length : Int) (message : String) : Decoder (List UInt8) := do
  let reader ← get
  refuse (data.length < reader.offset + length) message
  set { reader with offset := reader.offset + length }
  return (data.drop reader.offset.toNat).take length.toNat

section Containers

variable (item : Decoder CborValue)

def takeItems : Nat → Decoder (List CborValue)
  | 0 => return []
  | count + 1 => do
    let first ← item
    let rest ← takeItems count
    return first :: rest

def takeEntries : Nat → List (CborValue × CborValue) → Decoder (List (CborValue × CborValue))
  | 0, entries => return entries
  | count + 1, entries => do
    let key ← item
    let value ← item
    takeEntries count (setEntry entries key value)

/-- The entries up to the break, in so many turns. -/
def takeUntilBreak : Nat → List (CborValue × CborValue) → Decoder (List (CborValue × CborValue))
  | 0, _ => throw .outOfTurns
  | turns + 1, entries => do
    let reader ← get
    if byteAt data reader.offset = some 0xff then
      set { reader with offset := reader.offset + 1 }
      return entries
    else
      let key ← item
      let value ← item
      takeUntilBreak turns (setEntry entries key value)

end Containers

/-- One item more, or too many. -/
def countItem : Decoder Unit := do
  modify fun reader => { reader with decodedItems := reader.decodedItems + 1 }
  let reader ← get
  refuse (MAX_CBOR_ITEMS < reader.decodedItems) "CBOR: item limit exceeded"

/-- What the major type makes of a value. -/
def decodeMajor (turns : Nat) (item : Decoder CborValue) (major additional : Nat) (value : Int) :
    Decoder CborValue :=
  match major with
  | 0 => return .number (toNumber value)
  | 1 => return .number (toNumber (-1 - toNumber value))
  | 2 => do
    let length := toNumber value
    refuse (length < 0) "CBOR: indefinite byte strings not supported"
    let content ← takeSlice data length "CBOR: truncated byte string"
    return .bytes content
  | 3 => do
    let content ← takeSlice data (toNumber value) "CBOR: truncated text string"
    return .text (utf8Text replaced content)
  | 4 => do
    let length := toNumber value
    refuse (length < 0) "CBOR: indefinite arrays not supported"
    let reader ← get
    refuse (MAX_CBOR_ITEMS - reader.decodedItems < length) "CBOR: item limit exceeded"
    let items ← takeItems item length.toNat
    return .array items
  | 5 => do
    let entries ← if additional = 31 then takeUntilBreak data item turns []
      else takeEntries item (toNumber value).toNat []
    return .map entries
  | 6 => item
  | 7 =>
    match additional with
    | 20 => return .boolean false
    | 21 => return .boolean true
    | 22 => return .null
    | _ => throw (.error "CBOR: unsupported simple value")
  | _ => throw (.error "CBOR: unsupported major type")

/-- `decode` at a depth that leaves so much room below the maximum. -/
def decode (turns : Nat) : Nat → Decoder CborValue
  | 0 => throw (.error "CBOR: maximum nesting depth exceeded")
  | room + 1 => do
    countItem
    let initial ← takeByte data
    let additional := initial.toNat &&& 0x1f
    let value ← takeValue data additional
    decodeMajor replaced data turns (decode turns room) (initial.toNat >>> 5) additional value

/-- An indefinite map has no more entries than there are items. -/
def decodeCbor : Except CborError CborValue :=
  if data.length = 0 ∨ MAX_CBOR_BYTES < data.length then
    .error (.error "CBOR: input size is outside the supported WebAuthn bounds")
  else
    match (decode replaced data (MAX_CBOR_ITEMS + 1) (MAX_CBOR_DEPTH + 1)).run ⟨0, 0⟩ with
    | .error e _ => .error e
    | .ok value reader =>
      if reader.offset ≠ data.length then .error (.error "CBOR: trailing input") else .ok value

end Decode

end Finverse.Webauthn
