import Mathlib.Algebra.GroupWithZero.Nat
import Mathlib.Data.List.Basic
import Mathlib.Tactic.Common

/-! What the directory of an uploaded workbook declares, before anything of it is inflated. -/

namespace Finverse.Workbook

def MAX_DECOMPRESSED_BYTES : Nat := 10 * 1024 * 1024

def MAX_ZIP_ENTRIES : Nat := 512

/-- A read beyond the buffer throws, as a refused archive does. -/
inductive ZipError
  | outOfRange (offset : Nat)
  | refused (message : String)
  deriving DecidableEq, Repr

/-! ### Reading -/

def byteAt (bytes : ByteArray) (offset : Nat) : Nat := (bytes.data.getD offset 0).toNat

def uint16At (bytes : ByteArray) (offset : Nat) : Nat :=
  byteAt bytes offset + 2 ^ 8 * byteAt bytes (offset + 1)

def uint32At (bytes : ByteArray) (offset : Nat) : Nat :=
  uint16At bytes offset + 2 ^ 16 * uint16At bytes (offset + 2)

def readUInt16LE (bytes : ByteArray) (offset : Nat) : Except ZipError Nat :=
  if offset + 2 ≤ bytes.size then .ok (uint16At bytes offset) else .error (.outOfRange offset)

def readUInt32LE (bytes : ByteArray) (offset : Nat) : Except ZipError Nat :=
  if offset + 4 ≤ bytes.size then .ok (uint32At bytes offset) else .error (.outOfRange offset)

def throwIf (c : Prop) [Decidable c] (message : String) : Except ZipError Unit :=
  if c then .error (.refused message) else .ok ()

/-! ### The check -/

def endSignature : Nat := 0x06054b50

def entrySignature : Nat := 0x02014b50

/-- The last end record from `offset` down to `minimumEnd`. -/
def findEnd (bytes : ByteArray) (minimumEnd : Nat) : Nat → Except ZipError (Option Nat)
  | 0 => do
    if 0 < minimumEnd then return none
    if (← readUInt32LE bytes 0) = endSignature then return some 0
    return none
  | offset + 1 => do
    if offset + 1 < minimumEnd then return none
    if (← readUInt32LE bytes (offset + 1)) = endSignature then return some (offset + 1)
    findEnd bytes minimumEnd offset

/-- One entry of the directory: where the next one starts, and the total so far. -/
def readEntry (bytes : ByteArray) (eocd cursor total : Nat) : Except ZipError (Nat × Nat) := do
  throwIf (cursor + 46 > eocd) "The XLSX ZIP directory contains a malformed entry."
  throwIf ((← readUInt32LE bytes cursor) ≠ entrySignature)
    "The XLSX ZIP directory contains a malformed entry."
  let compressedSize ← readUInt32LE bytes (cursor + 20)
  let uncompressedSize ← readUInt32LE bytes (cursor + 24)
  let nameLength ← readUInt16LE bytes (cursor + 28)
  let extraLength ← readUInt16LE bytes (cursor + 30)
  let commentLength ← readUInt16LE bytes (cursor + 32)
  let localOffset ← readUInt32LE bytes (cursor + 42)
  throwIf (compressedSize = 0xffffffff ∨ uncompressedSize = 0xffffffff ∨ localOffset = 0xffffffff)
    "ZIP64 XLSX archives are not supported."
  let recordLength := 46 + nameLength + extraLength + commentLength
  throwIf (cursor + recordLength > eocd ∨ localOffset ≥ bytes.size)
    "The XLSX ZIP directory contains an out-of-bounds entry."
  throwIf (uncompressedSize > MAX_DECOMPRESSED_BYTES ∨ compressedSize > bytes.size)
    "The XLSX decompressed size exceeds the safety limit."
  throwIf (total + uncompressedSize > MAX_DECOMPRESSED_BYTES)
    "The XLSX decompressed size exceeds the safety limit."
  return (cursor + recordLength, total + uncompressedSize)

/-- `entries` entries from `cursor` on; answers where the last one ends. -/
def readEntries (bytes : ByteArray) (eocd : Nat) : Nat → Nat → Nat → Except ZipError Nat
  | 0, cursor, _ => return cursor
  | entries + 1, cursor, total => do
    let (next, sum) ← readEntry bytes eocd cursor total
    readEntries bytes eocd entries next sum

def assertZipExpansionBudget (bytes : ByteArray) : Except ZipError Unit := do
  throwIf (bytes.size < 22) "The XLSX file is missing a valid ZIP directory."
  match ← findEnd bytes (bytes.size - (22 + 0xffff)) (bytes.size - 22) with
  | none => throw (.refused "The XLSX file is missing a valid ZIP directory.")
  | some eocd =>
    let disk ← readUInt16LE bytes (eocd + 4)
    let directoryDisk ← readUInt16LE bytes (eocd + 6)
    let entriesOnDisk ← readUInt16LE bytes (eocd + 8)
    let entries ← readUInt16LE bytes (eocd + 10)
    let directorySize ← readUInt32LE bytes (eocd + 12)
    let directoryOffset ← readUInt32LE bytes (eocd + 16)
    throwIf (disk ≠ 0 ∨ directoryDisk ≠ 0 ∨ entriesOnDisk ≠ entries ∨ entries = 0 ∨
        entries > MAX_ZIP_ENTRIES)
      "The XLSX ZIP directory is invalid or contains too many entries."
    throwIf (directorySize > bytes.size ∨ directoryOffset > bytes.size ∨
        directoryOffset + directorySize > eocd)
      "The XLSX ZIP directory is outside the uploaded file."
    let cursor ← readEntries bytes eocd entries directoryOffset 0
    throwIf (cursor ≠ directoryOffset + directorySize) "The XLSX ZIP directory length is invalid."

/-! ### What a check that passes has seen -/

/-- No read was out of range, and an answer is as `post` says. -/
def Yields {α : Type} (post : α → Prop) : Except ZipError α → Prop
  | .ok a => post a
  | .error (.refused _) => True
  | .error (.outOfRange _) => False

section Yields

variable {α β : Type} {post : α → Prop} {bytes : ByteArray} {offset : Nat}

theorem Yields.pure {a : α} (h : post a) : Yields post (pure a : Except ZipError α) := h

theorem Yields.bind {post' : β → Prop} {r : Except ZipError α} {f : α → Except ZipError β}
    (first : Yields post r) (later : ∀ a, post a → Yields post' (f a)) : Yields post' (r >>= f) := by
  cases r with
  | ok a => exact later a first
  | error e =>
    cases e with
    | outOfRange offset => exact first
    | refused message => trivial

theorem Yields.mono {post' : α → Prop} {r : Except ZipError α} (h : Yields post r)
    (weaker : ∀ a, post a → post' a) : Yields post' r := by
  cases r with
  | ok a => exact weaker a h
  | error e =>
    cases e with
    | outOfRange offset => exact h
    | refused message => trivial

theorem readUInt16LE_yields (inside : offset + 2 ≤ bytes.size) :
    Yields (· = uint16At bytes offset) (readUInt16LE bytes offset) := by
  rw [readUInt16LE, if_pos inside]
  rfl

theorem readUInt32LE_yields (inside : offset + 4 ≤ bytes.size) :
    Yields (· = uint32At bytes offset) (readUInt32LE bytes offset) := by
  rw [readUInt32LE, if_pos inside]
  rfl

theorem throwIf_yields (c : Prop) [Decidable c] (message : String) :
    Yields (fun _ => ¬c) (throwIf c message) := by
  by_cases h : c
  · simp [throwIf, h, Yields]
  · simp [throwIf, h, Yields]

end Yields

/-- How much of the directory the entry at `offset` takes. -/
def entryLength (bytes : ByteArray) (offset : Nat) : Nat :=
  46 + uint16At bytes (offset + 28) + uint16At bytes (offset + 30) + uint16At bytes (offset + 32)

/-- Entries start at `offsets`, one right after another, and take all from `start` to `stop`. -/
def Tiles (bytes : ByteArray) (start stop : Nat) : List Nat → Prop
  | [] => start = stop
  | offset :: offsets => offset = start ∧ uint32At bytes offset = entrySignature ∧
      Tiles bytes (offset + entryLength bytes offset) stop offsets

/-- The uncompressed size that the entry at `offset` declares. -/
def declaredSize (bytes : ByteArray) (offset : Nat) : Nat := uint32At bytes (offset + 24)

/-- The last end record of the file is at `eocd`. -/
structure EndRecord (bytes : ByteArray) (eocd : Nat) : Prop where
  inside : eocd + 22 ≤ bytes.size
  signature : uint32At bytes eocd = endSignature
  last : ∀ offset, eocd < offset → offset + 22 ≤ bytes.size → uint32At bytes offset ≠ endSignature

/-- The directory that the end record at `eocd` tells of, with entries at `offsets`. -/
structure Directory (bytes : ByteArray) (eocd : Nat) (offsets : List Nat) : Prop where
  endRecord : EndRecord bytes eocd
  count : offsets.length = uint16At bytes (eocd + 10)
  few : 1 ≤ offsets.length ∧ offsets.length ≤ MAX_ZIP_ENTRIES
  tiles : Tiles bytes (uint32At bytes (eocd + 16))
    (uint32At bytes (eocd + 16) + uint32At bytes (eocd + 12)) offsets
  inside : uint32At bytes (eocd + 16) + uint32At bytes (eocd + 12) ≤ eocd
  local_lt : ∀ offset ∈ offsets, uint32At bytes (offset + 42) < bytes.size
  budget : (offsets.map (declaredSize bytes)).sum ≤ MAX_DECOMPRESSED_BYTES

section Check

variable {bytes : ByteArray} {eocd : Nat}

theorem findEnd_yields (minimumEnd offset : Nat) (inside : offset + 22 ≤ bytes.size)
    (none_after : ∀ later, offset < later → later + 22 ≤ bytes.size →
      uint32At bytes later ≠ endSignature) :
    Yields (fun found => ∀ eocd ∈ found, EndRecord bytes eocd) (findEnd bytes minimumEnd offset) := by
  induction offset with
  | zero =>
    rw [findEnd]
    split
    · exact Yields.pure (by simp)
    apply (readUInt32LE_yields (by omega)).bind
    intro value hvalue
    split
    · rename_i signature
      refine Yields.pure fun eocd found => ?_
      obtain rfl : 0 = eocd := by simpa using found
      exact ⟨inside, hvalue ▸ signature, none_after⟩
    · exact Yields.pure (by simp)
  | succ offset ih =>
    rw [findEnd]
    split
    · exact Yields.pure (by simp)
    apply (readUInt32LE_yields (by omega)).bind
    intro value hvalue
    split
    · rename_i signature
      refine Yields.pure fun eocd found => ?_
      obtain rfl : offset + 1 = eocd := by simpa using found
      exact ⟨inside, hvalue ▸ signature, none_after⟩
    · rename_i different
      refine ih (by omega) fun later after room => ?_
      rcases Nat.lt_or_eq_of_le (Nat.succ_le_of_lt after) with beyond | rfl
      · exact none_after later beyond room
      · exact hvalue ▸ different

theorem readEntry_yields (inside : eocd + 22 ≤ bytes.size) (cursor total : Nat) :
    Yields (fun (next, sum) => uint32At bytes cursor = entrySignature ∧
        next = cursor + entryLength bytes cursor ∧ uint32At bytes (cursor + 42) < bytes.size ∧
        sum = total + declaredSize bytes cursor ∧ sum ≤ MAX_DECOMPRESSED_BYTES)
      (readEntry bytes eocd cursor total) := by
  rw [readEntry]
  apply (throwIf_yields ..).bind
  intro _ fits
  have room : cursor + 46 ≤ bytes.size := by omega
  apply (readUInt32LE_yields (by omega)).bind
  intro signature hsignature
  apply (throwIf_yields ..).bind
  intro _ signed
  apply (readUInt32LE_yields (by omega)).bind
  intro compressed _
  apply (readUInt32LE_yields (by omega)).bind
  intro uncompressed huncompressed
  apply (readUInt16LE_yields (by omega)).bind
  intro name hname
  apply (readUInt16LE_yields (by omega)).bind
  intro extra hextra
  apply (readUInt16LE_yields (by omega)).bind
  intro comment hcomment
  apply (readUInt32LE_yields (by omega)).bind
  intro position hposition
  apply (throwIf_yields ..).bind
  intro _ _
  apply (throwIf_yields ..).bind
  intro _ bounds
  apply (throwIf_yields ..).bind
  intro _ _
  refine (throwIf_yields ..).bind fun _ budget => Yields.pure ?_
  subst hsignature huncompressed hname hextra hcomment hposition
  refine ⟨not_not.mp signed, ?_, by omega, rfl, by omega⟩
  rw [entryLength]

theorem readEntries_yields (inside : eocd + 22 ≤ bytes.size) (entries cursor total : Nat)
    (budget : total ≤ MAX_DECOMPRESSED_BYTES) :
    Yields (fun stop => ∃ offsets, offsets.length = entries ∧ Tiles bytes cursor stop offsets ∧
        (∀ offset ∈ offsets, uint32At bytes (offset + 42) < bytes.size) ∧
        total + (offsets.map (declaredSize bytes)).sum ≤ MAX_DECOMPRESSED_BYTES)
      (readEntries bytes eocd entries cursor total) := by
  induction entries generalizing cursor total with
  | zero => exact Yields.pure ⟨[], rfl, rfl, by simp, by simpa using budget⟩
  | succ entries ih =>
    rw [readEntries]
    refine (readEntry_yields inside cursor total).bind ?_
    rintro ⟨next, sum⟩ ⟨signature, rfl, hlocal, rfl, hsum⟩
    refine (ih _ _ hsum).mono ?_
    rintro stop ⟨offsets, hlength, tiles, locals, total_le⟩
    refine ⟨cursor :: offsets, by simp [hlength], ⟨rfl, signature, tiles⟩, ?_, ?_⟩
    · simpa using ⟨hlocal, locals⟩
    · simpa [Nat.add_assoc] using total_le

end Check

/-- The check reads nothing beyond the buffer, and an archive that passes has a directory of at most
512 entries that fills its place exactly and declares at most 10 MiB. -/
theorem assertZipExpansionBudget_sound (bytes : ByteArray) :
    (∀ offset, assertZipExpansionBudget bytes ≠ .error (.outOfRange offset)) ∧
    (assertZipExpansionBudget bytes = .ok () → ∃ eocd offsets, Directory bytes eocd offsets) := by
  have yields : Yields (fun _ => ∃ eocd offsets, Directory bytes eocd offsets)
      (assertZipExpansionBudget bytes) := by
    rw [assertZipExpansionBudget]
    apply (throwIf_yields ..).bind
    intro _ long
    have scanned : Yields (fun found => ∀ eocd ∈ found, EndRecord bytes eocd)
        (findEnd bytes (bytes.size - (22 + 0xffff)) (bytes.size - 22)) :=
      findEnd_yields _ _ (by omega) (by omega)
    apply scanned.bind
    intro found hfound
    cases found with
    | none => trivial
    | some eocd =>
      have endRecord := hfound eocd rfl
      have inside := endRecord.inside
      apply (readUInt16LE_yields (by omega)).bind
      intro disk _
      apply (readUInt16LE_yields (by omega)).bind
      intro directoryDisk _
      apply (readUInt16LE_yields (by omega)).bind
      intro entriesOnDisk _
      apply (readUInt16LE_yields (by omega)).bind
      intro entries hentries
      apply (readUInt32LE_yields (by omega)).bind
      intro size hsize
      apply (readUInt32LE_yields (by omega)).bind
      intro start hstart
      apply (throwIf_yields ..).bind
      intro _ counts
      apply (throwIf_yields ..).bind
      intro _ outside
      refine (readEntries_yields inside entries start 0 (Nat.zero_le _)).bind ?_
      rintro stop ⟨offsets, hlength, tiles, locals, budget⟩
      refine (throwIf_yields ..).mono fun _ filled => ?_
      subst hentries hsize hstart
      refine ⟨eocd, offsets, endRecord, hlength, by omega, not_not.mp filled ▸ tiles, by omega,
        locals, by simpa using budget⟩
  generalize assertZipExpansionBudget bytes = result at yields ⊢
  cases result with
  | ok u => exact ⟨by simp, fun _ => yields⟩
  | error e =>
    cases e with
    | outOfRange offset => exact yields.elim
    | refused message => simp

/-- An archive of one entry that has neither a name nor any contents. -/
def emptyEntryArchive : ByteArray :=
  ⟨#[0x50, 0x4b, 0x01, 0x02] ++ Array.replicate 42 0 ++ #[0x50, 0x4b, 0x05, 0x06, 0, 0, 0, 0, 1, 0, 1, 0,
    46, 0, 0, 0, 0, 0, 0, 0, 0, 0]⟩

theorem assertZipExpansionBudget_sound_one_entry :
    assertZipExpansionBudget emptyEntryArchive = .ok () ∧
      ∃ eocd offsets, Directory emptyEntryArchive eocd offsets := by
  have passes : assertZipExpansionBudget emptyEntryArchive = .ok () := by decide +kernel
  exact ⟨passes, (assertZipExpansionBudget_sound emptyEntryArchive).2 passes⟩

end Finverse.Workbook
