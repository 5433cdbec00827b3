import Finverse.Framework.Crash

/-! The session store of the mobile client: the tokens in the platform keystore, the sign-out marker
beside them. -/

namespace Finverse.Mobile

open Interleave

structure SessionTokens where
  accessToken : String
  refreshToken : String
  refreshExpiresAt : String
  userId : Option String
  deriving DecidableEq, Repr

/-! ### The stored text -/

/-- A decoded value, as far as the tokens look at it. A missing key reads as null. -/
inductive JsonValue
  | null
  | string (value : String)
  | other
  deriving DecidableEq, Repr

structure StoredFields where
  accessToken : JsonValue
  refreshToken : JsonValue
  refreshExpiresAt : JsonValue
  userId : JsonValue
  deriving DecidableEq, Repr

/-- What a stored text decodes to. -/
inductive Stored
  | object (fields : StoredFields)
  | unreadable
  deriving DecidableEq, Repr

def toJson (tokens : SessionTokens) : Stored :=
  .object
    { accessToken := .string tokens.accessToken
      refreshToken := .string tokens.refreshToken
      refreshExpiresAt := .string tokens.refreshExpiresAt
      userId := match tokens.userId with
        | some userId => .string userId
        | none => .null }

def isDartSpace (c : Char) : Bool :=
  let n := c.toNat
  n ∈ [0x09, 0x0a, 0x0b, 0x0c, 0x0d, 0x20, 0x85, 0xa0, 0x1680, 0x2028, 0x2029, 0x202f, 0x205f,
    0x3000, 0xfeff] || (0x2000 ≤ n && n ≤ 0x200a)

def isBlank (s : String) : Bool := s.toList.all isDartSpace

/-- `none` stands for the format exception. `isDate` tells which texts parse as a date. -/
def fromJson (isDate : String → Bool) : Stored → Option SessionTokens
  | .unreadable => none
  | .object fields =>
    match fields.accessToken, fields.refreshToken with
    | .string accessToken, .string refreshToken =>
      if isBlank accessToken || isBlank refreshToken then none
      else
        let expiry := match fields.refreshExpiresAt with
          | .null => some ""
          | .string expiry => if expiry ≠ "" ∧ isDate expiry = false then none else some expiry
          | .other => none
        let owner := match fields.userId with
          | .null => some none
          | .string userId => if isBlank userId then none else some (some userId)
          | .other => none
        match expiry, owner with
        | some refreshExpiresAt, some userId =>
          some { accessToken, refreshToken, refreshExpiresAt, userId }
        | _, _ => none
    | _, _ => none

/-- What was written is read as it was, or not at all. -/
theorem fromJson_toJson {isDate : String → Bool} {tokens read : SessionTokens}
    (h : fromJson isDate (toJson tokens) = some read) : read = tokens := by
  obtain ⟨accessToken, refreshToken, refreshExpiresAt, userId⟩ := tokens
  simp only [toJson, fromJson] at h
  split at h
  · cases h
  · split at h
    · rename_i expiry owner expires owned
      obtain rfl := Option.some.inj h
      split at expires
      · cases expires
      · obtain rfl := Option.some.inj expires
        cases userId with
        | none =>
          obtain rfl := Option.some.inj owned
          rfl
        | some userId =>
          dsimp only at owned
          split at owned
          · cases owned
          · obtain rfl := Option.some.inj owned
            rfl
    · cases h

/-! ### The platform -/

inductive PlatformCall
  | markerRead
  | markerWrite
  | markerClear
  | storageRead
  | storageWrite (value : Stored)
  | storageDelete

@[reducible] def PlatformCall.Value : PlatformCall → Type
  | .markerRead => Bool
  | .storageRead => Option Stored
  | _ => Unit

/-- A call that fails replies nothing. -/
def platform : Interface := ⟨PlatformCall, fun call => Option call.Value⟩

structure Device where
  token : Option Stored
  signedOut : Bool
  deriving DecidableEq, Repr

def PlatformCall.value : (call : PlatformCall) → Device → call.Value
  | .markerRead, d => d.signedOut
  | .storageRead, d => d.token
  | .markerWrite, _ | .markerClear, _ | .storageWrite _, _ | .storageDelete, _ => ()

def PlatformCall.effect : PlatformCall → Device → Device
  | .markerWrite, d => { d with signedOut := true }
  | .markerClear, d => { d with signedOut := false }
  | .storageWrite value, d => { d with token := some value }
  | .storageDelete, d => { d with token := none }
  | .markerRead, d | .storageRead, d => d

/-- How a platform call goes. One that fails may have taken effect. -/
inductive Outcome
  | succeeds
  | fails (effect : Bool)
  deriving DecidableEq, Repr

def perform (call : PlatformCall) (outcome : Outcome) (d : Device) : Option call.Value × Device :=
  match outcome with
  | .succeeds => (some (call.value d), call.effect d)
  | .fails true => (none, call.effect d)
  | .fails false => (none, d)

/-! ### The store -/

inductive StoreFailure
  | platform
  | unavailable
  deriving DecidableEq, Repr

abbrev Store (α : Type) : Type := Task platform StoreFailure α

def call (c : PlatformCall) : Store c.Value := do
  match ← Task.call (I := platform) c with
  | some value => pure value
  | none => throw .platform

/-- Whatever is thrown, the store says that it is unavailable. -/
def orUnavailable {α : Type} (m : Store α) : Store α := tryCatch m fun _ => throw .unavailable

/-- The marker goes up first and comes down only after the token is gone. -/
def clear : Store Unit :=
  orUnavailable do
    call .markerWrite
    call .storageDelete
    tryCatch (call .markerClear) fun _ => pure ()

/-- The marker comes down only after the new token is stored. -/
def write (tokens : SessionTokens) : Store Unit :=
  orUnavailable do
    call (.storageWrite (toJson tokens))
    call .markerClear

def read (isDate : String → Bool) : Store (Option SessionTokens) := do
  let signedOut ← orUnavailable (call .markerRead)
  if signedOut then pure none
  else
    match ← orUnavailable (call .storageRead) with
    | none => pure none
    | some raw =>
      match fromJson isDate raw with
      | some tokens => pure (some tokens)
      | none => do
        -- A corrupt value counts as signed out, whether or not it can be deleted.
        tryCatch clear fun _ => pure ()
        pure none

end Finverse.Mobile
