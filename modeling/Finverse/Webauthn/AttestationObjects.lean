import Finverse.Webauthn.CborCompleteness
import Finverse.Webauthn.Spki

/-! Attestation objects of the format, and which of them are parsed. -/

namespace Finverse.Webauthn

variable {coerce : Option CborValue → Option Rat} {replaced : List UInt8 → String}
  {entries : List (CborValue × CborValue)} {x y : List UInt8}

/-! ### The format -/

/-- A map with the key of an ES256 credential on P-256. -/
structure IsP256Key (key : Item) (x y : List UInt8) : Prop where
  sized : key.Sized
  parameters : ∃ entries, key.meaning = some (.map entries) ∧
    getEntry entries (.number COSE_KTY) = some (.number 2) ∧
    getEntry entries (.number COSE_ALG) = some (.number (-7)) ∧
    getEntry entries (.number COSE_CRV) = some (.number 1) ∧
    getEntry entries (.number COSE_X) = some (.bytes x) ∧ getEntry entries (.number COSE_Y) = some (.bytes y)
  x_length : x.length = 32
  y_length : y.length = 32

/-- Authenticator data with an attested credential. The extensions are there when their flag is set. -/
structure AuthenticatorData where
  rpIdHash : List UInt8
  rpIdHash_length : rpIdHash.length = 32
  flags : UInt8
  attested : flags &&& 0x40 = 0x40
  signCount : List UInt8
  signCount_length : signCount.length = 4
  aaguid : List UInt8
  aaguid_length : aaguid.length = 16
  credentialId : List UInt8
  credentialId_length : credentialId.length < 2 ^ 16
  key : Item
  x : List UInt8
  y : List UInt8
  isKey : IsP256Key key x y
  extensions : Option Item
  flagged : extensions.isSome = true ↔ flags &&& 0x80 = 0x80
  areMaps : ∀ item ∈ extensions, item.Sized ∧ ∃ entries, item.meaning = some (.map entries)

namespace AuthenticatorData

/-- What comes before the length of the credential id. -/
def start (data : AuthenticatorData) : List UInt8 :=
  data.rpIdHash ++ [data.flags] ++ data.signCount ++ data.aaguid

/-- The key, and the extensions if there are some. -/
def keyAndExtensions (data : AuthenticatorData) : List UInt8 :=
  data.key.encode ++ (data.extensions.map Item.encode).getD []

def bytes (data : AuthenticatorData) : List UInt8 :=
  data.start ++ BigEndian.bytes 2 data.credentialId.length ++ data.credentialId ++ data.keyAndExtensions

end AuthenticatorData

structure AttestationObject where
  item : Item
  sized : item.Sized
  data : AuthenticatorData
  members : ∃ entries format statement, item.meaning = some (.map entries) ∧
    getEntry entries (.text "fmt") = some (.text format) ∧
    getEntry entries (.text "attStmt") = some (.map statement) ∧
    getEntry entries (.text "authData") = some (.bytes data.bytes)

/-- Not too long, too deep or too large for the decoder. -/
structure WithinLimits (item : Item) : Prop where
  short : item.encode.length ≤ MAX_CBOR_BYTES
  shallow : item.depth ≤ MAX_CBOR_DEPTH + 1
  few : item.count ≤ MAX_CBOR_ITEMS

/-! ### Authenticator data -/

namespace AuthenticatorData

variable (data : AuthenticatorData)

theorem length_start : data.start.length = 53 := by
  simp [start, data.rpIdHash_length, data.signCount_length, data.aaguid_length]

theorem bytes_two (n : Nat) : BigEndian.bytes 2 n = [UInt8.ofNat (n / 256), UInt8.ofNat n] := by
  simp [BigEndian.bytes]

theorem bytes_eq : data.bytes = data.start ++ UInt8.ofNat (data.credentialId.length / 256) ::
    UInt8.ofNat data.credentialId.length :: (data.credentialId ++ data.keyAndExtensions) := by
  simp [bytes, bytes_two]

theorem flags_read : data.bytes.getD 32 0 = data.flags := by
  have hash : data.rpIdHash.length = 32 := data.rpIdHash_length
  simp [bytes_eq, start, List.getD_eq_getElem?_getD, hash]

theorem length_read : readUInt16BE data.bytes 53 = data.credentialId.length := by
  have short := data.credentialId_length
  have start := data.length_start
  have high : data.bytes.getD 53 0 = UInt8.ofNat (data.credentialId.length / 256) := by
    simp [bytes_eq, List.getD_eq_getElem?_getD, start]
  have low : data.bytes.getD 54 0 = UInt8.ofNat data.credentialId.length := by
    simp [bytes_eq, List.getD_eq_getElem?_getD, List.getElem?_append_right, start]
  rw [readUInt16BE, high, low, UInt8.toNat_ofNat', UInt8.toNat_ofNat']
  omega

theorem drop_read : data.bytes.drop 55 = data.credentialId ++ data.keyAndExtensions := by
  have start := data.length_start
  rw [bytes_eq, List.drop_append, start]
  simp [start]

theorem keyAndExtensions_pos : 0 < data.keyAndExtensions.length := by
  rw [keyAndExtensions, Item.encode_eq, head]
  simp

theorem length_bytes : data.bytes.length = 55 + data.credentialId.length + data.keyAndExtensions.length := by
  have start := data.length_start
  simp only [bytes_eq, List.length_append, List.length_cons, start]
  omega

end AuthenticatorData

/-! ### Parsing -/

theorem WithinLimits.decoded {item : Item} {v : CborValue} (within : WithinLimits item) (sized : item.Sized)
    (meant : item.meaning = some v) : decodeCbor replaced item.encode = .ok v :=
  decodeCbor_complete replaced sized meant within.short within.shallow within.few

/-- Nothing may follow an item. -/
theorem decodeCbor_trailing {item : Item} (sized : item.Sized) {rest : List UInt8} (some_ : rest ≠ [])
    (v : CborValue) : decodeCbor replaced (item.encode ++ rest) ≠ .ok v := by
  intro decoded
  obtain ⟨other, otherSized, bytes, -⟩ := decodeCbor_item decoded
  rw [← List.append_nil other.encode] at bytes
  exact some_ (Item.encode_inj item sized otherSized bytes).2

theorem coseToPem_key {key : Item} {v : CborValue} (isKey : IsP256Key key x y) (meant : key.meaning = some v) :
    coseToPem coerce v = .ok (spkiP256 x y) := by
  obtain ⟨entries, read, kty, alg, crv, hx, hy⟩ := isKey.parameters
  obtain rfl := Option.some.inj (meant.symm.trans read)
  simp only [coseToPem, toMap, bind, Except.bind, kty, alg, crv, hx, hy, toInt, toBytes, throwIf]
  simp [isKey.x_length, isKey.y_length, pure, Except.pure]

variable (coerce replaced) in
/-- As far as the key. -/
theorem parseAttestationObject_eq (object : AttestationObject) (within : WithinLimits object.item) :
    parseAttestationObject coerce replaced object.item.encode =
      ((decodeCbor replaced object.data.keyAndExtensions).mapError .cbor >>= fun coseKey =>
        coseToPem coerce coseKey >>= fun der =>
          pure ⟨object.data.credentialId, pemOf der⟩) := by
  obtain ⟨entries, format, statement, meant, -, -, authData⟩ := object.members
  have decoded : decodeCbor replaced object.item.encode = .ok (.map entries) := within.decoded object.sized meant
  have long := object.data.length_bytes
  have some_ := object.data.keyAndExtensions_pos
  have whole : object.data.bytes.drop 55 = object.data.credentialId ++ object.data.keyAndExtensions :=
    object.data.drop_read
  have rest : object.data.bytes.drop (55 + object.data.credentialId.length) = object.data.keyAndExtensions := by
    rw [← List.drop_drop, whole, List.drop_left]
  unfold parseAttestationObject
  simp only [decoded, Except.mapError, bind, Except.bind, toMap, authData, toBytes, throwIf, Option.isNone_some,
    Bool.false_eq_true, if_false, object.data.flags_read, object.data.attested, object.data.length_read, whole, rest,
    List.take_left, ne_eq, not_true]
  rw [if_neg (by omega), if_neg (by omega)]

/-- The registration of an object, with a written key. -/
def ParsedAs (coerce : Option CborValue → Option Rat) (replaced : List UInt8 → String) (object : AttestationObject) :
    Prop :=
  ∃ pem, parseAttestationObject coerce replaced object.item.encode = .ok ⟨object.data.credentialId, pem⟩ ∧
    IsPem (subjectPublicKeyInfo object.data.x object.data.y) pem

variable {object : AttestationObject}

theorem parsed_plain (within : WithinLimits object.item) (withinKey : WithinLimits object.data.key)
    (plain : object.data.extensions = none) : ParsedAs coerce replaced object := by
  have isKey := object.data.isKey
  obtain ⟨entries, meant, -⟩ := isKey.parameters
  have bytes : object.data.keyAndExtensions = object.data.key.encode := by
    simp [AuthenticatorData.keyAndExtensions, plain]
  refine ⟨pemOf (spkiP256 object.data.x object.data.y), ?_,
    pemOf_isPem (spkiP256_encodes isKey.x_length isKey.y_length)⟩
  rw [parseAttestationObject_eq coerce replaced object within, bytes, withinKey.decoded isKey.sized meant]
  simp only [Except.mapError, bind, Except.bind, coseToPem_key isKey meant]
  rfl

theorem not_parsed_extended (within : WithinLimits object.item) {extension : Item}
    (extended : object.data.extensions = some extension) : ¬ParsedAs coerce replaced object := by
  rintro ⟨pem, parsed, -⟩
  have bytes : object.data.keyAndExtensions = object.data.key.encode ++ extension.encode := by
    simp [AuthenticatorData.keyAndExtensions, extended]
  have some_ : extension.encode ≠ [] := by
    rw [Item.encode_eq, head]
    simp
  rw [parseAttestationObject_eq coerce replaced object within, bytes] at parsed
  cases decoded : decodeCbor replaced (object.data.key.encode ++ extension.encode) with
  | error e =>
    rw [decoded] at parsed
    cases parsed
  | ok v => exact decodeCbor_trailing object.data.isKey.sized some_ v decoded

/-- An object is parsed just when its extension flag is not set. -/
theorem parseAttestationObject_iff (coerce : Option CborValue → Option Rat) (replaced : List UInt8 → String)
    (object : AttestationObject) (within : WithinLimits object.item) (withinKey : WithinLimits object.data.key) :
    ParsedAs coerce replaced object ↔ object.data.flags &&& 0x80 ≠ 0x80 := by
  rw [Ne, ← object.data.flagged]
  cases extended : object.data.extensions with
  | none => exact iff_of_true (parsed_plain within withinKey extended) (by simp)
  | some extension => exact iff_of_false (not_parsed_extended within extended) (by simp)

/-! ### An object with extensions -/

theorem short_pos : 24 > 0 := by decide

def shortArgument (n : Nat) : Argument := ⟨.short, n % 24, Nat.mod_lt n short_pos⟩

def textItem (content : List UInt8) (small : content.length < 24) : Item := .text ⟨.short, content.length, small⟩ content

theorem thirty_two_fits : 32 < Width.bound .one := by decide

/-- A coordinate of 32 bytes. -/
def coordinate (byte : UInt8) : Item := .bytes ⟨.one, 32, thirty_two_fits⟩ (List.replicate 32 byte)

def smallKey : Item :=
  .map (some (shortArgument 5))
    [(.unsigned (some (shortArgument 1)), .unsigned (some (shortArgument 2))),
      (.unsigned (some (shortArgument 3)), .negative (some (shortArgument 6))),
      (.negative (some (shortArgument 0)), .unsigned (some (shortArgument 1))),
      (.negative (some (shortArgument 1)), coordinate 1), (.negative (some (shortArgument 2)), coordinate 2)]

theorem smallKey_isKey : IsP256Key smallKey (List.replicate 32 1) (List.replicate 32 2) where
  sized := by simp [smallKey, coordinate, shortArgument, Item.Sized, Item.EntriesSized]
  parameters := by
    refine ⟨[(.number 1, .number 2), (.number 3, .number (-7)), (.number (-1), .number 1),
      (.number (-2), .bytes (List.replicate 32 1)), (.number (-3), .bytes (List.replicate 32 2))], ?_, rfl, rfl, rfl,
      rfl, rfl⟩
    simp [smallKey, coordinate, shortArgument, Item.meaning, Item.meaningEntries, Item.integer, Item.DistinctKeys,
      CborValue.sameKey]
  x_length := List.length_replicate
  y_length := List.length_replicate

theorem four_lt : [1, 2, 3, (4 : UInt8)].length < 2 ^ 16 := by decide

/-- A credential of this key, with the flags and what goes with them. -/
def credentialData (flags : UInt8) (attested : flags &&& 0x40 = 0x40) (extensions : Option Item)
    (flagged : extensions.isSome = true ↔ flags &&& 0x80 = 0x80)
    (areMaps : ∀ item ∈ extensions, item.Sized ∧ ∃ entries, item.meaning = some (.map entries)) :
    AuthenticatorData where
  rpIdHash := List.replicate 32 0
  rpIdHash_length := List.length_replicate
  flags
  attested
  signCount := List.replicate 4 0
  signCount_length := List.length_replicate
  aaguid := List.replicate 16 0
  aaguid_length := List.length_replicate
  credentialId := [1, 2, 3, 4]
  credentialId_length := four_lt
  key := smallKey
  x := List.replicate 32 1
  y := List.replicate 32 2
  isKey := smallKey_isKey
  extensions
  flagged
  areMaps

theorem three_lt : [102, 109, (116 : UInt8)].length < 24 := by decide

theorem four_lt_short : [110, 111, 110, (101 : UInt8)].length < 24 := by decide

theorem seven_lt : [97, 116, 116, 83, 116, 109, (116 : UInt8)].length < 24 := by decide

theorem eight_lt : [97, 117, 116, 104, 68, 97, 116, (97 : UInt8)].length < 24 := by decide

/-- `{"fmt": "none", "attStmt": {}, "authData": …}` -/
def objectItem (content : List UInt8) (fits : content.length < Width.bound .two) : Item :=
  .map (some (shortArgument 3))
    [(textItem [102, 109, 116] three_lt, textItem [110, 111, 110, 101] four_lt_short),
      (textItem [97, 116, 116, 83, 116, 109, 116] seven_lt, .map (some (shortArgument 0)) []),
      (textItem [97, 117, 116, 104, 68, 97, 116, 97] eight_lt, .bytes ⟨.two, content.length, fits⟩ content)]

theorem objectItem_meaning (content : List UInt8) (fits : content.length < Width.bound .two) :
    (objectItem content fits).meaning = some (.map [(.text "fmt", .text "none"), (.text "attStmt", .map []),
      (.text "authData", .bytes content)]) := by
  have fmt : String.fromUTF8? [102, 109, 116].toByteArray = some "fmt" := rfl
  have none_ : String.fromUTF8? [110, 111, 110, 101].toByteArray = some "none" := rfl
  have statement : String.fromUTF8? [97, 116, 116, 83, 116, 109, 116].toByteArray = some "attStmt" := rfl
  have authData : String.fromUTF8? [97, 117, 116, 104, 68, 97, 116, 97].toByteArray = some "authData" := rfl
  simp [objectItem, textItem, Item.meaning, Item.meaningEntries, fmt, none_, statement, authData,
    Item.DistinctKeys, CborValue.sameKey]

theorem objectItem_sized (content : List UInt8) (fits : content.length < Width.bound .two) :
    (objectItem content fits).Sized := by
  simp [objectItem, textItem, shortArgument, Item.Sized, Item.EntriesSized]

theorem objectItem_members (content : List UInt8) (fits : content.length < Width.bound .two) :
    ∃ entries format statement, (objectItem content fits).meaning = some (.map entries) ∧
      getEntry entries (.text "fmt") = some (.text format) ∧
      getEntry entries (.text "attStmt") = some (.map statement) ∧
      getEntry entries (.text "authData") = some (.bytes content) := by
  refine ⟨_, "none", [], objectItem_meaning content fits, ?_, ?_, ?_⟩
  all_goals simp [getEntry, CborValue.sameKey]

def objectOf (data : AuthenticatorData) (fits : data.bytes.length < Width.bound .two) : AttestationObject where
  item := objectItem data.bytes fits
  sized := objectItem_sized data.bytes fits
  data
  members := objectItem_members data.bytes fits

theorem attested_only : (0x41 : UInt8) &&& 0x40 = 0x40 := by decide

theorem no_extensions : (none : Option Item).isSome = true ↔ (0x41 : UInt8) &&& 0x80 = 0x80 := by decide

theorem no_maps : ∀ item ∈ (none : Option Item), item.Sized ∧ ∃ entries, item.meaning = some (.map entries) := by
  simp

def plainData : AuthenticatorData := credentialData 0x41 attested_only none no_extensions no_maps

theorem plainData_fits : plainData.bytes.length < Width.bound .two := by decide +kernel

theorem smallKey_within : WithinLimits smallKey := ⟨by decide +kernel, by decide +kernel, by decide +kernel⟩

theorem plain_object_parsed :
    ParsedAs (fun _ => none) (fun _ => "") (objectOf plainData plainData_fits) ↔ (0x41 : UInt8) &&& 0x80 ≠ 0x80 :=
  parseAttestationObject_iff (fun _ => none) (fun _ => "") (objectOf plainData plainData_fits)
    ⟨by decide +kernel, by decide +kernel, by decide +kernel⟩ smallKey_within

theorem eleven_lt : [99, 114, 101, 100, 80, 114, 111, 116, 101, 99, (116 : UInt8)].length < 24 := by decide

/-- `{"credProtect": 2}` -/
def credProtect : Item :=
  .map (some (shortArgument 1)) [(textItem [99, 114, 101, 100, 80, 114, 111, 116, 101, 99, 116] eleven_lt,
    .unsigned (some (shortArgument 2)))]

theorem credProtect_isMap : ∀ item ∈ some credProtect, item.Sized ∧ ∃ entries, item.meaning = some (.map entries) := by
  intro item same
  obtain rfl := Option.some.inj same
  have text : String.fromUTF8? [99, 114, 101, 100, 80, 114, 111, 116, 101, 99, 116].toByteArray =
      some "credProtect" := rfl
  refine ⟨by simp [credProtect, textItem, shortArgument, Item.Sized, Item.EntriesSized],
    [(.text "credProtect", .number 2)], ?_⟩
  simp [credProtect, textItem, shortArgument, Item.meaning, Item.meaningEntries, Item.integer, text,
    Item.DistinctKeys]

theorem attested_extended : (0xc1 : UInt8) &&& 0x40 = 0x40 := by decide

theorem has_extensions : (some credProtect).isSome = true ↔ (0xc1 : UInt8) &&& 0x80 = 0x80 := by decide

def extendedData : AuthenticatorData :=
  credentialData 0xc1 attested_extended (some credProtect) has_extensions credProtect_isMap

theorem extendedData_fits : extendedData.bytes.length < Width.bound .two := by decide +kernel

/-- The same credential with an extension is refused. -/
theorem extended_object_refused : ¬∀ (coerce : Option CborValue → Option Rat) (replaced : List UInt8 → String)
    (object : AttestationObject), WithinLimits object.item → WithinLimits object.data.key →
    ParsedAs coerce replaced object := by
  intro all
  have within : WithinLimits (objectOf extendedData extendedData_fits).item :=
    ⟨by decide +kernel, by decide +kernel, by decide +kernel⟩
  exact not_parsed_extended within rfl
    (all (fun _ => none) (fun _ => "") (objectOf extendedData extendedData_fits) within smallKey_within)

end Finverse.Webauthn
