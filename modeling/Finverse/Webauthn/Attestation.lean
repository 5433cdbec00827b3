import Finverse.Framework.Base64
import Finverse.Http
import Finverse.Webauthn.Cbor

/-! From an attestation object to the key of a credential. -/

namespace Finverse.Webauthn

structure ParsedRegistration where
  credentialId : List UInt8
  publicKeyPem : String
  deriving DecidableEq

inductive AttestationError
  | cbor (error : CborError)
  | attestation (message : String)
  deriving DecidableEq

def COSE_KTY : Int := 1

def COSE_ALG : Int := 3

def COSE_CRV : Int := -1

def COSE_X : Int := -2

def COSE_Y : Int := -3

def toMap : CborValue → Except AttestationError (List (CborValue × CborValue))
  | .map entries => .ok entries
  | _ => .error (.attestation "attestation: expected a CBOR map")

/-- What is not there is no byte string. -/
def toBytes : Option CborValue → Except AttestationError (List UInt8)
  | some (.bytes content) => .ok content
  | _ => .error (.attestation "attestation: expected a byte string")

/-! ### Distinguished encodings -/

/-- The loop of `derLength`. -/
def unshiftLength (out : List UInt8) (n : Nat) : List UInt8 :=
  if n = 0 then out else unshiftLength (UInt8.ofNat (n &&& 0xff) :: out) (n >>> 8)
termination_by n
decreasing_by
  rw [Nat.shiftRight_eq_div_pow]
  omega

def derLength (bytes : Nat) : List UInt8 :=
  if bytes < 128 then [UInt8.ofNat bytes]
  else
    let out := unshiftLength [] bytes
    UInt8.ofNat (0x81 + (out.length - 1)) :: out

def derSequence (contents : List UInt8) : List UInt8 := [0x30] ++ derLength contents.length ++ contents

/-- The loop over the parts of an identifier. -/
def unshiftPart (bytes : List UInt8) (value : Nat) : List UInt8 :=
  if value = 0 then bytes else unshiftPart (UInt8.ofNat (value &&& 0x7f ||| 0x80) :: bytes) (value >>> 7)
termination_by value
decreasing_by
  rw [Nat.shiftRight_eq_div_pow]
  omega

def derPart (part : Nat) : List UInt8 := unshiftPart [UInt8.ofNat (part &&& 0x7f)] (part >>> 7)

def derOid (oid : List Nat) : List UInt8 :=
  let body := UInt8.ofNat (oid.getD 0 0 * 40 + oid.getD 1 0) :: (oid.drop 2).flatMap derPart
  [0x06] ++ derLength body.length ++ body

def derBitString (bytes : List UInt8) : List UInt8 := [0x03] ++ derLength (bytes.length + 1) ++ [0x00] ++ bytes

def spkiP256 (x y : List UInt8) : List UInt8 :=
  let point := [0x04] ++ x ++ y
  let algorithm := derSequence (derOid [1, 2, 840, 10045, 2, 1] ++ derOid [1, 2, 840, 10045, 3, 1, 7])
  derSequence (algorithm ++ derBitString point)

/-! ### Keys and registrations -/

section Parse

-- `Number` of what is not a number, none for NaN.
variable (coerce : Option CborValue → Option Rat)

def toInt : Option CborValue → Option Rat
  | some (.number n) => some n
  | value => coerce value

def coseToPem (cose : CborValue) : Except AttestationError (List UInt8) := do
  let map ← toMap cose
  let kty := getEntry map (.number COSE_KTY)
  let alg := getEntry map (.number COSE_ALG)
  let crv := getEntry map (.number COSE_CRV)
  let x := getEntry map (.number COSE_X)
  let y := getEntry map (.number COSE_Y)
  throwIf (toInt coerce kty ≠ some 2) (.attestation "attestation: key is not EC2")
  throwIf (toInt coerce alg ≠ some (-7)) (.attestation "attestation: key is not ES256")
  throwIf (toInt coerce crv ≠ some 1) (.attestation "attestation: curve is not P-256")
  let xBuf ← toBytes x
  let yBuf ← toBytes y
  throwIf (xBuf.length ≠ 32 ∨ yBuf.length ≠ 32)
    (.attestation "attestation: P-256 coordinates must be 32 bytes")
  return spkiP256 xBuf yBuf

def readUInt16BE (bytes : List UInt8) (offset : Nat) : Nat :=
  (bytes.getD offset 0).toNat * 256 + (bytes.getD (offset + 1) 0).toNat

def pemOf (der : List UInt8) : String :=
  "-----BEGIN PUBLIC KEY-----\n" ++ String.ofList (Base64.encode der) ++ "\n-----END PUBLIC KEY-----"

variable (replaced : List UInt8 → String)

def parseAttestationObject (attestationObject : List UInt8) : Except AttestationError ParsedRegistration := do
  let value ← (decodeCbor replaced attestationObject).mapError .cbor
  let decoded ← toMap value
  let rawAuthData := getEntry decoded (.text "authData")
  throwIf (rawAuthData.isNone = true) (.attestation "attestation: missing authData")
  let authData ← toBytes rawAuthData
  throwIf (authData.length < 37 + 18) (.attestation "attestation: authData too short")
  throwIf (authData.getD 32 0 &&& 0x40 ≠ 0x40) (.attestation "attestation: attested credential data flag is unset")
  let credentialLength := readUInt16BE authData 53
  let credentialStart := 55
  let credentialEnd := credentialStart + credentialLength
  throwIf (authData.length < credentialEnd + 1) (.attestation "attestation: credential data truncated")
  let credentialId := (authData.drop credentialStart).take credentialLength
  let coseKey ← (decodeCbor replaced (authData.drop credentialEnd)).mapError .cbor
  let der ← coseToPem coerce coseKey
  return { credentialId, publicKeyPem := pemOf der }

end Parse

end Finverse.Webauthn
