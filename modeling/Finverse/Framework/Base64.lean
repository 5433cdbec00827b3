import Mathlib.Data.List.Basic
import Mathlib.Tactic.Common

/-! Bytes as base64, with padding. -/

namespace Finverse.Base64

def alphabet : List Char := "ABCDEFGHIJKLMNOPQRSTUVWXYZabcdefghijklmnopqrstuvwxyz0123456789+/".toList

def digit (n : Nat) : Char := alphabet.getD n '='

def value? (c : Char) : Option Nat := alphabet.idxOf? c

/-- Three bytes in four digits. -/
def encode : List UInt8 → List Char
  | [] => []
  | [a] => [digit (a.toNat / 4), digit (a.toNat % 4 * 16), '=', '=']
  | [a, b] => [digit (a.toNat / 4), digit (a.toNat % 4 * 16 + b.toNat / 16), digit (b.toNat % 16 * 4), '=']
  | a :: b :: c :: rest =>
    digit (a.toNat / 4) :: digit (a.toNat % 4 * 16 + b.toNat / 16) ::
      digit (b.toNat % 16 * 4 + c.toNat / 64) :: digit (c.toNat % 64) :: encode rest

/-- The bits that are left at the end have to be zero. -/
def decode : List Char → Option (List UInt8)
  | [] => some []
  | [p, q, '=', '='] => do
    let x ← value? p
    let y ← value? q
    if y % 16 = 0 then some [UInt8.ofNat (x * 4 + y / 16)] else none
  | [p, q, r, '='] => do
    let x ← value? p
    let y ← value? q
    let z ← value? r
    if z % 4 = 0 then some [UInt8.ofNat (x * 4 + y / 16), UInt8.ofNat (y % 16 * 16 + z / 4)] else none
  | p :: q :: r :: s :: rest => do
    let x ← value? p
    let y ← value? q
    let z ← value? r
    let w ← value? s
    let bytes ← decode rest
    return UInt8.ofNat (x * 4 + y / 16) :: UInt8.ofNat (y % 16 * 16 + z / 4) :: UInt8.ofNat (z % 4 * 64 + w) :: bytes
  | _ => none

theorem value_digit {n : Nat} (small : n < 64) : value? (digit n) = some n := by
  have all : ∀ m : Fin 64, value? (digit m) = some m.val := by decide +kernel
  exact all ⟨n, small⟩

theorem digit_ne_padding {n : Nat} (small : n < 64) : digit n ≠ '=' := by
  intro padding
  have value := value_digit small
  have none_ : value? '=' = none := by decide +kernel
  rw [padding, none_] at value
  cases value

/-- Four digits in front of what follows. -/
theorem decode_group {x y z w : Nat} (hx : x < 64) (hy : y < 64) (hz : z < 64) (hw : w < 64) (rest : List Char) :
    decode (digit x :: digit y :: digit z :: digit w :: rest) = (decode rest).map fun bytes =>
      UInt8.ofNat (x * 4 + y / 16) :: UInt8.ofNat (y % 16 * 16 + z / 4) :: UInt8.ofNat (z % 4 * 64 + w) :: bytes := by
  have last := digit_ne_padding hw
  rw [decode]
  · rw [value_digit hx, value_digit hy, value_digit hz, value_digit hw]
    cases decode rest <;> rfl
  · exact fun _ padding => absurd padding last
  · exact fun padding => absurd padding last

theorem byte_eq {n : Nat} {byte : UInt8} (same : n = byte.toNat) : UInt8.ofNat n = byte := by
  rw [same, UInt8.ofNat_toNat]

theorem decode_encode (bytes : List UInt8) : decode (encode bytes) = some bytes := by
  induction bytes using encode.induct with
  | case1 => rfl
  | case2 a =>
    have low := a.toNat_lt
    have zero : a.toNat % 4 * 16 % 16 = 0 := by omega
    have first : UInt8.ofNat (a.toNat / 4 * 4 + a.toNat % 4 * 16 / 16) = a := byte_eq (by omega)
    rw [encode, decode, value_digit (by omega), value_digit (by omega)]
    simp only [Option.bind_eq_bind, Option.bind_some, zero, if_true, first]
  | case3 a b =>
    have low := a.toNat_lt
    have low' := b.toNat_lt
    have zero : b.toNat % 16 * 4 % 4 = 0 := by omega
    have first : UInt8.ofNat (a.toNat / 4 * 4 + (a.toNat % 4 * 16 + b.toNat / 16) / 16) = a := byte_eq (by omega)
    have second : UInt8.ofNat ((a.toNat % 4 * 16 + b.toNat / 16) % 16 * 16 + b.toNat % 16 * 4 / 4) = b :=
      byte_eq (by omega)
    have full := digit_ne_padding (by omega : b.toNat % 16 * 4 < 64)
    rw [encode, decode, value_digit (by omega), value_digit (by omega), value_digit (by omega)]
    · simp only [Option.bind_eq_bind, Option.bind_some, zero, if_true, first, second]
    · exact fun padding => absurd padding full
  | case4 a b c rest ih =>
    have low := a.toNat_lt
    have low' := b.toNat_lt
    have low'' := c.toNat_lt
    have first : UInt8.ofNat (a.toNat / 4 * 4 + (a.toNat % 4 * 16 + b.toNat / 16) / 16) = a := byte_eq (by omega)
    have second : UInt8.ofNat ((a.toNat % 4 * 16 + b.toNat / 16) % 16 * 16 + (b.toNat % 16 * 4 + c.toNat / 64) / 4) =
        b := byte_eq (by omega)
    have third : UInt8.ofNat ((b.toNat % 16 * 4 + c.toNat / 64) % 4 * 64 + c.toNat % 64) = c := byte_eq (by omega)
    rw [encode, decode_group (by omega) (by omega) (by omega) (by omega), ih]
    simp only [Option.map_some, first, second, third]

end Finverse.Base64
