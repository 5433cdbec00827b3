import Mathlib.Algebra.Group.Nat.Defs
import Mathlib.Data.List.Induction
import Mathlib.Tactic.Common

/-! Numbers as bytes, the highest first, and the distinguished encodings of ASN.1: sequences, object
identifiers and bit strings. -/

namespace Finverse.BigEndian

/-- The number that bytes stand for. -/
def value (bytes : List UInt8) : Nat := bytes.foldl (fun n byte => n * 256 + byte.toNat) 0

/-- The lowest `size` bytes of a number. -/
def bytes : Nat → Nat → List UInt8
  | 0, _ => []
  | size + 1, n => bytes size (n / 256) ++ [UInt8.ofNat n]

@[simp] theorem length_bytes (size n : Nat) : (bytes size n).length = size := by
  induction size generalizing n with
  | zero => rfl
  | succ size ih => rw [bytes, List.length_append, ih, List.length_singleton]

@[simp] theorem value_nil : value [] = 0 := rfl

theorem value_concat (front : List UInt8) (byte : UInt8) :
    value (front ++ [byte]) = value front * 256 + byte.toNat := by
  rw [value, List.foldl_append]
  rfl

theorem value_lt (front : List UInt8) : value front < 256 ^ front.length := by
  induction front using List.reverseRecOn with
  | nil => exact Nat.one_pos
  | append_singleton front byte ih =>
    have last := byte.toNat_lt
    rw [value_concat, List.length_append, List.length_singleton, Nat.pow_succ]
    omega

theorem value_bytes {size n : Nat} (fits : n < 256 ^ size) : value (bytes size n) = n := by
  induction size generalizing n with
  | zero =>
    have zero : n = 0 := by simpa using fits
    rw [zero]
    rfl
  | succ size ih =>
    have less : n / 256 < 256 ^ size := by
      rw [Nat.pow_succ] at fits
      exact Nat.div_lt_of_lt_mul (by rw [Nat.mul_comm]; exact fits)
    rw [bytes, value_concat, ih less, UInt8.toNat_ofNat']
    omega

theorem bytes_value (front : List UInt8) : bytes front.length (value front) = front := by
  induction front using List.reverseRecOn with
  | nil => rfl
  | append_singleton front byte ih =>
    have last := byte.toNat_lt
    rw [List.length_append, List.length_singleton, value_concat, bytes]
    have high : (value front * 256 + byte.toNat) / 256 = value front := by omega
    have low : UInt8.ofNat (value front * 256 + byte.toNat) = byte := by
      apply UInt8.toNat_inj.mp
      rw [UInt8.toNat_ofNat']
      omega
    rw [high, low, ih]

end Finverse.BigEndian

namespace Finverse.Der

/-- The octets of a length: one below 128, and otherwise how many follow, without a zero in front. -/
inductive Length : Nat → List UInt8 → Prop
  | short {n : Nat} (small : n < 128) : Length n [UInt8.ofNat n]
  | long {n : Nat} {octets : List UInt8} (large : 128 ≤ n) (value : BigEndian.value octets = n)
      (minimal : octets.head? ≠ some 0) (few : octets.length < 127) :
      Length n (UInt8.ofNat (0x80 + octets.length) :: octets)

/-- The number of octets with seven bits each. -/
def sevenBits (octets : List UInt8) : Nat := octets.foldl (fun n octet => n * 128 + octet.toNat % 128) 0

/-- An arc in as few octets as it takes; all but the last have the high bit. -/
structure Arc (n : Nat) (front : List UInt8) (last : UInt8) : Prop where
  value : sevenBits (front ++ [last]) = n
  marked : ∀ octet ∈ front, 128 ≤ octet.toNat
  unmarked : last.toNat < 128
  minimal : front.head? ≠ some 0x80

def IsArc (n : Nat) (octets : List UInt8) : Prop := ∃ front last, octets = front ++ [last] ∧ Arc n front last

inductive Value
  | sequence (contents : List Value)
  | oid (first second : Nat) (arcs : List Nat)
  | bitString (octets : List UInt8)

inductive Encodes : Value → List UInt8 → Prop
  | sequence {contents : List Value} {parts : List (List UInt8)} {length : List UInt8}
      (each : List.Forall₂ Encodes contents parts) (size : Length parts.flatten.length length) :
      Encodes (.sequence contents) (0x30 :: length ++ parts.flatten)
  | oid {first second : Nat} {arcs : List Nat} {front : List UInt8} {parts : List (List UInt8)}
      {length : List UInt8} (root : first < 2 ∧ second < 40) (start : IsArc (first * 40 + second) front)
      (each : List.Forall₂ IsArc arcs parts) (size : Length (front ++ parts.flatten).length length) :
      Encodes (.oid first second arcs) (0x06 :: length ++ (front ++ parts.flatten))
  | bitString {octets length : List UInt8} (size : Length (octets.length + 1) length) :
      Encodes (.bitString octets) (0x03 :: length ++ 0x00 :: octets)

theorem sevenBits_concat (front : List UInt8) (last : UInt8) :
    sevenBits (front ++ [last]) = sevenBits front * 128 + last.toNat % 128 := by
  rw [sevenBits, List.foldl_append]
  rfl

end Finverse.Der
