import Mathlib.Data.List.Induction
import Mathlib.Data.Nat.Bitwise
import Mathlib.Tactic.Common
import Mathlib.Tactic.Ring

/-! A register of 32 bits as a queue: only its lowest bits are in use, and what overflows is lost. -/

namespace Finverse.BitQueue

/-- The number that bits stand for, the highest first. -/
def value (bits : List Bool) : Nat := bits.foldl (fun n bit => n * 2 + bit.toNat) 0

/-- The lowest `width` bits of a number. -/
def bits : Nat → Nat → List Bool
  | 0, _ => []
  | width + 1, n => bits width (n / 2) ++ [decide (n % 2 = 1)]

@[simp] theorem length_bits (width n : Nat) : (bits width n).length = width := by
  induction width generalizing n with
  | zero => rfl
  | succ width ih => rw [bits, List.length_append, ih, List.length_singleton]

@[simp] theorem value_nil : value [] = 0 := rfl

theorem value_concat (front : List Bool) (bit : Bool) : value (front ++ [bit]) = value front * 2 + bit.toNat := by
  rw [value, List.foldl_append]
  rfl

theorem value_append (front back : List Bool) :
    value (front ++ back) = value front * 2 ^ back.length + value back := by
  induction back using List.reverseRecOn with
  | nil => simp
  | append_singleton back bit ih =>
    rw [← List.append_assoc, value_concat, value_concat, ih, List.length_append, List.length_singleton, Nat.pow_succ]
    ring

theorem value_lt (front : List Bool) : value front < 2 ^ front.length := by
  induction front using List.reverseRecOn with
  | nil => exact Nat.one_pos
  | append_singleton front bit ih =>
    have last := Bool.toNat_lt bit
    rw [value_concat, List.length_append, List.length_singleton, Nat.pow_succ]
    omega

theorem value_bits {width n : Nat} (fits : n < 2 ^ width) : value (bits width n) = n := by
  induction width generalizing n with
  | zero =>
    have zero : n = 0 := by simpa using fits
    rw [zero]
    rfl
  | succ width ih =>
    have less : n / 2 < 2 ^ width := by
      rw [Nat.pow_succ] at fits
      omega
    rw [bits, value_concat, ih less]
    rcases Nat.mod_two_eq_zero_or_one n with even | odd
    · simp only [even, zero_ne_one, decide_false, Bool.toNat_false]
      omega
    · simp only [odd, decide_true, Bool.toNat_true]
      omega

theorem bits_value (front : List Bool) : bits front.length (value front) = front := by
  induction front using List.reverseRecOn with
  | nil => rfl
  | append_singleton front bit ih =>
    rw [List.length_append, List.length_singleton, value_concat, bits]
    have high : (value front * 2 + bit.toNat) / 2 = value front := by
      have last := Bool.toNat_lt bit
      omega
    have low : decide ((value front * 2 + bit.toNat) % 2 = 1) = bit := by
      cases bit with
      | false => simp
      | true => simp [Nat.add_mod]
    rw [high, ih, low]

/-- The register has these bits at its low end, whatever is above them. -/
def Holds (register : BitVec 32) (queue : List Bool) : Prop := register.toNat % 2 ^ queue.length = value queue

theorem holds_empty (register : BitVec 32) : Holds register [] := by
  rw [Holds, List.length_nil, Nat.pow_zero, Nat.mod_one, value_nil]

/-- What is taken from the front leaves the rest as it is. -/
theorem Holds.back {register : BitVec 32} {front back : List Bool} (holds : Holds register (front ++ back)) :
    Holds register back := by
  have smaller : 2 ^ back.length ∣ 2 ^ (front ++ back).length := by
    rw [List.length_append]
    exact Nat.pow_dvd_pow 2 (Nat.le_add_left _ _)
  rw [Holds] at holds ⊢
  rw [← Nat.mod_mod_of_dvd register.toNat smaller, holds, value_append, Nat.mul_add_mod_self_right,
    Nat.mod_eq_of_lt (value_lt back)]

/-- The bits at the front are read by a shift and a mask. -/
theorem Holds.front {register : BitVec 32} {front back : List Bool} (holds : Holds register (front ++ back)) :
    (register >>> back.length).toNat % 2 ^ front.length = value front := by
  rw [Holds, List.length_append, value_append] at holds
  have small := value_lt back
  rw [BitVec.toNat_ushiftRight, Nat.shiftRight_eq_div_pow, ← Nat.mod_mul_right_div_self, ← Nat.pow_add,
    Nat.add_comm back.length, holds, Nat.mul_comm, Nat.mul_add_div (Nat.two_pow_pos _),
    Nat.div_eq_of_lt small, Nat.add_zero]

/-- New bits come in at the low end, as long as there is room for all that are in use. -/
theorem Holds.push {register : BitVec 32} {queue : List Bool} {width n : Nat} (holds : Holds register queue)
    (room : queue.length + width ≤ 32) (fits : n < 2 ^ width) :
    Holds ((register <<< width) ||| BitVec.ofNat 32 n) (queue ++ bits width n) := by
  have width_room : width ≤ 32 := by omega
  have n_lt : n < 2 ^ 32 := fits.trans_le (Nat.pow_le_pow_right (by decide) width_room)
  have divides : 2 ^ (queue.length + width) ∣ 2 ^ 32 := Nat.pow_dvd_pow 2 room
  rw [Holds] at holds ⊢
  rw [List.length_append, length_bits, value_append, length_bits, value_bits fits, ← holds,
    BitVec.toNat_or, BitVec.toNat_shiftLeft, BitVec.toNat_ofNat, Nat.mod_eq_of_lt n_lt, Nat.or_mod_two_pow,
    Nat.mod_mod_of_dvd _ divides, Nat.shiftLeft_eq, Nat.pow_add, Nat.mul_mod_mul_right,
    Nat.mod_eq_of_lt (a := n)]
  · rw [← Nat.shiftLeft_eq, Nat.shiftLeft_add_eq_or_of_lt fits]
  · exact fits.trans_le (Nat.le_mul_of_pos_left _ (Nat.two_pow_pos _))

/-- Texts of pieces that are equally long are the same only if the pieces are. -/
theorem flatMap_injective {α β : Type} {piece : α → List β} {length : Nat}
    (long : ∀ a, (piece a).length = length) (nonempty : 0 < length) (apart : Function.Injective piece) :
    Function.Injective (List.flatMap piece) := by
  intro xs
  induction xs with
  | nil =>
    intro ys same
    cases ys with
    | nil => rfl
    | cons y ys =>
      have lengths := congrArg List.length same
      simp only [List.flatMap_nil, List.flatMap_cons, List.length_nil, List.length_append, long] at lengths
      omega
  | cons x xs ih =>
    intro ys same
    cases ys with
    | nil =>
      have lengths := congrArg List.length same
      simp only [List.flatMap_nil, List.flatMap_cons, List.length_nil, List.length_append, long] at lengths
      omega
    | cons y ys =>
      simp only [List.flatMap_cons] at same
      obtain ⟨first, rest⟩ := List.append_inj same (by rw [long, long])
      rw [apart first, ih rest]

end Finverse.BitQueue
