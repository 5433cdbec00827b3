import Finverse.Framework.Doubles
import Finverse.Split.EqualSplits
import Mathlib.Algebra.BigOperators.Ring.List

/-! An amount in parts that sum exactly back to it. -/

namespace Finverse

structure Money where
  amount : Int
  currency : String
  deriving DecidableEq, Repr

namespace Money

open Split (Share deal splitEqually)

section Allocate

variable (toUpperCase : String → String)

/-- The check for whole numbers is that of the type. -/
def money (amount : Int) (currency : String) : Money := ⟨amount, toUpperCase currency⟩

/-- The callback of `Array.from`, so many times; the remainder is what is left to hand out. -/
def handOut (sign base : Int) (currency : String) : Nat → Int → List Money
  | 0, _ => []
  | length + 1, remainder =>
    let extra := if remainder > 0 then 1 else 0
    money toUpperCase (sign * (base + extra)) currency ::
      handOut sign base currency length (remainder - extra)

def allocate (m : Money) (parts : Int) : Except String (List Money) :=
  if parts < 1 then .error ("parts must be a positive integer, received " ++ toString parts)
  else
    let sign := if m.amount < 0 then -1 else 1
    let total := |m.amount|
    let base := total / parts
    .ok (handOut toUpperCase sign base m.currency parts.toNat (total - base * parts))

end Allocate

/-! ### The quotient of the runtime -/

section Quotient

open Doubles

/-- A quotient of whole numbers below 2 ^ 53 is not rounded up to the next whole number. -/
theorem floor_nearest_quotient {total parts : Int} (low : 0 ≤ total) (high : total < 2 ^ 53)
    (some_part : 0 < parts) : ⌊nearest (total / parts : Rat)⌋ = total / parts := by
  have divisor : (0 : Rat) < parts := by exact_mod_cast some_part
  have whole : ⌊(total / parts : Rat)⌋ = total / parts := by
    obtain ⟨n, rfl⟩ := Int.eq_ofNat_of_zero_le some_part.le
    exact Rat.floor_intCast_div_natCast total n
  have nonneg : (0 : Rat) ≤ total / parts := div_nonneg (by exact_mod_cast low) divisor.le
  have below : (total : Rat) < 2 ^ 53 := by exact_mod_cast high
  have least : (1 : Rat) ≤ parts := by exact_mod_cast some_part
  -- The next whole number is a part or more away, and that is more than half a last place.
  have gap : 1 / (parts : Rat) ≤ ⌊(total / parts : Rat)⌋ + 1 - total / parts := by
    have next : total + 1 ≤ (total / parts + 1) * parts := by
      have division := Int.emod_add_mul_ediv total parts
      have rest := Int.emod_lt_of_pos total some_part
      nlinarith
    have cast : (total : Rat) + 1 ≤ ((total / parts : Int) + 1) * parts := by exact_mod_cast next
    rw [whole, le_sub_iff_add_le, ← add_div, div_le_iff₀ divisor, add_comm]
    exact cast
  rw [floor_nearest ?_ ?_, whole]
  · rw [abs_of_nonneg nonneg]
    exact (div_le_self (by exact_mod_cast low) least).trans_lt below
  · by_cases zero : (total / parts : Rat) = 0
    · rw [zero]
      norm_num [lastPlace]
    have place := lastPlace_le zero
    rw [abs_of_nonneg nonneg] at place
    have half : lastPlace (total / parts : Rat) / 2 < 1 / parts := by
      calc lastPlace (total / parts : Rat) / 2
          ≤ total / parts / 2 ^ 52 / 2 := by gcongr
        _ = total / 2 ^ 53 / parts := by ring
        _ < 1 / parts := by
          apply div_lt_div_of_pos_right _ divisor
          rw [div_lt_one (by norm_num)]
          exact below
    exact half.trans_le gap

end Quotient

/-! ### Fair parts -/

/-- Parts of an amount: none of the other sign, none two units away from another, the larger ones first. -/
structure Fair (amount : Int) (parts : List Int) : Prop where
  sign : ∀ part ∈ parts, (0 ≤ amount → 0 ≤ part) ∧ (amount ≤ 0 → part ≤ 0)
  sum : parts.sum = amount
  close : ∀ part ∈ parts, ∀ other ∈ parts, |part| - |other| ≤ 1
  larger_first : parts.Pairwise fun part later => |later| ≤ |part|

section Deal

variable {base remainder : Int} {memberIds : List String}

theorem deal_le_succ (base remainder : Int) (memberIds : List String) :
    ∀ share ∈ deal base remainder memberIds, share.amount ≤ base + 1 := by
  induction memberIds generalizing remainder with
  | nil => simp [deal]
  | cons userId memberIds ih =>
    refine List.forall_mem_cons.mpr ⟨?_, ih _⟩
    dsimp only
    split <;> omega

/-- Once the remainder is dealt out, nobody gets more than the base. -/
theorem deal_eq_base (spent : remainder ≤ 0) : ∀ share ∈ deal base remainder memberIds, share.amount = base := by
  induction memberIds generalizing remainder with
  | nil => simp [deal]
  | cons userId memberIds ih =>
    have none_left : ¬remainder > 0 := not_lt.mpr spent
    rw [deal, if_neg none_left]
    refine List.forall_mem_cons.mpr ⟨add_zero base, ?_⟩
    exact ih (by omega)

theorem deal_larger_first (base remainder : Int) (memberIds : List String) :
    (deal base remainder memberIds).Pairwise fun share later => later.amount ≤ share.amount := by
  induction memberIds generalizing remainder with
  | nil => exact List.Pairwise.nil
  | cons userId memberIds ih =>
    refine List.Pairwise.cons ?_ (ih _)
    intro later dealt
    by_cases left : remainder > 0
    · have bound := deal_le_succ base _ memberIds later dealt
      simpa [left] using bound
    · have least := deal_eq_base (by simp only [left, if_false]; omega) later dealt
      simp [left, least]

/-- What is dealt out of an amount that is not negative is fair. -/
theorem deal_fair {total : Int} (positive : 0 ≤ total) (some_member : memberIds ≠ []) :
    Fair total ((deal (total / memberIds.length) (total - total / memberIds.length * memberIds.length)
      memberIds).map Share.amount) := by
  have members : (0 : Int) < memberIds.length := by exact_mod_cast List.length_pos_iff.mpr some_member
  have low := Int.emod_nonneg total members.ne'
  have high := Int.emod_lt_of_pos total members
  have division := Int.emod_add_mul_ediv total memberIds.length
  have commuted := mul_comm (memberIds.length : Int) (total / memberIds.length)
  have base_nonneg : 0 ≤ total / (memberIds.length : Int) := Int.ediv_nonneg positive members.le
  have nothing : total = 0 → total / (memberIds.length : Int) = 0 := by
    intro zero
    rw [zero, Int.zero_ediv]
  generalize total / (memberIds.length : Int) = base at *
  have nonneg := @Split.deal_nonneg base (total - base * memberIds.length) memberIds base_nonneg
  have bounds := Split.deal_base_le base (total - base * memberIds.length) memberIds
  have bounds' := deal_le_succ base (total - base * memberIds.length) memberIds
  have sum := @Split.deal_sum base (total - base * memberIds.length) memberIds (by omega) (by omega)
  have sorted := deal_larger_first base (total - base * memberIds.length) memberIds
  refine ⟨?_, ?_, ?_, ?_⟩
  · intro part listed
    obtain ⟨share, dealt, rfl⟩ := List.mem_map.mp listed
    refine ⟨fun _ => nonneg share dealt, fun negative => ?_⟩
    -- Of nothing, everybody gets nothing.
    have zero : total = 0 := le_antisymm negative positive
    have spent : total - base * memberIds.length ≤ 0 := by
      rw [nothing zero, zero, zero_mul, sub_zero]
    rw [deal_eq_base spent share dealt, nothing zero]
  · rw [sum]
    omega
  · intro part listed other listed'
    obtain ⟨share, dealt, rfl⟩ := List.mem_map.mp listed
    obtain ⟨share', dealt', rfl⟩ := List.mem_map.mp listed'
    rw [abs_of_nonneg (nonneg share dealt), abs_of_nonneg (nonneg share' dealt')]
    have upper := bounds' share dealt
    have lower := bounds share' dealt'
    omega
  · rw [List.pairwise_map]
    apply sorted.imp_of_mem
    intro share later dealt dealt' order
    rwa [abs_of_nonneg (nonneg share dealt), abs_of_nonneg (nonneg later dealt')]

end Deal

/-! ### Both divisions -/

section Allocate

variable {toUpperCase : String → String}

theorem Fair.neg {amount : Int} {parts : List Int} (fair : Fair amount parts) :
    Fair (-amount) (parts.map fun part => -1 * part) := by
  refine ⟨?_, ?_, ?_, ?_⟩
  · intro _ negated
    obtain ⟨part, listed, rfl⟩ := List.mem_map.mp negated
    obtain ⟨up, down⟩ := fair.sign part listed
    constructor
    · intro nonneg
      have bound := down (by omega)
      omega
    · intro nonpos
      have bound := up (by omega)
      omega
  · rw [List.sum_map_mul_left, List.map_id', fair.sum, neg_one_mul]
  · intro _ negated _ negated'
    obtain ⟨part, listed, rfl⟩ := List.mem_map.mp negated
    obtain ⟨other, listed', rfl⟩ := List.mem_map.mp negated'
    rw [neg_one_mul, neg_one_mul, abs_neg, abs_neg]
    exact fair.close part listed other listed'
  · rw [List.pairwise_map]
    apply fair.larger_first.imp
    intro part later order
    rwa [neg_one_mul, neg_one_mul, abs_neg, abs_neg]

/-- The amounts that are handed out are those that are dealt to as many members, with the sign. -/
theorem handOut_amounts (sign base remainder : Int) (currency : String) (memberIds : List String) :
    (handOut toUpperCase sign base currency memberIds.length remainder).map Money.amount =
      (deal base remainder memberIds).map fun share => sign * share.amount := by
  induction memberIds generalizing remainder with
  | nil => rfl
  | cons userId memberIds ih =>
    simp only [handOut, deal, List.length_cons, List.map_cons, ih]
    rfl

theorem handOut_currency (sign base remainder : Int) (currency : String) (length : Nat) :
    ∀ part ∈ handOut toUpperCase sign base currency length remainder, part.currency = toUpperCase currency := by
  induction length generalizing remainder with
  | zero => simp [handOut]
  | succ length ih => exact List.forall_mem_cons.mpr ⟨rfl, ih _⟩

theorem length_handOut (sign base remainder : Int) (currency : String) (length : Nat) :
    (handOut toUpperCase sign base currency length remainder).length = length := by
  induction length generalizing remainder with
  | zero => rfl
  | succ length ih => rw [handOut, List.length_cons, ih]

/-- What comes of an amount in so many parts. -/
structure Allocated (toUpperCase : String → String) (m : Money) (count : Int) (parts : List Money) : Prop where
  done : allocate toUpperCase m count = .ok parts
  length : (parts.length : Int) = count
  currency : ∀ part ∈ parts, part.currency = toUpperCase m.currency
  fair : Fair m.amount (parts.map Money.amount)
  /-- Members who split a positive amount get the same ones in the same order. -/
  split : 0 < m.amount → ∀ memberIds : List String, (memberIds.length : Int) = count →
    ∃ shares, splitEqually m.amount memberIds = .ok shares ∧
      shares.map Share.amount = parts.map Money.amount

theorem allocate_fair (toUpperCase : String → String) (m : Money) {count : Int} (some_part : 1 ≤ count) :
    ∃ parts, Allocated toUpperCase m count parts := by
  obtain ⟨n, rfl⟩ := Int.eq_ofNat_of_zero_le (by omega : 0 ≤ count)
  have members : List.replicate n "" ≠ [] := by
    rw [Ne, List.replicate_eq_nil_iff]
    omega
  have dealt := deal_fair (abs_nonneg m.amount) members
  have amounts (sign : Int) := @handOut_amounts toUpperCase sign (|m.amount| / n)
    (|m.amount| - |m.amount| / n * n) m.currency (List.replicate n "")
  rw [List.length_replicate] at dealt amounts
  refine ⟨_, ⟨by rw [allocate, if_neg (by omega)], ?_, ?_, ?_, ?_⟩⟩
  · rw [length_handOut, Int.toNat_natCast]
  · exact handOut_currency _ _ _ _ _
  · rw [Int.toNat_natCast, amounts]
    by_cases negative : m.amount < 0
    · have fair := dealt.neg
      rw [abs_of_neg negative, neg_neg, List.map_map] at fair
      rw [if_pos negative, abs_of_neg negative]
      exact fair
    · rw [abs_of_nonneg (not_lt.mp negative)] at dealt ⊢
      simpa [negative] using dealt
  · intro positive memberIds length
    have some_member : memberIds ≠ [] := by
      intro none
      simp only [none, List.length_nil] at length
      omega
    have size : memberIds.length = n := by exact_mod_cast length
    refine ⟨_, Split.splitEqually_ok positive some_member, ?_⟩
    rw [Int.toNat_natCast, ← size, handOut_amounts, if_neg (by omega), abs_of_pos positive]
    simp

end Allocate

/-- A ten and a cent, the other way. -/
theorem refund_allocated : (1 : Int) ≤ 3 ∧ ∃ parts, Allocated (fun s => s) ⟨-1001, "USD"⟩ 3 parts :=
  ⟨by decide, allocate_fair (fun s => s) ⟨-1001, "USD"⟩ (by decide)⟩

example : allocate (fun s => s) ⟨-1001, "USD"⟩ 3 =
    .ok [⟨-334, "USD"⟩, ⟨-334, "USD"⟩, ⟨-333, "USD"⟩] := by decide

end Money

end Finverse
