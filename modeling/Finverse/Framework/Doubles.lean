import Mathlib.Algebra.Order.Floor.Ring
import Mathlib.Algebra.Order.Round
import Mathlib.Data.Int.Log
import Mathlib.Data.Rat.Floor
import Mathlib.Tactic.FieldSimp
import Mathlib.Tactic.Linarith
import Mathlib.Tactic.NormNum
import Mathlib.Tactic.Positivity
import Mathlib.Tactic.Ring

/-! Numbers of double precision: the double next to a rational, in the range of the normal ones. -/

namespace Finverse.Doubles

/-- The whole number next to a rational, and between two of them the even one. -/
def roundEven (x : Rat) : Int :=
  if x - ⌊x⌋ < 1 / 2 ∨ x - ⌊x⌋ = 1 / 2 ∧ ⌊x⌋ % 2 = 0 then ⌊x⌋ else ⌊x⌋ + 1

/-- What the last of 53 binary digits stands for. -/
def lastPlace (x : Rat) : Rat := 2 ^ (Int.log 2 |x| - 52)

def nearest (x : Rat) : Rat := roundEven (x / lastPlace x) * lastPlace x

theorem abs_roundEven_sub_le (x : Rat) : |(roundEven x : Rat) - x| ≤ 1 / 2 := by
  have low := Int.floor_le x
  have high := Int.lt_floor_add_one x
  unfold roundEven
  split
  · next near =>
    have half : x - ⌊x⌋ ≤ 1 / 2 := by
      rcases near with near | near
      · exact near.le
      · exact near.1.le
    rw [abs_le]
    constructor <;> linarith
  · next far =>
    have half : 1 / 2 ≤ x - ⌊x⌋ := by
      by_contra less
      exact far (Or.inl (not_le.mp less))
    rw [abs_le, Int.cast_add, Int.cast_one]
    constructor <;> linarith

theorem roundEven_intCast (n : Int) : roundEven n = n := by
  simp [roundEven]

theorem lastPlace_pos (x : Rat) : 0 < lastPlace x := zpow_pos (by norm_num) _

theorem lastPlace_le {x : Rat} (nonzero : x ≠ 0) : lastPlace x ≤ |x| / 2 ^ 52 := by
  have log := Int.zpow_log_le_self Nat.one_lt_two (abs_pos.mpr nonzero)
  rw [lastPlace, zpow_sub₀ (by norm_num)]
  exact div_le_div_of_nonneg_right (by exact_mod_cast log) (by norm_num)

/-- The rounding is off by one part in 2 ^ 53 at most. -/
theorem abs_nearest_sub_le (x : Rat) : |nearest x - x| ≤ |x| / 2 ^ 53 := by
  by_cases zero : x = 0
  · simp [zero, nearest, roundEven]
  have pos := lastPlace_pos x
  have place := lastPlace_le zero
  have half := abs_roundEven_sub_le (x / lastPlace x)
  have scaled : nearest x - x = (roundEven (x / lastPlace x) - x / lastPlace x) * lastPlace x := by
    rw [nearest]
    field_simp
  rw [scaled, abs_mul, abs_of_pos pos]
  calc |(roundEven (x / lastPlace x) : Rat) - x / lastPlace x| * lastPlace x
      ≤ 1 / 2 * lastPlace x := by gcongr
    _ ≤ 1 / 2 * (|x| / 2 ^ 52) := by gcongr
    _ = |x| / 2 ^ 53 := by ring

theorem nearest_of_multiple {x : Rat} {m : Int} (multiple : x = m * lastPlace x) : nearest x = x := by
  have pos := lastPlace_pos x
  have quotient : x / lastPlace x = m := by
    rw [div_eq_iff pos.ne']
    exact multiple
  rw [nearest, quotient, roundEven_intCast]
  exact multiple.symm

/-- Whole numbers up to 2 ^ 53 are doubles. -/
theorem nearest_intCast {n : Int} (small : |n| ≤ 2 ^ 53) : nearest n = n := by
  by_cases low : Int.log 2 |(n : Rat)| ≤ 52
  · obtain ⟨k, shift⟩ : ∃ k : Nat, Int.log 2 |(n : Rat)| - 52 = -(k : Int) :=
      ⟨(52 - Int.log 2 |(n : Rat)|).toNat, by omega⟩
    have place : lastPlace n = (2 ^ k : Rat)⁻¹ := by rw [lastPlace, shift, zpow_neg, zpow_natCast]
    refine @nearest_of_multiple n (n * 2 ^ k) ?_
    rw [place]
    push_cast
    field_simp
  · have nonzero : (n : Rat) ≠ 0 := by
      intro zero
      rw [zero, abs_zero, Int.log_zero_right] at low
      omega
    have bound : |(n : Rat)| ≤ 2 ^ 53 := by exact_mod_cast small
    have log := Int.zpow_log_le_self Nat.one_lt_two (abs_pos.mpr nonzero)
    have step : (2 : Rat) ^ (53 : Int) ≤ 2 ^ Int.log 2 |(n : Rat)| :=
      zpow_le_zpow_right₀ (by norm_num) (by omega)
    have top : |(n : Rat)| = 2 ^ 53 := by
      apply le_antisymm bound
      exact (by exact_mod_cast step : (2 : Rat) ^ 53 ≤ 2 ^ Int.log 2 |(n : Rat)|).trans (by exact_mod_cast log)
    have place : lastPlace n = 2 := by
      rw [lastPlace, top]
      have whole : Int.log 2 ((2 : Rat) ^ 53) = 53 := by
        have power := @Int.log_zpow Rat _ _ _ _ 2 Nat.one_lt_two 53
        exact_mod_cast power
      rw [whole]
      norm_num
    rcases abs_eq (by norm_num : (0 : Rat) ≤ 2 ^ 53) |>.mp top with up | down
    · refine @nearest_of_multiple n (2 ^ 52) ?_
      rw [place, up]
      norm_num
    · refine @nearest_of_multiple n (-2 ^ 52) ?_
      rw [place, down]
      norm_num

theorem floor_le_roundEven (x : Rat) : ⌊x⌋ ≤ roundEven x := by
  unfold roundEven
  split
  · exact le_rfl
  · omega

/-- Rounding does not reach the next whole number, where that is more than half a last place away. -/
theorem floor_nearest {x : Rat} (small : |x| < 2 ^ 53) (apart : lastPlace x / 2 < ⌊x⌋ + 1 - x) :
    ⌊nearest x⌋ = ⌊x⌋ := by
  have pos := lastPlace_pos x
  have low : Int.log 2 |x| ≤ 52 := by
    by_cases zero : x = 0
    · simp [zero]
    · have log := Int.zpow_log_le_self Nat.one_lt_two (abs_pos.mpr zero)
      have below : (2 : Rat) ^ Int.log 2 |x| < 2 ^ (53 : Int) := by
        have bound := lt_of_le_of_lt log small
        exact_mod_cast bound
      have exponents := (zpow_lt_zpow_iff_right₀ (by norm_num : (1 : Rat) < 2)).mp below
      omega
  obtain ⟨k, shift⟩ : ∃ k : Nat, Int.log 2 |x| - 52 = -(k : Int) := ⟨(52 - Int.log 2 |x|).toNat, by omega⟩
  have place : lastPlace x = (2 ^ k : Rat)⁻¹ := by rw [lastPlace, shift, zpow_neg, zpow_natCast]
  rw [Int.floor_eq_iff]
  constructor
  · have scaled : ((⌊x⌋ * 2 ^ k : Int) : Rat) ≤ x / lastPlace x := by
      rw [place, div_inv_eq_mul]
      push_cast
      exact mul_le_mul_of_nonneg_right (Int.floor_le x) (by positivity)
    have whole : ⌊x⌋ * 2 ^ k ≤ roundEven (x / lastPlace x) :=
      (Int.le_floor.mpr scaled).trans (floor_le_roundEven _)
    have cast : (⌊x⌋ : Rat) * 2 ^ k ≤ roundEven (x / lastPlace x) := by exact_mod_cast whole
    rw [nearest, place, ← div_eq_mul_inv, le_div_iff₀ (by positivity), ← place]
    exact cast
  · have half := (abs_le.mp (abs_roundEven_sub_le (x / lastPlace x))).2
    have scaled : (roundEven (x / lastPlace x) : Rat) * lastPlace x ≤ (x / lastPlace x + 1 / 2) * lastPlace x :=
      mul_le_mul_of_nonneg_right (by linarith) pos.le
    have back : (x / lastPlace x + 1 / 2) * lastPlace x = x + lastPlace x / 2 := by
      field_simp
    rw [nearest]
    linarith

/-- A whole number is found again after two roundings. -/
theorem round_nearest_mul {x scale : Rat} {n : Int} (whole : x * scale = n) (small : |n| ≤ 2 ^ 50) :
    ⌊nearest (nearest x * scale) + 1 / 2⌋ = n := by
  have size : |(n : Rat)| ≤ 2 ^ 50 := by exact_mod_cast small
  have first : |nearest x * scale - n| ≤ |(n : Rat)| / 2 ^ 53 := by
    calc |nearest x * scale - n| = |nearest x - x| * |scale| := by rw [← whole, ← sub_mul, abs_mul]
      _ ≤ |x| / 2 ^ 53 * |scale| := by
        gcongr
        exact abs_nearest_sub_le x
      _ = |(n : Rat)| / 2 ^ 53 := by rw [← whole, abs_mul]; ring
  have second := abs_nearest_sub_le (nearest x * scale)
  have product : |nearest x * scale| ≤ |(n : Rat)| + |(n : Rat)| / 2 ^ 53 := by
    have split := abs_add_le (nearest x * scale - n) n
    rw [sub_add_cancel] at split
    linarith
  rw [abs_le] at first second
  rw [Int.floor_eq_iff]
  constructor <;> linarith

end Finverse.Doubles
