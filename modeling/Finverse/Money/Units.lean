import Mathlib.Algebra.Order.Field.Power
import Mathlib.Algebra.Order.Round
import Mathlib.Data.Rat.Floor
import Mathlib.Tactic.Linarith
import Mathlib.Tactic.NormNum

/-! Minor units of currencies. The decimals of the runtime are read as exact rationals here, and
`Math.round`, which takes halves up, is `round`. -/

namespace Finverse.Money

/-- Currencies whose minor unit is not 1/100. -/
def EXPONENT_OVERRIDES : List (String × Nat) :=
  [("JPY", 0), ("KRW", 0), ("VND", 0), ("CLP", 0), ("ISK", 0), ("BHD", 3), ("KWD", 3), ("OMR", 3),
    ("TND", 3)]

section Scaling

variable (toUpperCase : String → String)

def exponentOf (currency : String) : Nat := (EXPONENT_OVERRIDES.lookup (toUpperCase currency)).getD 2

/-- `Number(x.toFixed(6))`: halves go away from zero. -/
def toFixed6 (x : Rat) : Rat :=
  if x < 0 then -(round (-x * 10 ^ 6) / 10 ^ 6) else round (x * 10 ^ 6) / 10 ^ 6

/-- 12.34 USD as 1234; halves go away from zero. -/
def majorToMinor (major : Rat) (currency : String) : Int :=
  let factor := 10 ^ exponentOf toUpperCase currency
  let scaled := toFixed6 (major * factor)
  if scaled < 0 then -round (-scaled) else round scaled

end Scaling

/-! ### Rounding -/

section Rounding

variable {x factor : Rat}

theorem round_bounds (x : Rat) : (round x : Rat) - 1 / 2 ≤ x ∧ x < round x + 1 / 2 := by
  rw [round_eq]
  have lower := Int.floor_le (x + 1 / 2)
  have upper := Int.lt_floor_add_one (x + 1 / 2)
  constructor <;> linarith

/-- A number with at most six places after the point is kept. -/
theorem toFixed6_exact {millionths : Int} (h : x * 10 ^ 6 = millionths) : toFixed6 x = x := by
  have ten : (10 : Rat) ^ 6 ≠ 0 := by norm_num
  unfold toFixed6
  split
  · have negated : -x * 10 ^ 6 = ((-millionths : Int) : Rat) := by rw [Int.cast_neg, ← h, neg_mul]
    rw [negated, round_intCast, ← negated, mul_div_cancel_right₀ _ ten, neg_neg]
  · rw [h, round_intCast, ← h, mul_div_cancel_right₀ _ ten]

theorem toFixed6_intCast (n : Int) : toFixed6 n = n := by
  have whole : (n : Rat) * 10 ^ 6 = ((n * 10 ^ 6 : Int) : Rat) := by
    rw [Int.cast_mul, Int.cast_pow, Int.cast_ofNat]
  exact toFixed6_exact whole

/-- An amount that the currency has digits for is scaled exactly. -/
theorem majorToMinor_exact (toUpperCase : String → String) {major : Rat} {currency : String}
    {minor : Int} (h : major * 10 ^ exponentOf toUpperCase currency = minor) :
    majorToMinor toUpperCase major currency = minor := by
  unfold majorToMinor
  simp only [h, toFixed6_intCast]
  split
  · rw [← Int.cast_neg, round_intCast, neg_neg]
  · exact round_intCast minor

/-- Far from one: a factor between amounts of different exponents. -/
def Far (factor : Rat) : Prop := 10 ≤ factor ∨ 0 < factor ∧ factor ≤ 1 / 10

theorem Far.pos (h : Far factor) : 0 < factor := by
  rcases h with h | h <;> linarith

theorem far_zpow {exponent : Int} (h : exponent ≠ 0) : Far ((10 : Rat) ^ exponent) := by
  rcases lt_or_gt_of_ne h with negative | positive
  · have scaled := zpow_le_zpow_right₀ (by norm_num : (1 : Rat) ≤ 10) (Int.le_sub_one_of_lt negative)
    exact .inr ⟨zpow_pos (by norm_num) _, by simpa using scaled⟩
  · have scaled := zpow_le_zpow_right₀ (by norm_num : (1 : Rat) ≤ 10) (Int.add_one_le_of_lt positive)
    exact .inl (by simpa using scaled)

/-- Scaled by another power of ten, a rounded number is the nearest one only around zero. -/
theorem round_near_scaled_iff (h : Far factor) :
    |(round x : Rat) - x * factor| ≤ 1 / 2 ↔
      (-1 / 2 ≤ x ∧ x < 1 / 2) ∧ |x * factor| ≤ 1 / 2 := by
  obtain ⟨lower, upper⟩ := round_bounds x
  have pos := h.pos
  constructor
  · intro near
    obtain ⟨left, right⟩ := abs_le.mp near
    have zero : round x = 0 := by
      rcases lt_trichotomy (round x) 0 with negative | zero | positive
      · have below : (round x : Rat) ≤ -1 := by exact_mod_cast Int.le_sub_one_of_lt negative
        exfalso
        rcases h with h | h <;> nlinarith
      · exact zero
      · have above : (1 : Rat) ≤ round x := by exact_mod_cast positive
        exfalso
        rcases h with h | h <;> nlinarith
    rw [zero, Int.cast_zero] at lower upper near
    rw [zero_sub, abs_neg] at near
    exact ⟨⟨by linarith, by linarith⟩, near⟩
  · rintro ⟨⟨low, high⟩, near⟩
    have zero : round x = 0 := by
      rw [round_eq, Int.floor_eq_iff]
      constructor <;> push_cast <;> linarith
    rw [zero, Int.cast_zero, zero_sub, abs_neg]
    exact near

end Rounding

end Finverse.Money
