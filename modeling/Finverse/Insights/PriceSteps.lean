import Finverse.Insights.Subscriptions
import Mathlib.Data.List.Sort

/-! What is found of a price that went up once. -/

namespace Finverse.Insights

/-! ### The median of two prices -/

theorem round_intCast (n : Int) : round n = n := by
  have half : (n : Rat) + 1 / 2 < n + 1 := by norm_num
  rw [round, Int.floor_eq_iff]
  exact ⟨by norm_num, half⟩

theorem round_double (n : Int) : round (((n + n : Int) : Rat) / 2) = n := by
  have whole : ((n + n : Int) : Rat) / 2 = n := by
    push_cast
    ring
  rw [whole, round_intCast]

/-- Between two prices, halves upwards. -/
def midpoint (p q : Int) : Int := (p + q + 1) / 2

theorem round_midpoint (p q : Int) : round (((p + q : Int) : Rat) / 2) = midpoint p q := by
  have sum : ((p + q : Int) : Rat) / 2 + 1 / 2 = ((p + q + 1 : Int) : Rat) / ((2 : Nat) : Rat) := by
    push_cast
    ring
  rw [round, sum, Rat.floor_intCast_div_natCast, midpoint]
  rfl

/-- The charges of a price, and then those of the next one. -/
def charges (k : Nat) (p : Int) (m : Nat) (q : Int) : List Int :=
  List.replicate k p ++ List.replicate m q

section Charges

variable {k m i : Nat} {p q : Int}

@[simp] theorem length_charges : (charges k p m q).length = k + m := by
  simp [charges]

theorem getElem?_charges : (charges k p m q)[i]? =
    if i < k then some p else if i < k + m then some q else none := by
  by_cases first : i < k
  · rw [charges, List.getElem?_append_left (by simpa using first), if_pos first]
    simp [first]
  · have rest : i - k < m ↔ i < k + m := by omega
    rw [charges, List.getElem?_append_right (by simpa using first), if_neg first]
    simp [List.getElem?_replicate, rest]

theorem charges_sorted (rise : p ≤ q) : (charges k p m q).insertionSort (· ≤ ·) = charges k p m q := by
  apply List.Pairwise.insertionSort_eq
  rw [charges, List.pairwise_append]
  refine ⟨List.pairwise_replicate.mpr (Or.inr (le_refl p)),
    List.pairwise_replicate.mpr (Or.inr (le_refl q)), ?_⟩
  intro a first b second
  rw [List.eq_of_mem_replicate first, List.eq_of_mem_replicate second]
  exact rise

theorem median_charges (rise : p ≤ q) (some_ : 0 < k + m) : median (charges k p m q) =
    if k < m then q else if m < k then p else midpoint p q := by
  have nonempty : charges k p m q ≠ [] := by
    apply List.ne_nil_of_length_pos
    rw [length_charges]
    exact some_
  rw [median, charges_sorted rise, length_charges, if_neg nonempty]
  have middle : (charges k p m q)[(k + m) / 2]?.getD 0 = if m < k then p else q := by
    rw [getElem?_charges]
    have low : (k + m) / 2 < k ↔ m < k := by omega
    have high : (k + m) / 2 < k + m := by omega
    by_cases more : m < k
    · rw [if_pos (low.mpr more), if_pos more]
      rfl
    · rw [if_neg (fun h => more (low.mp h)), if_pos high, if_neg more]
      rfl
  by_cases odd : (k + m) % 2 = 1
  · have unequal : k ≠ m := by omega
    rw [if_pos odd, middle]
    split_ifs <;> first | rfl | omega
  · have before : (charges k p m q)[(k + m) / 2 - 1]?.getD 0 = if m ≤ k then p else q := by
      rw [getElem?_charges]
      have low : (k + m) / 2 - 1 < k ↔ m ≤ k := by omega
      have high : (k + m) / 2 - 1 < k + m := by omega
      by_cases more : m ≤ k
      · rw [if_pos (low.mpr more), if_pos more]
        rfl
      · rw [if_neg (fun h => more (low.mp h)), if_pos high, if_neg more]
        rfl
    rw [if_neg odd, middle, before]
    rcases Nat.lt_trichotomy k m with less | same | more
    · rw [if_neg (by omega), if_neg (by omega), if_pos less, round_double]
    · rw [if_pos (by omega), if_neg (by omega), if_neg (by omega), if_neg (by omega), round_midpoint]
    · rw [if_pos (by omega), if_pos more, if_neg (by omega), if_pos more, round_double]

/-! ### A split -/

theorem drift_le_iff {amount typical : Int} (pos : 0 < typical) :
    drift amount typical ≤ AMOUNT_TOLERANCE ↔ 100 * |amount - typical| ≤ 15 * typical := by
  have pos' : (0 : Rat) < typical := by exact_mod_cast pos
  have scaled : drift amount typical ≤ AMOUNT_TOLERANCE ↔
      (100 * |amount - typical| : Rat) ≤ 15 * typical := by
    rw [drift, AMOUNT_TOLERANCE, div_le_iff₀ pos']
    push_cast
    constructor <;> intro h <;> linarith
  rw [scaled]
  exact_mod_cast Iff.rfl

theorem take_charges (within : i ≤ k) : (charges k p m q).take i = charges i p 0 q := by
  simp [charges, List.take_append, List.take_replicate, within]

theorem drop_charges (within : i ≤ k) : (charges k p m q).drop i = charges (k - i) p m q := by
  have none_ : i - k = 0 := by omega
  simp [charges, List.drop_append, List.drop_replicate, none_]

/-- How the charges after a split are consistent. -/
theorem segmentConsistent_charges (some_ : 0 < k + m) (pos : 0 < median (charges k p m q)) :
    segmentConsistent (charges k p m q) = true ↔
      (0 < k → 100 * |p - median (charges k p m q)| ≤ 15 * median (charges k p m q)) ∧
      (0 < m → 100 * |q - median (charges k p m q)| ≤ 15 * median (charges k p m q)) := by
  have nonempty : charges k p m q ≠ [] := by
    apply List.ne_nil_of_length_pos
    rw [length_charges]
    exact some_
  rw [segmentConsistent, Bool.and_eq_true, Bool.and_eq_true, decide_eq_true_eq, decide_eq_true_eq,
    List.all_eq_true, and_iff_right ⟨nonempty, pos⟩]
  simp only [decide_eq_true_eq, drift_le_iff pos]
  constructor
  · intro near
    constructor
    · intro first
      exact near p (by simp [charges, first.ne'])
    · intro second
      exact near q (by simp [charges, second.ne'])
  · intro near amount there
    rcases List.mem_append.mp there with first | second
    · obtain ⟨count, rfl⟩ := List.mem_replicate.mp first
      exact near.1 (Nat.pos_of_ne_zero count)
    · obtain ⟨count, rfl⟩ := List.mem_replicate.mp second
      exact near.2 (Nat.pos_of_ne_zero count)

theorem le_midpoint (rise : p ≤ q) : p ≤ midpoint p q ∧ midpoint p q ≤ q := by
  rw [midpoint]
  omega

theorem le_median_charges (rise : p ≤ q) (some_ : 0 < k + m) : p ≤ median (charges k p m q) := by
  rw [median_charges rise some_]
  have between := le_midpoint rise
  split_ifs <;> omega

theorem percent_lt_iff {h : Int} (pos : 0 < p) (rise : p ≤ h) :
    |((h - p : Int) : Rat) / p * 100| < PRICE_INCREASE_THRESHOLD * 100 ↔ ¬p ≤ 20 * (h - p) := by
  have pos' : (0 : Rat) < p := by exact_mod_cast pos
  have rise' : (0 : Rat) ≤ (h - p : Int) := by exact_mod_cast sub_nonneg.mpr rise
  have share : ((h - p : Int) : Rat) / p * 100 = 100 * (h - p : Int) / p := by ring
  rw [abs_of_nonneg (by positivity), share, PRICE_INCREASE_THRESHOLD, div_lt_iff₀ pos', not_le]
  have scaled : 100 * ((h - p : Int) : Rat) < 5 / 100 * 100 * p ↔
      (20 * (h - p : Int) : Rat) < p := by
    constructor <;> intro less <;> linarith
  rw [scaled]
  exact_mod_cast Iff.rfl

/-- The step that is reported from one price to another. -/
def stepFrom (p h : Int) : AmountAnalysis :=
  ⟨h, 1, some ⟨p, h, ((h - p : Int) : Rat) / p * 100⟩⟩

/-- A split among the charges of the first price. -/
theorem priceStep_charges (pos : 0 < p) (rise : p ≤ q) (some_ : 0 < m) (low : 0 < i) (within : i ≤ k) :
    priceStep (charges k p m q) i =
      if segmentConsistent (charges (k - i) p m q) = true ∧
          p ≤ 20 * (median (charges (k - i) p m q) - p) then
        some (stepFrom p (median (charges (k - i) p m q)))
      else none := by
  have before : median (charges i p 0 q) = p := by
    rw [median_charges rise (by omega), if_neg (by omega), if_pos low]
  have steady : segmentConsistent (charges i p 0 q) = true := by
    rw [segmentConsistent_charges (by omega) (by rw [before]; exact pos), before]
    simp [pos.le]
  have above : p ≤ median (charges (k - i) p m q) := le_median_charges rise (by omega)
  rw [priceStep, take_charges within, drop_charges within, steady, before, Bool.true_and]
  simp only [percent_lt_iff pos above]
  by_cases consistent : segmentConsistent (charges (k - i) p m q) = true
  · by_cases risen : p ≤ 20 * (median (charges (k - i) p m q) - p)
    · have positive : (0 : Rat) < ((median (charges (k - i) p m q) - p : Int) : Rat) / p * 100 := by
        have pos' : (0 : Rat) < p := by exact_mod_cast pos
        have more : (0 : Rat) < (median (charges (k - i) p m q) - p : Int) := by
          have more : 0 < median (charges (k - i) p m q) - p := by omega
          exact_mod_cast more
        positivity
      rw [consistent, if_pos rfl, if_neg (not_not.mpr risen), if_pos positive, if_pos ⟨rfl, risen⟩, stepFrom]
    · simp [consistent, risen]
  · simp [consistent]

/-! ### What is reported -/

/-- The rise is reported as it was, and the later price as the price. -/
def Reports (analysis : AmountAnalysis) (p q : Int) : Prop :=
  analysis.typicalAmount = q ∧
    ∃ increase ∈ analysis.priceIncrease, increase.before = p ∧ increase.after = q

/-- As many of the last charges before the rise as there are after it stand with these for a price in
between, which is near to both prices and passes for a rise of its own. -/
structure Blurred (k m : Nat) (p q : Int) : Prop where
  enough : m + 2 ≤ k
  between : midpoint p q ≠ q
  near_before : 100 * (midpoint p q - p) ≤ 15 * midpoint p q
  near_after : 100 * (q - midpoint p q) ≤ 15 * midpoint p q
  risen : p ≤ 20 * (midpoint p q - p)

theorem reports_stepFrom (h : Int) : Reports (stepFrom p h) p q ↔ h = q := by
  constructor
  · intro reported
    exact reported.1
  · rintro rfl
    exact ⟨rfl, _, rfl, rfl, rfl⟩

/-- A split that leaves fewer charges of the first price than of the second, or more, hides nothing. -/
theorem priceStep_uneven (pos : 0 < p) (rise : p ≤ q) (some_ : 0 < m) (low : 0 < i) (within : i ≤ k)
    (uneven : k - i ≠ m) (analysis : AmountAnalysis)
    (found : priceStep (charges k p m q) i = some analysis) : Reports analysis p q := by
  rw [priceStep_charges pos rise some_ low within] at found
  split at found
  · rename_i step
    obtain rfl := Option.some.inj found
    rw [reports_stepFrom]
    have median_ := median_charges (k := k - i) (m := m) rise (by omega)
    rcases Nat.lt_or_gt_of_ne uneven with fewer | more
    · rw [median_, if_pos fewer]
    · rw [median_, if_neg (by omega), if_pos more] at step
      omega
  · cases found

theorem priceStep_even (pos : 0 < p) (rise : p ≤ q) (some_ : 0 < m) (low : 0 < i) (within : i + m = k) :
    priceStep (charges k p m q) i =
      if 100 * (midpoint p q - p) ≤ 15 * midpoint p q ∧ 100 * (q - midpoint p q) ≤ 15 * midpoint p q ∧
          p ≤ 20 * (midpoint p q - p) then some (stepFrom p (midpoint p q))
      else none := by
  have between := le_midpoint rise
  have rest : k - i = m := by omega
  have median_ : median (charges m p m q) = midpoint p q := by
    rw [median_charges rise (by omega), if_neg (by omega), if_neg (by omega)]
  have below : |p - midpoint p q| = midpoint p q - p := by
    rw [abs_sub_comm, abs_of_nonneg (by omega)]
  have above : |q - midpoint p q| = q - midpoint p q := abs_of_nonneg (by omega)
  have consistent : segmentConsistent (charges m p m q) = true ↔
      100 * (midpoint p q - p) ≤ 15 * midpoint p q ∧ 100 * (q - midpoint p q) ≤ 15 * midpoint p q := by
    rw [segmentConsistent_charges (by omega) (by rw [median_]; omega), median_, below, above,
      forall_prop_of_true some_, forall_prop_of_true some_]
  rw [priceStep_charges pos rise some_ low (by omega), rest, median_]
  simp only [consistent, and_assoc]

/-- The split at the rise itself is taken if no earlier one is. -/
theorem priceStep_last (pos : 0 < p) (rise : p ≤ q) (risen : p ≤ 20 * (q - p)) (some_ : 0 < m)
    (low : 0 < k) : priceStep (charges k p m q) k = some (stepFrom p q) := by
  have median_ : median (charges 0 p m q) = q := by
    rw [median_charges rise (by omega), if_pos some_]
  have steady : segmentConsistent (charges 0 p m q) = true := by
    rw [segmentConsistent_charges (by omega) (by rw [median_]; omega), median_]
    simp [(pos.trans_le rise).le]
  rw [priceStep_charges pos rise some_ low (le_refl k), Nat.sub_self, median_, if_pos ⟨steady, risen⟩]

theorem findSome?_reports {f : Nat → Option AmountAnalysis} {l : List Nat}
    (each : ∀ j ∈ l, ∀ analysis, f j = some analysis → Reports analysis p q)
    (one : ∃ j ∈ l, (f j).isSome) : ∃ analysis, l.findSome? f = some analysis ∧ Reports analysis p q := by
  obtain ⟨j, there, found⟩ := one
  have some_ : (l.findSome? f).isSome := List.findSome?_isSome_iff.mpr ⟨j, there, found⟩
  obtain ⟨analysis, first⟩ := Option.isSome_iff_exists.mp some_
  obtain ⟨j', there', found'⟩ := List.exists_of_findSome?_eq_some first
  exact ⟨analysis, first, each j' there' analysis found'⟩

/-- A rise of at least five percent is reported just where no blurred price comes before it. -/
theorem analyzeAmounts_reports_iff (established : 2 ≤ k) (some_ : 1 ≤ m) (pos : 0 < p)
    (rise : (p : Rat) * (1 + PRICE_INCREASE_THRESHOLD) ≤ q) :
    Reports (analyzeAmounts (charges k p m q)) p q ↔ ¬Blurred k m p q := by
  have risen : p ≤ 20 * (q - p) := by
    rw [PRICE_INCREASE_THRESHOLD] at rise
    have scaled : (p : Rat) ≤ 20 * (q - p) := by linarith
    exact_mod_cast scaled
  have le : p ≤ q := by omega
  have last := priceStep_last pos le risen some_ (by omega : 0 < k)
  have reached : k ∈ List.range' 2 (k + m - 2) := by
    rw [List.mem_range'_1]
    omega
  rw [analyzeAmounts, length_charges]
  constructor
  · intro reported blurred
    have enough := blurred.enough
    have even : priceStep (charges k p m q) (k - m) = some (stepFrom p (midpoint p q)) := by
      rw [priceStep_even pos le some_ (by omega) (by omega),
        if_pos ⟨blurred.near_before, blurred.near_after, blurred.risen⟩]
    -- before that split there are more charges of the first price on both sides
    have first : (List.range' 2 (k + m - 2)).findSome? (priceStep (charges k p m q)) =
        some (stepFrom p (midpoint p q)) := by
      have split : List.range' 2 (k + m - 2) =
          List.range' 2 (k - m - 2) ++ (k - m) :: List.range' (k - m + 1) (2 * m - 1) := by
        have length : k + m - 2 = (k - m - 2) + (2 * m - 1 + 1) := by omega
        have start : 2 + (k - m - 2) = k - m := by omega
        rw [length, ← List.range'_append_1, start, List.range'_succ]
      rw [List.findSome?_eq_some_iff]
      refine ⟨_, _, _, split, even, ?_⟩
      intro j early
      rw [List.mem_range'_1] at early
      rw [priceStep_charges pos le some_ (by omega) (by omega), if_neg]
      rw [median_charges le (by omega), if_neg (by omega), if_pos (by omega)]
      omega
    rw [first, Option.getD_some, reports_stepFrom] at reported
    exact blurred.between reported
  · intro clear_
    have each : ∀ j ∈ List.range' 2 (k + m - 2), j ≤ k → ∀ analysis,
        priceStep (charges k p m q) j = some analysis → Reports analysis p q := by
      intro j there within analysis found
      rw [List.mem_range'_1] at there
      by_cases even : k - j = m
      · rw [priceStep_even pos le some_ (by omega) (by omega)] at found
        split at found
        · rename_i passed
          obtain rfl := Option.some.inj found
          rw [reports_stepFrom]
          by_contra other
          exact clear_ ⟨by omega, other, passed.1, passed.2.1, passed.2.2⟩
        · cases found
      · exact priceStep_uneven pos le some_ (by omega) within even analysis found
    have split : List.range' 2 (k + m - 2) = List.range' 2 (k - 1) ++ List.range' (k + 1) (m - 1) := by
      have length : k + m - 2 = (k - 1) + (m - 1) := by omega
      have start : 2 + (k - 1) = k + 1 := by omega
      rw [length, ← List.range'_append_1, start]
    have early : ∀ j ∈ List.range' 2 (k - 1), ∀ analysis,
        priceStep (charges k p m q) j = some analysis → Reports analysis p q := by
      intro j there
      rw [List.mem_range'_1] at there
      refine each j ?_ (by omega)
      rw [List.mem_range'_1]
      omega
    obtain ⟨analysis, first, reported⟩ := findSome?_reports early
      ⟨k, by rw [List.mem_range'_1]; omega, by rw [last]; rfl⟩
    rw [split, List.findSome?_append, first, Option.some_or, Option.getD_some]
    exact reported

end Charges

/-- A charge of 12 instead of 10, after two of 10. -/
theorem reports_streaming : Reports (analyzeAmounts (charges 2 1000 1 1200)) 1000 1200 := by
  refine (analyzeAmounts_reports_iff (le_refl 2) (le_refl 1) (by decide) (by norm_num
    [PRICE_INCREASE_THRESHOLD])).mpr fun blurred => ?_
  exact absurd blurred.enough (by decide)

/-- After three charges of 10 the one of 11 is taken with the last of these for a price of 10.50. -/
theorem not_every_rise_reported : ¬∀ (k m : Nat) (p q : Int), 2 ≤ k → 1 ≤ m → 0 < p →
    (p : Rat) * (1 + PRICE_INCREASE_THRESHOLD) ≤ q → Reports (analyzeAmounts (charges k p m q)) p q := by
  intro all
  have reported := all 3 1 1000 1100 (by decide) (by decide) (by decide)
    (by norm_num [PRICE_INCREASE_THRESHOLD])
  have typical : (analyzeAmounts (charges 3 1000 1 1100)).typicalAmount = 1050 := by decide +kernel
  rw [Reports, typical] at reported
  exact absurd reported.1 (by decide)

end Finverse.Insights
