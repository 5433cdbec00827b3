import Finverse.Imports.Review
import Mathlib.Data.List.TakeWhile

/-! Every date that is read of a file is one that the review can count days from. -/

namespace Finverse.Imports

open Ledger (IsoDate)

/-! ### Digits -/

section Digits

variable {width n : Nat}

theorem decimal_padStart (width n : Nat) : decimal (padStart width n) = n := by
  rw [decimal, padStart, Nat.ofDigitChars_append, Nat.ofDigitChars_replicate_zero]
  exact Nat.ofDigitChars_ten_toDigits

theorem padStart_digits (width n : Nat) : ∀ c ∈ padStart width n, c.isDigit = true := by
  intro c stored
  rcases List.mem_append.mp stored with zero | digit
  · rw [(List.mem_replicate.mp zero).2]
    rfl
  · exact Nat.isDigit_of_mem_toDigits (by decide) (by decide) digit

theorem length_padStart (pos : 0 < width) (small : n < 10 ^ width) :
    (padStart width n).length = width := by
  have short : (Nat.toDigits 10 n).length ≤ width :=
    (Nat.length_toDigits_le_iff (by decide) pos).mpr small
  rw [padStart, List.length_append, List.length_replicate]
  omega

theorem decimal_lt {digits : List Char} (h : ∀ c ∈ digits, c.isDigit = true) :
    decimal digits < 10 ^ digits.length := by
  induction digits with
  | nil => simp [decimal]
  | cons c cs ih =>
    have rest : decimal cs < 10 ^ cs.length := ih fun d stored => h d (List.mem_cons_of_mem _ stored)
    have digit : c.toNat - '0'.toNat ≤ 9 := by
      have := h c List.mem_cons_self
      simp only [Char.isDigit, Bool.and_eq_true, decide_eq_true_eq, UInt32.le_iff_toNat_le] at this
      have last : c.toNat ≤ 57 := this.2
      simp only [Char.reduceToNat]
      omega
    calc
      decimal (c :: cs) = 10 ^ cs.length * (c.toNat - '0'.toNat) + decimal cs := by
        rw [decimal, Nat.ofDigitChars_cons, Nat.ofDigitChars_eq_ofDigitChars_zero, Nat.mul_zero,
          Nat.zero_add, decimal]
      _ < 10 ^ cs.length * 9 + 10 ^ cs.length :=
        Nat.add_lt_add_of_le_of_lt (Nat.mul_le_mul_left _ digit) rest
      _ = 10 ^ (c :: cs).length := by
        rw [List.length_cons, Nat.pow_succ]
        omega

theorem digitsUpTo_digits (most : Nat) (cs : List Char) :
    (∀ c ∈ (digitsUpTo most cs).1, c.isDigit = true) ∧ (digitsUpTo most cs).1.length ≤ most := by
  constructor
  · exact fun c stored => List.mem_takeWhile_imp stored
  · calc
      (digitsUpTo most cs).1.length ≤ (cs.take most).length :=
        (List.takeWhile_prefix _).length_le
      _ ≤ most := List.length_take_le _ _

/-- Digits are read as far as they go, or as many as may be. -/
theorem digitsUpTo_most {most : Nat} {digits rest : List Char} (h : ∀ c ∈ digits, c.isDigit = true)
    (short : digits.length ≤ most) (stops : (∀ c ∈ rest.head?, c.isDigit = false) ∨ digits.length = most) :
    digitsUpTo most (digits ++ rest) = (digits, rest) := by
  have taken : ((digits ++ rest).take most).takeWhile Char.isDigit = digits := by
    rw [List.take_append, List.take_of_length_le short, List.takeWhile_append_of_pos h]
    have nothing : (rest.take (most - digits.length)).takeWhile Char.isDigit = [] := by
      cases rest with
      | nil => simp
      | cons c rest =>
        rcases stops with stop | full
        · cases most - digits.length with
          | zero => rfl
          | succ more => exact List.takeWhile_cons_of_neg (by simp [stop c rfl])
        · rw [full, Nat.sub_self]
          rfl
    rw [nothing, List.append_nil]
  rw [digitsUpTo, taken, List.drop_left]

theorem digitsUpTo_split (most : Nat) (cs : List Char) :
    cs = (digitsUpTo most cs).1 ++ (digitsUpTo most cs).2 ∧
      ((∀ c ∈ (digitsUpTo most cs).2.head?, c.isDigit = false) ∨ (digitsUpTo most cs).1.length = most) := by
  unfold digitsUpTo
  dsimp only
  induction cs generalizing most with
  | nil => simp
  | cons c cs ih =>
    cases most with
    | zero => simp
    | succ most =>
      rw [List.take_succ_cons]
      by_cases digit : c.isDigit = true
      · obtain ⟨split, stops⟩ := ih most
        rw [List.takeWhile_cons_of_pos digit, List.length_cons, List.drop_succ_cons, List.cons_append, ← split]
        exact ⟨rfl, stops.imp_right (congrArg Nat.succ)⟩
      · rw [List.takeWhile_cons_of_neg digit]
        exact ⟨rfl, .inl (by simpa using digit)⟩

theorem digitsUpTo_padStart (pos : 0 < width) (small : n < 10 ^ width) (rest : List Char) :
    digitsUpTo width (padStart width n ++ rest) = (padStart width n, rest) := by
  have length := length_padStart pos small
  exact digitsUpTo_most (padStart_digits width n) length.le (.inr length)

end Digits

/-! ### Days -/

/-- The parts that a date is built of. -/
structure Parts (date : IsoDate) (year month day : Nat) : Prop where
  text : date.toList = padStart 4 year ++ '-' :: padStart 2 month ++ '-' :: padStart 2 day
  year_lt : year < 10000
  month_le : 1 ≤ month ∧ month ≤ 12
  day_le : 1 ≤ day ∧ day ≤ 31

section Days

variable {date : IsoDate} {year month day : Nat}

theorem parts_of_build (built : build year month day = some date) (small : year < 10000) :
    Parts date year month day := by
  rw [build] at built
  split at built
  · cases built
  · rename_i inRange
    simp only [not_or, not_lt] at inRange
    split at built
    · cases built
    · obtain rfl := Option.some.inj built
      exact ⟨by simp, small, ⟨inRange.1, inRange.2.1⟩, ⟨inRange.2.2.1, inRange.2.2.2⟩⟩

theorem Parts.threeNumbers (h : Parts date year month day) :
    threeNumbers ['-'] 4 4 2 2 date.toList = some (year, month, day) := by
  have hmonth : month < 10 ^ 2 := lt_of_le_of_lt h.month_le.2 (by decide)
  have hday : day < 10 ^ 2 := lt_of_le_of_lt h.day_le.2 (by decide)
  have first := digitsUpTo_padStart (by decide : 0 < 4) h.year_lt
    ('-' :: padStart 2 month ++ '-' :: padStart 2 day)
  have second := digitsUpTo_padStart (by decide : 0 < 2) hmonth ('-' :: padStart 2 day)
  have third := digitsUpTo_padStart (by decide : 0 < 2) hday []
  rw [List.append_nil] at third
  have lengths : (padStart 4 year).length = 4 ∧ (padStart 2 month).length = 2 ∧
      (padStart 2 day).length = 2 :=
    ⟨length_padStart (by decide) h.year_lt, length_padStart (by decide) hmonth,
      length_padStart (by decide) hday⟩
  rw [h.text, List.append_assoc, List.cons_append] at *
  simp [Imports.threeNumbers, first, second, third, lengths, decimal_padStart]

theorem Parts.parseDay (h : Parts date year month day) :
    parseDay date = some (dayNumber year month day) := by
  have length : date.toList.length = 10 := by
    rw [h.text]
    simp [length_padStart (by decide : 0 < 4) h.year_lt,
      length_padStart (by decide : 0 < 2) (lt_of_le_of_lt h.month_le.2 (by decide) : month < 10 ^ 2),
      length_padStart (by decide : 0 < 2) (lt_of_le_of_lt h.day_le.2 (by decide) : day < 10 ^ 2)]
  simp [Imports.parseDay, h.threeNumbers, length, h.month_le, h.day_le]

/-- No separator of a fingerprint stands in a date. -/
theorem Parts.no_bar (h : Parts date year month day) : '|' ∉ date.toList := by
  have digits : ∀ width n : Nat, '|' ∉ padStart width n :=
    fun width n stored => absurd (padStart_digits width n _ stored) (by decide)
  rw [h.text]
  simp [digits]

theorem threeNumbers_some {separators : List Char} {least most least' most' : Nat} {cs : List Char}
    {a b c : Nat} (h : threeNumbers separators least most least' most' cs = some (a, b, c)) :
    a < 10 ^ most ∧ c < 10 ^ most' := by
  simp only [threeNumbers] at h
  split at h
  · obtain ⟨rfl, rfl, rfl⟩ : _ ∧ _ ∧ _ := by simpa using Option.some.inj h
    have bound : ∀ (limit : Nat) (cs : List Char), decimal (digitsUpTo limit cs).1 < 10 ^ limit := by
      intro limit cs
      obtain ⟨digits, short⟩ := digitsUpTo_digits limit cs
      exact (decimal_lt digits).trans_le (Nat.pow_le_pow_right (by decide) short)
    exact ⟨bound .., bound ..⟩
  · cases h

theorem fullYear_lt (small : year < 10000) : fullYear year < 10000 := by
  simp only [fullYear]
  split
  · split <;> omega
  · exact small

/-- A date that could be read is of four, two and two digits. -/
theorem parts_of_parseDate {value : String} {order : DateOrder}
    (h : parseDate value order = some date) : ∃ year month day, Parts date year month day := by
  simp only [parseDate] at h
  split at h
  · rename_i read
    exact ⟨_, _, _, parts_of_build h (threeNumbers_some read).1⟩
  · split at h
    · rename_i read
      have small := fullYear_lt (threeNumbers_some read).2
      split at h
      · exact ⟨_, _, _, parts_of_build h small⟩
      · exact ⟨_, _, _, parts_of_build h small⟩
    · cases h

end Days

end Finverse.Imports
