import Finverse.Imports.AmountForms
import Finverse.Receipts.Parse

/-! The amount that is read from a line. -/

namespace Finverse.Receipts

open Finverse.Imports (Digits commaToPoint decimal digitsUpTo)
open Pattern (opt)
open Statements.Text (TextPattern digits oneOf)

/-! ### Amounts from their first digit on -/

def isSeparator (c : Char) : Bool := c ∈ ['.', ',']

/-- The digits after a separator that are read with those before it. -/
def fractionOf (rest : List Char) : List Char :=
  if rest.head?.any isSeparator then (digitsUpTo 2 rest.tail).1 else []

theorem fractionOf_separator {separator : Char} (known : isSeparator separator = true) (more : List Char) :
    fractionOf (separator :: more) = (digitsUpTo 2 more).1 := if_pos known

theorem fractionOf_other {c : Char} (other : ¬isSeparator c = true) (more : List Char) : fractionOf (c :: more) = [] :=
  if_neg other

theorem fractionOf_digits (rest : List Char) : Digits (fractionOf rest) ∧ (fractionOf rest).length ≤ 2 := by
  unfold fractionOf
  split
  · exact Imports.digitsUpTo_digits 2 rest.tail
  · simp [Digits]

/-- The minor units that are read from a digit on. -/
def readMoney (start : List Char) : Nat :=
  let whole := (digitsUpTo 7 start).1
  let fraction := fractionOf (digitsUpTo 7 start).2
  decimal whole * 100 + decimal fraction * 10 ^ (2 - fraction.length)

def firstAmount (text : List Char) : Option Nat :=
  match text.dropWhile fun c => !c.isDigit with
  | [] => none
  | start => some (readMoney start)

/-! ### Numbers of a match -/

section ToMinor

variable {whole fraction : List Char}

theorem commaToPoint_eq_self {text : List Char} (h : ',' ∉ text) : commaToPoint text = text := by
  induction text with
  | nil => rfl
  | cons c text ih =>
    rw [List.mem_cons, not_or] at h
    rw [commaToPoint, if_neg (Ne.symm h.1), ih h.2]

theorem takeWhile_digits (h : Digits whole) : whole.takeWhile Char.isDigit = whole :=
  List.takeWhile_eq_self_iff.mpr h

theorem parseFloat_digits (h : Digits whole) (some_digit : whole ≠ []) :
    parseFloat whole = some (Doubles.nearest (decimal whole)) := by
  simp [parseFloat, takeWhile_digits h, some_digit]

theorem parseFloat_point (h : Digits whole) (some_digit : whole ≠ []) (h' : Digits fraction) :
    parseFloat (whole ++ '.' :: fraction) =
      some (Doubles.nearest ((decimal (whole ++ fraction) : Rat) / 10 ^ fraction.length)) := by
  have front : (whole ++ '.' :: fraction).takeWhile Char.isDigit = whole := by
    rw [List.takeWhile_append_of_pos h, List.takeWhile_cons_of_neg (by decide), List.append_nil]
  simp [parseFloat, front, takeWhile_digits h', some_digit]

theorem cents_lt (h' : Digits fraction) (short' : fraction.length ≤ 2) :
    decimal fraction * 10 ^ (2 - fraction.length) < 100 := by
  calc decimal fraction * 10 ^ (2 - fraction.length)
      < 10 ^ fraction.length * 10 ^ (2 - fraction.length) :=
        Nat.mul_lt_mul_of_pos_right (Imports.decimal_lt h') (Nat.pow_pos (by decide))
    _ = 100 := by rw [← Nat.pow_add, Nat.add_sub_cancel' short']

theorem decimal_lt_of_short {most : Nat} (h : Digits whole) (short : whole.length ≤ most) :
    decimal whole < 10 ^ most :=
  (Imports.decimal_lt h).trans_le (Nat.pow_le_pow_right (by decide) short)

/-- Two digits after the point are exact to the minor unit. -/
theorem toMinor_value (h : Digits whole) (short : whole.length ≤ 7) (h' : Digits fraction)
    (short' : fraction.length ≤ 2) :
    ⌊Doubles.nearest (Doubles.nearest ((decimal (whole ++ fraction) : Rat) / 10 ^ fraction.length) * 100) + 1 / 2⌋ =
      ((decimal whole * 100 + decimal fraction * 10 ^ (2 - fraction.length) : Nat) : Int) := by
  have size : decimal whole < 10 ^ 7 := decimal_lt_of_short h short
  have size' := cents_lt h' short'
  apply Doubles.round_nearest_mul
  · rw [Imports.decimal_append]
    have power : (10 : Rat) ^ fraction.length * 10 ^ (2 - fraction.length) = 100 := by
      rw [← pow_add, Nat.add_sub_cancel' short']
      norm_num
    have nonzero : (10 : Rat) ^ fraction.length ≠ 0 := pow_ne_zero _ (by norm_num)
    push_cast
    field_simp
    rw [← power]
    ring
  · rw [abs_of_nonneg (Int.natCast_nonneg _)]
    omega

end ToMinor

/-- What a match is worth. -/
theorem toMinor_match {whole fraction : List Char} {separator : Char} (h : Digits whole) (some_digit : whole ≠ [])
    (short : whole.length ≤ 7) (h' : Digits fraction) (short' : fraction.length ≤ 2)
    (known : isSeparator separator = true) :
    toMinor (whole ++ separator :: fraction) =
      some ((decimal whole * 100 + decimal fraction * 10 ^ (2 - fraction.length) : Nat) : Int) := by
  have no_comma : ',' ∉ whole := h.not_mem (by decide)
  have no_comma' : ',' ∉ fraction := h'.not_mem (by decide)
  have point : commaToPoint (whole ++ separator :: fraction) = whole ++ '.' :: fraction := by
    simp only [isSeparator, List.mem_cons, List.not_mem_nil, or_false, decide_eq_true_eq] at known
    rcases known with rfl | rfl
    · exact commaToPoint_eq_self (by simp [no_comma, no_comma'])
    · exact Imports.commaToPoint_append no_comma
  rw [toMinor, point, parseFloat_point h some_digit h', Option.map_some, toMinor_value h short h' short']

theorem toMinor_digits {whole : List Char} (h : Digits whole) (some_digit : whole ≠ []) (short : whole.length ≤ 7) :
    toMinor whole = some ((decimal whole * 100 : Nat) : Int) := by
  have value := @toMinor_value whole [] h short (by simp [Digits]) (by simp)
  rw [toMinor, commaToPoint_eq_self (h.not_mem (by decide)), parseFloat_digits h some_digit, Option.map_some]
  simpa [decimal] using value

/-! ### The first match of a line -/

section Match

variable {α β : Type} {c : Cursor Char}

theorem run_digits_none {least most : Nat} {k : Cursor Char → Option β} (some_needed : 0 < least)
    (h : ∀ x ∈ c.ahead.head?, x.isDigit = false) : (digits least most).run c k = none := by
  by_contra found
  obtain ⟨b, found⟩ := Option.ne_none_iff_exists'.mp found
  obtain ⟨c', ⟨text, rest, ahead, holds, enough, -⟩, -⟩ := Pattern.run_eq_some found
  cases text with
  | nil => simp at enough; omega
  | cons x text =>
    have digit := holds x List.mem_cons_self
    rw [h x (by rw [ahead]; rfl)] at digit
    exact Bool.false_ne_true digit

theorem digitsUpTo_nil {most : Nat} (pos : 0 < most) {rest : List Char} (h : (digitsUpTo most rest).1 = []) :
    ∀ x ∈ rest.head?, x.isDigit = false := by
  obtain ⟨split, stops⟩ := Imports.digitsUpTo_split most rest
  rw [h, List.nil_append] at split
  rw [h, ← split] at stops
  exact stops.resolve_right fun full => absurd full (by simp; omega)

theorem run_fraction_none {k : Cursor Char → Option β} (h : fractionOf c.ahead = []) :
    (opt (Pattern.all [oneOf ['.', ','], digits 1 2])).run c k = k c := by
  have nothing : (Pattern.all [oneOf ['.', ','], digits 1 2]).run c k = none := by
    show ((Pattern.one isSeparator).run c fun c => (digits 1 2).run c k) = none
    cases hahead : c.ahead with
    | nil => exact Pattern.run_one_none (by simp [hahead])
    | cons x rest =>
      by_cases separator : isSeparator x = true
      · rw [hahead, fractionOf, if_pos (by simpa using separator)] at h
        rw [Pattern.run_one hahead separator]
        exact run_digits_none Nat.one_pos (digitsUpTo_nil Nat.two_pos h)
      · apply Pattern.run_one_none
        rw [hahead]
        intro y first
        obtain rfl := Option.some.inj first
        exact Bool.eq_false_iff.mpr separator
  rw [opt, Pattern.run, nothing]
  rfl

theorem run_fraction {k : Cursor Char → Option β} {b : β} {separator : Char} {fraction more : List Char}
    (hahead : c.ahead = separator :: (fraction ++ more)) (known : isSeparator separator = true)
    (h : Digits fraction) (enough : 1 ≤ fraction.length) (short : fraction.length ≤ 2)
    (stops : (∀ x ∈ more.head?, x.isDigit = false) ∨ fraction.length = 2)
    (accepts : k (c.skip (separator :: fraction) more) = some b) :
    (opt (Pattern.all [oneOf ['.', ','], digits 1 2])).run c k = some b := by
  have taken : (Pattern.all [oneOf ['.', ','], digits 1 2]).run c k = some b := by
    show ((Pattern.one isSeparator).run c fun c => (digits 1 2).run c k) = some b
    rw [Pattern.run_one hahead known]
    refine Pattern.run_many_most rfl h enough (by simpa using short) (stops.imp_right (by rintro full; rw [full])) ?_
    rw [← Pattern.skip_cons]
    exact accepts
  rw [opt, Pattern.run, taken]
  rfl

/-- What the pattern takes from a digit on. -/
theorem run_money {before start : List Char} (first : ∃ x ∈ start.head?, x.isDigit = true) :
    ∃ stop text, MONEY.run ⟨before, start, []⟩ some = some stop ∧ stop.groups.lookup 1 = some text ∧
      toMinor text = some ((readMoney start : Nat) : Int) := by
  obtain ⟨split, stops⟩ := Imports.digitsUpTo_split 7 start
  obtain ⟨holds, short⟩ := Imports.digitsUpTo_digits 7 start
  have nonempty : (digitsUpTo 7 start).1 ≠ [] := by
    intro nothing
    obtain ⟨x, there, digit⟩ := first
    rw [digitsUpTo_nil (by decide) nothing x there] at digit
    exact Bool.false_ne_true digit
  have enough : 1 ≤ (digitsUpTo 7 start).1.length := List.length_pos_of_ne_nil nonempty
  unfold readMoney
  dsimp only
  generalize (digitsUpTo 7 start).1 = whole at *
  generalize (digitsUpTo 7 start).2 = rest at *
  let c : Cursor Char := ⟨before, start, []⟩
  by_cases nothing : fractionOf rest = []
  · refine ⟨(c.skip whole rest).close c 1, whole, ?_, ?_, ?_⟩
    · apply Pattern.run_many_most (c := c) split holds enough (by simpa using short)
        (stops.imp_right (by rintro full; rw [full]))
      exact run_fraction_none nothing
    · show some ((c.skip whole rest).since c) = some whole
      rw [Cursor.since_skip]
    · rw [toMinor_digits holds nonempty short, nothing]
      simp [decimal]
  · obtain ⟨separator, more, rfl⟩ : ∃ separator more, rest = separator :: more := by
      cases rest with
      | nil => exact absurd rfl nothing
      | cons separator more => exact ⟨separator, more, rfl⟩
    have known : isSeparator separator = true := by
      by_contra other
      exact nothing (fractionOf_other other more)
    rw [fractionOf_separator known] at nothing ⊢
    obtain ⟨split', stops'⟩ := Imports.digitsUpTo_split 2 more
    obtain ⟨holds', short'⟩ := Imports.digitsUpTo_digits 2 more
    generalize (digitsUpTo 2 more).1 = fraction at *
    generalize (digitsUpTo 2 more).2 = rest' at *
    let c' := c.skip (whole ++ separator :: fraction) rest'
    refine ⟨c'.close c 1, whole ++ separator :: fraction, ?_, ?_, ?_⟩
    · apply Pattern.run_many_most (c := c) split holds enough (by simpa using short)
        (stops.imp_right (by rintro full; rw [full]))
      have together : (c.skip whole (separator :: more)).skip (separator :: fraction) rest' = c' := by
        simp [c', Cursor.skip]
      apply run_fraction (by rw [← split']; rfl) known holds' (List.length_pos_of_ne_nil nothing) short' stops'
      rw [together]
    · show some (c'.since c) = some (whole ++ separator :: fraction)
      rw [Cursor.since_skip]
    · exact toMinor_match holds nonempty short holds' short' known

theorem parseMoney_of_digit {line : String} {passed start : List Char} (split : line.toList = passed ++ start)
    (plain : ∀ x ∈ passed, x.isDigit = false) (first : ∃ x ∈ start.head?, x.isDigit = true) :
    parseMoney line = some ((readMoney start : Nat) : Int) := by
  obtain ⟨stop, text, run, group, value⟩ := @run_money (passed.reverse ++ []) start first
  have found : MONEY.exec line.toList = some ⟨⟨passed.reverse ++ [], start, []⟩, stop⟩ := by
    rw [split, Pattern.exec, Pattern.execFrom_skip, Pattern.execFrom_here (Pattern.matchHere_of_run run)]
    rintro a x b rfl
    have outside : x.isDigit = false := plain x (by simp)
    have nothing : MONEY.run ⟨a.reverse ++ [], x :: (b ++ start), []⟩ some = none :=
      run_digits_none (by decide) (by simpa using outside)
    rw [Pattern.matchHere, nothing]
    rfl
  rw [parseMoney, found, Option.bind_some, Pattern.Found.group?, group]
  exact value

theorem parseMoney_none {line : String} (plain : ∀ x ∈ line.toList, x.isDigit = false) : parseMoney line = none := by
  have nothing : MONEY.exec line.toList = none := by
    rw [Pattern.exec, ← List.append_nil line.toList, Pattern.execFrom_skip]
    · have nothing : MONEY.run ⟨line.toList.reverse ++ [], [], []⟩ some = none :=
        run_digits_none (by decide) (by simp)
      rw [Pattern.execFrom, Pattern.matchHere, nothing]
      rfl
    · intro a x b split
      have outside : x.isDigit = false := plain x (by rw [split]; simp)
      have nothing : MONEY.run ⟨a.reverse ++ [], x :: (b ++ []), []⟩ some = none :=
        run_digits_none (by decide) (by simpa using outside)
      rw [Pattern.matchHere, nothing]
      rfl
  rw [parseMoney, nothing]
  rfl

theorem firstAmount_none {text : List Char} (plain : ∀ x ∈ text, x.isDigit = false) : firstAmount text = none := by
  have nothing : (text.dropWhile fun c => !c.isDigit) = [] :=
    List.dropWhile_eq_nil_iff.mpr fun x listed => by simp [plain x listed]
  rw [firstAmount, nothing]

theorem firstAmount_of_digit {passed start : List Char} (plain : ∀ x ∈ passed, x.isDigit = false)
    (first : ∃ x ∈ start.head?, x.isDigit = true) : firstAmount (passed ++ start) = some (readMoney start) := by
  obtain ⟨x, there, digit⟩ := first
  cases start with
  | nil => cases there
  | cons y start =>
    obtain rfl := Option.some.inj there
    have rest : ((passed ++ y :: start).dropWhile fun c => !c.isDigit) = y :: start := by
      rw [List.dropWhile_append_of_pos (fun c listed => by simp [plain c listed]),
        List.dropWhile_cons_of_neg (by simp [digit])]
    rw [firstAmount, rest]

/-- A text up to its first digit. -/
theorem exists_digit (text : List Char) : (∀ x ∈ text, x.isDigit = false) ∨
    ∃ passed start, text = passed ++ start ∧ (∀ x ∈ passed, x.isDigit = false) ∧
      ∃ x ∈ start.head?, x.isDigit = true := by
  induction text with
  | nil => exact .inl (by simp)
  | cons c text ih =>
    by_cases digit : c.isDigit = true
    · exact .inr ⟨[], c :: text, rfl, by simp, c, rfl, digit⟩
    · have outside : c.isDigit = false := by simpa using digit
      rcases ih with plain | ⟨passed, start, rfl, plain, first⟩
      · exact .inl (List.forall_mem_cons.mpr ⟨outside, plain⟩)
      · exact .inr ⟨c :: passed, start, rfl, List.forall_mem_cons.mpr ⟨outside, plain⟩, first⟩

theorem parseMoney_eq (line : String) : parseMoney line = (firstAmount line.toList).map Int.ofNat := by
  rcases exists_digit line.toList with plain | ⟨passed, start, split, plain, first⟩
  · rw [parseMoney_none plain, firstAmount_none plain]
    rfl
  · rw [parseMoney_of_digit split plain first, split, firstAmount_of_digit plain first]
    rfl

end Match

end Finverse.Receipts
