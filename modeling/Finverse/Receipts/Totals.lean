import Finverse.Receipts.Amounts

/-! The lines whose amount is read for the total of the receipt. -/

namespace Finverse.Receipts

open Finverse.Imports (Digits Rendering decimal digitsUpTo)

/-! ### The line of the total -/

theorem foldl_totalMinor (toLowerCase : String → String) (lines : List String) (fields : Fields) :
    (lines.foldl (readLine toLowerCase) fields).totalMinor = fields.totalMinor.or (lines.findSome? fun line =>
      if hasAnyLabel toLowerCase line .total = true then parseMoney line else none) := by
  induction lines generalizing fields with
  | nil => simp
  | cons line lines ih =>
    rw [List.foldl_cons, ih, List.findSome?_cons]
    cases total : fields.totalMinor with
    | some amount => simp [readLine, total]
    | none =>
      by_cases label : hasAnyLabel toLowerCase line .total = true
      · cases read : parseMoney line <;> simp [readLine, total, label, read]
      · simp [readLine, total, label]

/-- Only the first line with a label counts, if there is a number in it. -/
theorem totalMinor_of_line {toLowerCase : String → String} {text line : String} {earlier later : List String}
    {amount : Int} (lines : receiptLines text = earlier ++ line :: later)
    (unlabelled : ∀ line ∈ earlier, hasAnyLabel toLowerCase line .total = false)
    (labelled : hasAnyLabel toLowerCase line .total = true) (read : parseMoney line = some amount) :
    (parseReceiptText toLowerCase text).totalMinor = some amount := by
  have nothing : (earlier.findSome? fun line =>
      if hasAnyLabel toLowerCase line .total = true then parseMoney line else none) = none := by
    rw [List.findSome?_eq_none_iff]
    intro line listed
    rw [if_neg (by rw [unlabelled line listed]; exact Bool.false_ne_true)]
  show ((receiptLines text).foldl (readLine toLowerCase) {}).totalMinor = some amount
  rw [foldl_totalMinor, lines, List.findSome?_append, nothing, List.findSome?_cons, if_pos labelled, read]
  rfl

/-! ### What stands before the amount -/

/-- No number goes on after this text. -/
def Apart (before : List Char) : Prop :=
  ∀ d : Char, d.isDigit = true → ¬[d] <:+ before ∧ ∀ s, isSeparator s = true → ¬[d, s] <:+ before

theorem Apart.of_suffix {before tail : List Char} (apart : Apart before) (part : tail <:+ before) : Apart tail :=
  fun d digit => ⟨fun there => (apart d digit).1 (there.trans part),
    fun s separator there => (apart d digit).2 s separator (there.trans part)⟩

/-- Digits that are not all of the text, as it does not end in one. -/
theorem exists_digit_last {text : List Char} (digits : Digits text) (some_digit : text ≠ []) :
    ∃ d, d.isDigit = true ∧ [d] <:+ text := by
  obtain ⟨front, d, rfl⟩ := (List.eq_nil_or_concat text).resolve_left some_digit
  exact ⟨d, digits d (by simp), ⟨front, by simp⟩⟩

theorem readMoney_append {start : List Char} (apart : Apart start) (first : ∃ x ∈ start.head?, x.isDigit = true)
    (rest : List Char) : readMoney (start ++ rest) = readMoney start := by
  obtain ⟨split, stops⟩ := Imports.digitsUpTo_split 7 start
  obtain ⟨holds, short⟩ := Imports.digitsUpTo_digits 7 start
  have nonempty : (digitsUpTo 7 start).1 ≠ [] := by
    intro nothing
    obtain ⟨x, there, digit⟩ := first
    rw [digitsUpTo_nil (by decide) nothing x there] at digit
    exact Bool.false_ne_true digit
  unfold readMoney
  dsimp only
  generalize (digitsUpTo 7 start).1 = whole at *
  generalize (digitsUpTo 7 start).2 = after at *
  obtain ⟨d, digit, last⟩ := exists_digit_last holds nonempty
  cases after with
  | nil =>
    rw [List.append_nil] at split
    exact absurd (split ▸ last) (apart d digit).1
  | cons separator more =>
    have whole_eq : digitsUpTo 7 (start ++ rest) = (whole, separator :: (more ++ rest)) := by
      rw [split, List.append_assoc]
      exact Imports.digitsUpTo_most holds short stops
    have fraction_eq : fractionOf (separator :: (more ++ rest)) = fractionOf (separator :: more) := by
      by_cases known : isSeparator separator = true
      · rw [fractionOf_separator known, fractionOf_separator known]
        obtain ⟨split', stops'⟩ := Imports.digitsUpTo_split 2 more
        obtain ⟨holds', short'⟩ := Imports.digitsUpTo_digits 2 more
        generalize (digitsUpTo 2 more).1 = fraction at *
        generalize (digitsUpTo 2 more).2 = after' at *
        cases after' with
        | nil =>
          rw [List.append_nil] at split'
          rw [split'] at split
          by_cases empty : fraction = []
          · rw [empty] at split
            obtain ⟨front, rfl⟩ := last
            exact absurd ⟨front, by simp [split]⟩ ((apart d digit).2 separator known)
          · obtain ⟨d', digit', last'⟩ := exists_digit_last holds' empty
            have ends : [d'] <:+ start := by
              rw [split]
              exact last'.trans ((List.suffix_cons _ _).trans (List.suffix_append _ _))
            exact absurd ends (apart d' digit').1
        | cons x after' =>
          have longer : digitsUpTo 2 (more ++ rest) = (fraction, x :: (after' ++ rest)) := by
            rw [split', List.append_assoc]
            exact Imports.digitsUpTo_most holds' short' stops'
          rw [longer]
      · rw [fractionOf_other known, fractionOf_other known]
    rw [whole_eq, fraction_eq]

theorem firstAmount_append {before : List Char} (apart : Apart before) (rest : List Char) :
    firstAmount (before ++ rest) = (firstAmount before).or (firstAmount rest) := by
  rcases exists_digit before with plain | ⟨passed, start, rfl, plain, first⟩
  · rw [firstAmount_none plain, Option.none_or, firstAmount, firstAmount,
      List.dropWhile_append_of_pos fun c listed => by simp [plain c listed]]
  · have first' : ∃ x ∈ (start ++ rest).head?, x.isDigit = true := by
      obtain ⟨x, there, digit⟩ := first
      exact ⟨x, by simp [Option.mem_def.mp there], digit⟩
    rw [List.append_assoc, firstAmount_of_digit plain first', firstAmount_of_digit plain first,
      readMoney_append (apart.of_suffix (List.suffix_append passed start)) first, Option.some_or]

/-! ### What is read of an amount -/

theorem readMoney_lt (start : List Char) : readMoney start < 10 ^ 9 := by
  obtain ⟨holds, short⟩ := Imports.digitsUpTo_digits 7 start
  obtain ⟨holds', short'⟩ := fractionOf_digits (digitsUpTo 7 start).2
  have whole := decimal_lt_of_short holds short
  have cents := cents_lt holds' short'
  unfold readMoney
  dsimp only
  omega

section Amount

variable {r : Rendering} {amount : Nat} {rest : List Char}

theorem isSeparator_pointChar (style : Imports.GroupStyle) : isSeparator style.pointChar = true := by
  cases style <;> rfl

theorem isSeparator_groupChar (style : Imports.GroupStyle) : isSeparator style.groupChar = true := by
  cases style <;> rfl

theorem not_digit_of_separator {c : Char} (known : isSeparator c = true) : c.isDigit = false := by
  simp only [isSeparator, List.mem_cons, List.not_mem_nil, or_false, decide_eq_true_eq] at known
  rcases known with rfl | rfl <;> decide

theorem digitsText_two (r : Rendering) (amount : Nat) : r.digitsText 2 amount =
    r.wholeText (amount / 100) ++ r.style.pointChar :: Imports.padStart 2 (amount % 100) := rfl

/-- Digits up to a separator, and what the separator leads to. -/
theorem readMoney_separator {whole more : List Char} {separator : Char} (h : Digits whole) (short : whole.length ≤ 7)
    (known : isSeparator separator = true) : readMoney (whole ++ separator :: more) =
      decimal whole * 100 + decimal (digitsUpTo 2 more).1 * 10 ^ (2 - (digitsUpTo 2 more).1.length) := by
  have stops : ∀ c ∈ (separator :: more).head?, c.isDigit = false := by
    intro c first
    obtain rfl := Option.some.inj first
    exact not_digit_of_separator known
  unfold readMoney
  rw [Imports.digitsUpTo_most h short (.inl stops), fractionOf_separator known]

/-- Without groups an amount is read if its whole part has seven digits at most. -/
theorem readMoney_plain (plain : ¬r.Separated 2 amount) (short : amount < 10 ^ 9) :
    readMoney (r.digitsText 2 amount ++ rest) = amount := by
  obtain ⟨digits, -, value⟩ := Imports.toDigits_facts (amount / 100)
  have seven : (Nat.toDigits 10 (amount / 100)).length ≤ 7 :=
    (Nat.length_toDigits_le_iff (by decide) (by decide)).mpr (by omega)
  have small : amount % 100 < 10 ^ 2 := Nat.mod_lt _ (by decide)
  have length := Imports.length_padStart Nat.two_pos small
  have whole : r.wholeText (amount / 100) = Nat.toDigits 10 (amount / 100) := Imports.wholeText_plain plain
  rw [digitsText_two, whole, List.append_assoc, List.cons_append,
    readMoney_separator digits seven (isSeparator_pointChar r.style),
    Imports.digitsUpTo_padStart Nat.two_pos small, value, length, Imports.decimal_padStart]
  omega

/-- The first group, and the character after it. -/
theorem digitsText_groups (groups : r.Separated 2 amount) : ∃ first more, Digits first ∧ first ≠ [] ∧
    first.length ≤ 3 ∧ r.digitsText 2 amount = first ++ r.style.groupChar :: more := by
  obtain ⟨digits, -, -⟩ := Imports.toDigits_facts (amount / 100)
  obtain ⟨first, more, after, split, one, three, text⟩ :=
    Imports.grouped_first r.style.groupChar ((Imports.toDigits_long (amount / 100)).mpr groups.2)
  have first_digits : Digits first := fun c listed => digits c (by rw [split]; exact List.mem_append_left more listed)
  refine ⟨first, after ++ r.style.pointChar :: Imports.padStart 2 (amount % 100), first_digits,
    List.ne_nil_of_length_pos one, three, ?_⟩
  rw [digitsText_two, Rendering.wholeText, if_pos groups.1, text, List.append_assoc, List.cons_append]

/-- Of groups only the first is read, with two digits of the next one. -/
theorem readMoney_groups (groups : r.Separated 2 amount) : readMoney (r.digitsText 2 amount ++ rest) < 10 ^ 5 := by
  obtain ⟨first, more, digits, -, three, text⟩ := digitsText_groups groups
  obtain ⟨cents_digits, two⟩ := Imports.digitsUpTo_digits 2 (more ++ rest)
  have whole := decimal_lt_of_short digits three
  have cents := cents_lt cents_digits two
  rw [text, List.append_assoc, List.cons_append,
    readMoney_separator digits (by omega) (isSeparator_groupChar r.style)]
  omega

theorem digitsText_first (r : Rendering) (amount : Nat) (rest : List Char) :
    ∃ c ∈ (r.digitsText 2 amount ++ rest).head?, c.isDigit = true := by
  by_cases groups : r.Separated 2 amount
  · obtain ⟨first, more, digits, some_digit, -, text⟩ := digitsText_groups groups
    rw [text, List.append_assoc]
    exact Imports.head?_digits digits some_digit _
  · obtain ⟨digits, some_digit, -⟩ := Imports.toDigits_facts (amount / 100)
    have whole : r.wholeText (amount / 100) = Nat.toDigits 10 (amount / 100) := Imports.wholeText_plain groups
    rw [digitsText_two, whole, List.append_assoc]
    exact Imports.head?_digits digits some_digit _

theorem readMoney_eq_iff (least : 100 ≤ amount) : readMoney (r.digitsText 2 amount ++ rest) = amount ↔
    ¬r.Separated 2 amount ∧ amount < 10 ^ 9 := by
  constructor
  · intro same
    constructor
    · intro groups
      have less := @readMoney_groups r amount rest groups
      have thousand : 1000 ≤ amount / 100 := groups.2
      omega
    · rw [← same]
      exact readMoney_lt _
  · rintro ⟨plain, short⟩
    exact readMoney_plain plain short

end Amount

/-- The first line with a label of a total has an amount of at least one, with two decimals; what stands
before the amount and after it is no part of a number. -/
structure TotalLine (toLowerCase : String → String) (text : String) (r : Rendering) (amount : Nat)
    (before rest : List Char) : Prop where
  line : ∃ earlier line later, receiptLines text = earlier ++ line :: later ∧
    (∀ line ∈ earlier, hasAnyLabel toLowerCase line .total = false) ∧
    hasAnyLabel toLowerCase line .total = true ∧ line.toList = before ++ r.digitsText 2 amount ++ rest
  least : 100 ≤ amount
  apart : Apart before
  stops : ∀ c ∈ rest.head?, c.isDigit = false

/-- Which totals are read as they are written. -/
theorem totalMinor_iff (toLowerCase : String → String) (text : String) (r : Rendering) (amount : Nat)
    (before rest : List Char) (h : TotalLine toLowerCase text r amount before rest) :
    (parseReceiptText toLowerCase text).totalMinor = some (amount : Int) ↔
      (∀ c ∈ before, c.isDigit = false) ∧ ¬r.Separated 2 amount ∧ amount < 10 ^ 9 ∨
        parseMoney (String.ofList before) = some (amount : Int) := by
  obtain ⟨⟨earlier, line, later, lines, unlabelled, labelled, split⟩, least, apart, -⟩ := h
  have amount_read : firstAmount (r.digitsText 2 amount ++ rest) = some (readMoney (r.digitsText 2 amount ++ rest)) :=
    @firstAmount_of_digit [] _ (by simp) (digitsText_first r amount rest)
  have read : parseMoney line =
      ((firstAmount before).or (some (readMoney (r.digitsText 2 amount ++ rest)))).map Int.ofNat := by
    rw [parseMoney_eq, split, List.append_assoc, firstAmount_append apart, amount_read]
  have before_read : parseMoney (String.ofList before) = (firstAmount before).map Int.ofNat := by
    rw [parseMoney_eq, String.toList_ofList]
  rw [before_read]
  rcases exists_digit before with plain | ⟨passed, start, split', plain, first'⟩
  · rw [firstAmount_none plain, Option.none_or, Option.map_some] at read
    rw [totalMinor_of_line lines unlabelled labelled read, firstAmount_none plain,
      ← @readMoney_eq_iff r amount rest least, and_iff_right plain]
    simp
  · have some_digit : ¬∀ c ∈ before, c.isDigit = false := by
      intro none_there
      obtain ⟨x, there, digit⟩ := first'
      have listed : x ∈ before := by
        rw [split']
        exact List.mem_append_right passed (List.mem_of_mem_head? there)
      rw [none_there x listed] at digit
      exact Bool.false_ne_true digit
    have there : firstAmount before = some (readMoney start) := by rw [split', firstAmount_of_digit plain first']
    rw [there, Option.some_or, Option.map_some] at read
    rw [totalMinor_of_line lines unlabelled labelled read, there]
    simp [some_digit]

theorem dollar_symbol : ∀ c ∈ ['$'], Imports.isSymbolChar c = true := List.all_eq_true.mp (by decide)

theorem no_symbol : ∀ c ∈ [], Imports.isSymbolChar c = true := by simp

/-- As in the United States, in groups or not. -/
def usRendering (grouped : Bool) : Rendering := ⟨.us, grouped, .minus, ['$'], [], dollar_symbol, no_symbol⟩

theorem apart_concat {c : Char} (outside : c.isDigit = false) (other : isSeparator c = false) (front : List Char) :
    Apart (front ++ [c]) := by
  intro d digit
  constructor
  · rintro ⟨t, split⟩
    have last := congrArg List.getLast? split
    simp only [List.getLast?_concat, Option.some.injEq] at last
    rw [last, outside] at digit
    exact Bool.false_ne_true digit
  · rintro s separator ⟨t, split⟩
    have last := congrArg List.getLast? split
    simp only [List.getLast?_append, List.getLast?_cons_cons, List.getLast?_singleton,
      Option.some_or, Option.some.injEq] at last
    rw [last, other] at separator
    exact Bool.false_ne_true separator

theorem coffee_line : TotalLine String.toLower "Blue Bottle Coffee\nTotal Due $11.42" (usRendering false) 1142
    ("Total Due ".toList ++ ['$']) [] where
  line := ⟨["Blue Bottle Coffee"], "Total Due $11.42", [], by decide +kernel, by decide +kernel, by decide +kernel,
    by decide +kernel⟩
  least := by decide
  apart := apart_concat (by decide) (by decide) _
  stops := by simp

theorem coffee_plain : ∀ c ∈ "Total Due ".toList ++ ['$'], c.isDigit = false := by
  have all : ∀ c ∈ "Total Due ".toList ++ ['$'], (!c.isDigit) = true := List.all_eq_true.mp (by decide +kernel)
  exact fun c listed => (Bool.not_eq_true' _).mp (all c listed)

theorem coffee_total :
    (parseReceiptText String.toLower "Blue Bottle Coffee\nTotal Due $11.42").totalMinor = some ((1142 : Nat) : Int) :=
  (totalMinor_iff String.toLower "Blue Bottle Coffee\nTotal Due $11.42" (usRendering false) 1142
    ("Total Due ".toList ++ ['$']) [] coffee_line).mpr
      (.inl ⟨coffee_plain, fun groups => Bool.false_ne_true groups.1, by decide⟩)

theorem furniture_line : TotalLine String.toLower "Furniture\nTotal $1,234.56" (usRendering true) 123456
    ("Total ".toList ++ ['$']) [] where
  line := ⟨["Furniture"], "Total $1,234.56", [], by decide +kernel, by decide +kernel, by decide +kernel,
    by decide +kernel⟩
  least := by decide
  apart := apart_concat (by decide) (by decide) _
  stops := by simp

/-- A thousand is lost: the comma is taken for a point. -/
theorem furniture_total : ¬∀ (toLowerCase : String → String) (text : String) (r : Rendering) (amount : Nat)
    (before rest : List Char), TotalLine toLowerCase text r amount before rest →
      (parseReceiptText toLowerCase text).totalMinor = some (amount : Int) := by
  intro claim
  have right := claim String.toLower "Furniture\nTotal $1,234.56" (usRendering true) 123456
    ("Total ".toList ++ ['$']) [] furniture_line
  have wrong : (parseReceiptText String.toLower "Furniture\nTotal $1,234.56").totalMinor = some 123 := by
    decide +kernel
  rw [wrong] at right
  exact absurd right (by decide)

end Finverse.Receipts
