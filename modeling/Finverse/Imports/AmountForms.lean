import Finverse.Imports.Days
import Finverse.Money.Units

/-! The ways an amount is written in an export, and which of them are read back. -/

namespace Finverse.Imports

open Auth (trim isJsSpace)
open Money (exponentOf majorToMinor)

/-! ### Exact numbers -/

/-- `Number(text)` of text in digits, points, commas and signs, as an exact decimal. -/
def numberOf (text : List Char) : Option Rat :=
  let digits := if text.head?.any (· ∈ ['-', '+']) then text.drop 1 else text
  let whole := digits.takeWhile Char.isDigit
  let magnitude : Option Rat :=
    match digits.dropWhile Char.isDigit with
    | [] => if whole = [] then none else some (decimal whole)
    | c :: fraction =>
      if c = '.' ∧ fraction.all Char.isDigit ∧ (whole ≠ [] ∨ fraction ≠ []) then
        some (decimal whole + decimal fraction / 10 ^ fraction.length)
      else none
  if text = [] then some 0
  else magnitude.map fun x => if text.head? = some '-' then -x else x

/-- The arithmetic of amounts, with exact decimals. -/
def exactNumberToMinor (toUpperCase : String → String) (text currency : String) : Option Int :=
  (numberOf text.toList).map fun major => majorToMinor toUpperCase major currency

/-! ### Renderings -/

inductive GroupStyle
  | us
  | european
  deriving DecidableEq, Repr

def GroupStyle.groupChar : GroupStyle → Char
  | .us => ','
  | .european => '.'

def GroupStyle.pointChar : GroupStyle → Char
  | .us => '.'
  | .european => ','

/-- How a negative amount is shown. -/
inductive SignStyle
  | minus
  | parentheses
  deriving DecidableEq, Repr

/-- A character of a currency symbol, or a blank beside it. -/
def isSymbolChar (c : Char) : Bool :=
  !c.isDigit && c ∉ ['.', ',', '-', '+', '(', ')'] && !isLineBreak c

/-- How an amount is written, with a symbol before or after it. -/
structure Rendering where
  style : GroupStyle
  grouped : Bool
  sign : SignStyle
  before : List Char
  after : List Char
  before_symbol : ∀ c ∈ before, isSymbolChar c = true
  after_symbol : ∀ c ∈ after, isSymbolChar c = true

/-- Digits from the last to the first, with a character after every third. -/
def groupReversed (separator : Char) : List Char → List Char
  | a :: b :: c :: d :: rest => a :: b :: c :: separator :: groupReversed separator (d :: rest)
  | digits => digits

def grouped (separator : Char) (digits : List Char) : List Char :=
  (groupReversed separator digits.reverse).reverse

namespace Rendering

/-- The digits before the point. -/
def wholeText (r : Rendering) (whole : Nat) : List Char :=
  let digits := Nat.toDigits 10 whole
  if r.grouped then Imports.grouped r.style.groupChar digits else digits

/-- The digits of an amount, with exactly `exponent` of them after the point. -/
def digitsText (r : Rendering) (exponent magnitude : Nat) : List Char :=
  let whole := r.wholeText (magnitude / 10 ^ exponent)
  if exponent = 0 then whole
  else whole ++ r.style.pointChar :: padStart exponent (magnitude % 10 ^ exponent)

def render (r : Rendering) (exponent : Nat) (amount : Int) : String :=
  let body := r.before ++ r.digitsText exponent amount.natAbs ++ r.after
  String.ofList (if amount < 0 then
    match r.sign with
    | .minus => '-' :: body
    | .parentheses => '(' :: body ++ [')']
  else body)

/-- A character between thousands is written. -/
def Separated (r : Rendering) (exponent magnitude : Nat) : Prop :=
  r.grouped = true ∧ 1000 ≤ magnitude / 10 ^ exponent

/-- A group is taken for a fraction, or a fraction for a group. -/
def Misleading (r : Rendering) (exponent magnitude : Nat) : Prop :=
  r.style = .european ∧ (exponent = 0 ∧ r.Separated exponent magnitude ∨
    exponent = 3 ∧ ¬r.Separated exponent magnitude ∧ magnitude ≠ 0)

end Rendering

/-! ### Digits in groups -/

section Groups

variable {separator : Char} {digits : List Char}

theorem filter_ne (apart : separator ∉ digits) : digits.filter (· ≠ separator) = digits := by
  apply List.filter_eq_self.mpr
  intro c stored
  have other : c ≠ separator := fun same => apart (by rw [← same]; exact stored)
  simpa using other

theorem groupReversed_filter (apart : separator ∉ digits) :
    (groupReversed separator digits).filter (· ≠ separator) = digits := by
  induction digits using groupReversed.induct with
  | case1 a b c d rest ih =>
    simp only [List.mem_cons, not_or] at apart
    obtain ⟨ha, hb, hc, hrest⟩ := apart
    have rest_kept := ih (by simpa using hrest)
    rw [groupReversed, List.filter_cons_of_pos (by simpa using Ne.symm ha),
      List.filter_cons_of_pos (by simpa using Ne.symm hb),
      List.filter_cons_of_pos (by simpa using Ne.symm hc), List.filter_cons_of_neg (by simp), rest_kept]
  | case2 digits short =>
    rw [groupReversed]
    · exact filter_ne apart
    · exact short

theorem groupReversed_short (h : digits.length ≤ 3) : groupReversed separator digits = digits := by
  rw [groupReversed]
  rintro a b c d rest rfl
  simp only [List.length_cons] at h
  omega

theorem groupReversed_long (h : 3 < digits.length) : groupReversed separator digits =
    digits.take 3 ++ separator :: groupReversed separator (digits.drop 3) := by
  match digits, h with
  | a :: b :: c :: d :: rest, _ => simp [groupReversed]

theorem mem_groupReversed {c : Char} (h : c ∈ groupReversed separator digits) :
    c ∈ digits ∨ c = separator := by
  induction digits using groupReversed.induct with
  | case1 a b c' d rest ih =>
    rw [groupReversed] at h
    simp only [List.mem_cons] at h ⊢
    rcases h with rfl | rfl | rfl | rfl | h
    · simp
    · simp
    · simp
    · simp
    · rcases ih h with stored | rfl
      · simp only [List.mem_cons] at stored
        simp [stored]
      · simp
  | case2 digits short =>
    rw [groupReversed] at h
    · exact .inl h
    · exact short

theorem grouped_filter (apart : separator ∉ digits) :
    (grouped separator digits).filter (· ≠ separator) = digits := by
  rw [grouped, List.filter_reverse, groupReversed_filter (by simpa using apart), List.reverse_reverse]

theorem mem_grouped {c : Char} (h : c ∈ grouped separator digits) : c ∈ digits ∨ c = separator := by
  have stored := mem_groupReversed (List.mem_reverse.mp h)
  simpa using stored

theorem grouped_short (h : digits.length ≤ 3) : grouped separator digits = digits := by
  rw [grouped, groupReversed_short (by simpa using h), List.reverse_reverse]

/-- The last group is one of three digits. -/
theorem grouped_long (separator : Char) (h : 3 < digits.length) : ∃ front last, last.length = 3 ∧
    digits = front ++ last ∧ front ≠ [] ∧
    grouped separator digits = grouped separator front ++ separator :: last := by
  refine ⟨digits.take (digits.length - 3), digits.drop (digits.length - 3), ?_, ?_, ?_, ?_⟩
  · rw [List.length_drop]
    omega
  · exact (List.take_append_drop _ _).symm
  · rw [Ne, List.take_eq_nil_iff]
    rintro (none | none)
    · omega
    · simp [none] at h
  · rw [grouped, groupReversed_long (by simpa using h), List.reverse_append, List.reverse_cons,
      List.append_assoc, List.singleton_append, List.take_reverse, List.reverse_reverse,
      List.drop_reverse]
    rfl

/-- The first group is one of three digits at most. -/
theorem grouped_first (separator : Char) (h : 3 < digits.length) : ∃ first more rest, digits = first ++ more ∧
    1 ≤ first.length ∧ first.length ≤ 3 ∧ grouped separator digits = first ++ separator :: rest := by
  induction length : digits.length using Nat.strong_induction_on generalizing digits with
  | _ n ih =>
    obtain ⟨front, last, three, rfl, some_, groups⟩ := grouped_long separator h
    rw [List.length_append] at length
    have pos := List.length_pos_of_ne_nil some_
    by_cases short : front.length ≤ 3
    · rw [groups, grouped_short short]
      exact ⟨front, last, last, rfl, pos, short, rfl⟩
    · obtain ⟨first, more, rest, rfl, one, three', groups'⟩ := ih front.length (by omega) (by omega) rfl
      refine ⟨first, more ++ last, rest ++ separator :: last, by simp, one, three', ?_⟩
      rw [groups, groups', List.append_assoc, List.cons_append]

end Groups

/-! ### Where separators stand -/

section LastIndex

variable {c d : Char} {front back : List Char}

theorem idxOf?_after (h : c ∉ front) : (front ++ c :: back).idxOf? c = some front.length := by
  induction front with
  | nil => simp [List.idxOf?_cons]
  | cons first front ih =>
    simp only [List.mem_cons, not_or] at h
    have other : (first == c) = false := by simpa using Ne.symm h.1
    rw [List.cons_append, List.idxOf?_cons, other, ih h.2]
    simp

theorem lastIndexOf_none (h : c ∉ front) : lastIndexOf c front = none := by
  simp [lastIndexOf, h]

theorem lastIndexOf_some (h : c ∉ back) : lastIndexOf c (front ++ c :: back) = some front.length := by
  have index : (front ++ c :: back).reverse.idxOf? c = some back.length := by
    rw [List.reverse_append, List.reverse_cons, List.append_assoc, List.singleton_append,
      idxOf?_after (by simpa using h), List.length_reverse]
  rw [lastIndexOf, index, Option.map_some, List.length_append, List.length_cons]
  congr 1
  omega

theorem commaToPoint_append (h : ',' ∉ front) :
    commaToPoint (front ++ ',' :: back) = front ++ '.' :: back := by
  induction front with
  | nil => simp [commaToPoint]
  | cons first front ih =>
    simp only [List.mem_cons, not_or] at h
    rw [List.cons_append, commaToPoint, if_neg (Ne.symm h.1), ih h.2, List.cons_append]

end LastIndex

/-! ### The separators of an amount -/

section WithPoint

variable {front last whole fraction : List Char}

/-- Only digits. -/
def Digits (text : List Char) : Prop := ∀ c ∈ text, c.isDigit = true

theorem Digits.not_mem {text : List Char} {c : Char} (h : Digits text) (other : c.isDigit = false) :
    c ∉ text := by
  intro stored
  rw [h c stored] at other
  cases other

theorem Digits.append {text text' : List Char} (h : Digits text) (h' : Digits text') :
    Digits (text ++ text') := by
  intro c stored
  rcases List.mem_append.mp stored with stored | stored
  · exact h c stored
  · exact h' c stored

theorem withPoint_digits (h : Digits whole) : withPoint whole = whole := by
  simp [withPoint, lastIndexOf_none (h.not_mem (c := ',') rfl)]

theorem withPoint_point (h : Digits whole) (h' : Digits fraction) :
    withPoint (whole ++ '.' :: fraction) = whole ++ '.' :: fraction := by
  have none : ',' ∉ whole ++ '.' :: fraction := by
    simp [h.not_mem (c := ',') rfl, h'.not_mem (c := ',') rfl]
  simp [withPoint, lastIndexOf_none none]

theorem withPoint_comma (h : Digits whole) (h' : Digits fraction) :
    withPoint (whole ++ ',' :: fraction) =
      if fraction.length = 3 then whole ++ fraction else whole ++ '.' :: fraction := by
  have hcomma : ',' ∉ whole := h.not_mem rfl
  have hcomma' : ',' ∉ fraction := h'.not_mem rfl
  have point : '.' ∉ whole ++ ',' :: fraction := by
    simp [h.not_mem (c := '.') rfl, h'.not_mem (c := '.') rfl]
  have places : (whole ++ ',' :: fraction).length - whole.length - 1 = fraction.length := by
    rw [List.length_append, List.length_cons]
    omega
  have kept : (whole ++ ',' :: fraction).filter (· ≠ ',') = whole ++ fraction := by
    rw [List.filter_append, List.filter_cons_of_neg (by simp), filter_ne hcomma, filter_ne hcomma']
  simp only [withPoint, lastIndexOf_some hcomma', lastIndexOf_none point, places, kept,
    commaToPoint_append hcomma]

/-- Groups that end in a last one are put together, and the other separator is the point. -/
theorem withPoint_groups_fraction {style : GroupStyle} {groups : List Char}
    (hgroups : ∀ c ∈ groups, c.isDigit = true ∨ c = style.groupChar)
    (kept : groups.filter (· ≠ style.groupChar) = front) (hlast : Digits last)
    (hfraction : Digits fraction) :
    withPoint (groups ++ style.groupChar :: last ++ style.pointChar :: fraction) =
      front ++ last ++ '.' :: fraction := by
  have hpoint : style.pointChar.isDigit = false := by cases style <;> rfl
  have hgroup : style.groupChar.isDigit = false := by cases style <;> rfl
  have hne : style.pointChar ≠ style.groupChar := by cases style <;> decide
  have group_last : style.groupChar ∉ last ++ style.pointChar :: fraction := by
    simp [hlast.not_mem hgroup, hfraction.not_mem hgroup, Ne.symm hne]
  have atGroup : lastIndexOf style.groupChar
      (groups ++ style.groupChar :: last ++ style.pointChar :: fraction) = some groups.length := by
    rw [List.append_assoc, List.cons_append]
    exact lastIndexOf_some group_last
  have atPoint : lastIndexOf style.pointChar
      (groups ++ style.groupChar :: last ++ style.pointChar :: fraction) =
        some (groups ++ style.groupChar :: last).length :=
    lastIndexOf_some (hfraction.not_mem hpoint)
  have later : groups.length < (groups ++ style.groupChar :: last).length := by
    rw [List.length_append, List.length_cons]
    omega
  have filtered : (groups ++ style.groupChar :: last ++ style.pointChar :: fraction).filter
      (· ≠ style.groupChar) = front ++ last ++ style.pointChar :: fraction := by
    rw [List.filter_append, List.filter_append, kept, List.filter_cons_of_neg (by simp),
      List.filter_cons_of_pos (by simpa using hne), filter_ne (hlast.not_mem hgroup),
      filter_ne (hfraction.not_mem hgroup)]
  have hfront : Digits front := by
    intro c stored
    rw [← kept, List.mem_filter] at stored
    rcases hgroups c stored.1 with digit | same
    · exact digit
    · simp [same] at stored
  cases style with
  | us =>
    simp only [GroupStyle.groupChar, GroupStyle.pointChar] at atGroup atPoint filtered later ⊢
    simp only [withPoint, atGroup, atPoint]
    rw [if_neg (by omega)]
    exact filtered
  | european =>
    simp only [GroupStyle.groupChar, GroupStyle.pointChar] at atGroup atPoint filtered later ⊢
    simp only [withPoint, atGroup, atPoint]
    rw [if_pos (by omega)]
    calc
      commaToPoint _ = commaToPoint (front ++ last ++ ',' :: fraction) := congrArg commaToPoint filtered
      _ = front ++ last ++ '.' :: fraction :=
        commaToPoint_append ((hfront.append hlast).not_mem rfl)

/-- Groups that end in one of three digits, with commas between them and nothing after them. -/
theorem withPoint_groups_us {groups : List Char}
    (hgroups : ∀ c ∈ groups, c.isDigit = true ∨ c = ',') (kept : groups.filter (· ≠ ',') = front)
    (hlast : Digits last) (three : last.length = 3) :
    withPoint (groups ++ ',' :: last) = front ++ last := by
  have atComma : lastIndexOf ',' (groups ++ ',' :: last) = some groups.length :=
    lastIndexOf_some (hlast.not_mem rfl)
  have atPoint : lastIndexOf '.' (groups ++ ',' :: last) = none := by
    apply lastIndexOf_none
    intro stored
    rcases List.mem_append.mp stored with stored | stored
    · rcases hgroups _ stored with digit | same
      · cases digit
      · cases same
    · rcases List.mem_cons.mp stored with same | stored
      · cases same
      · exact hlast.not_mem (c := '.') rfl stored
  have places : (groups ++ ',' :: last).length - groups.length - 1 = 3 := by
    rw [List.length_append, List.length_cons]
    omega
  have filtered : (groups ++ ',' :: last).filter (· ≠ ',') = front ++ last := by
    rw [List.filter_append, kept, List.filter_cons_of_neg (by simp), filter_ne (hlast.not_mem rfl)]
  simp only [withPoint, atComma, atPoint, places, filtered, if_true]

/-- With points between groups and nothing after them, all stays. -/
theorem withPoint_groups_european {text : List Char}
    (h : ∀ c ∈ text, c.isDigit = true ∨ c = '.') : withPoint text = text := by
  have none : ',' ∉ text := by
    intro stored
    rcases h _ stored with digit | same
    · cases digit
    · cases same
  simp [withPoint, lastIndexOf_none none]

end WithPoint

/-! ### Exact values -/

section Values

variable {whole fraction : List Char}

theorem decimal_append (whole fraction : List Char) :
    decimal (whole ++ fraction) = decimal whole * 10 ^ fraction.length + decimal fraction := by
  rw [decimal, Nat.ofDigitChars_append, Nat.ofDigitChars_eq_ofDigitChars_zero, Nat.mul_comm]
  rfl

theorem head?_digits (h : Digits whole) (more : whole ≠ []) (rest : List Char) :
    ∃ c, (whole ++ rest).head? = some c ∧ c.isDigit = true := by
  obtain ⟨c, others, rfl⟩ := List.exists_cons_of_ne_nil more
  exact ⟨c, rfl, h c List.mem_cons_self⟩

theorem not_sign {c : Char} (h : c.isDigit = true) : c ≠ '-' ∧ c ≠ '+' := by
  constructor <;> rintro rfl <;> cases h

theorem numberOf_digits (h : Digits whole) (more : whole ≠ []) :
    numberOf whole = some (decimal whole : Rat) := by
  obtain ⟨c, hhead, hc⟩ := head?_digits h more []
  rw [List.append_nil] at hhead
  obtain ⟨minus, plus⟩ := not_sign hc
  have all : whole.takeWhile Char.isDigit = whole := List.takeWhile_eq_self_iff.mpr h
  have none : whole.dropWhile Char.isDigit = [] := List.dropWhile_eq_nil_iff.mpr h
  simp [numberOf, hhead, minus, plus, all, none, more]

theorem numberOf_point (h : Digits whole) (more : whole ≠ []) (h' : Digits fraction) :
    numberOf (whole ++ '.' :: fraction) =
      some (decimal whole + decimal fraction / 10 ^ fraction.length : Rat) := by
  obtain ⟨c, hhead, hc⟩ := head?_digits h more ('.' :: fraction)
  obtain ⟨minus, plus⟩ := not_sign hc
  have taken : (whole ++ '.' :: fraction).takeWhile Char.isDigit = whole := by
    rw [List.takeWhile_append_of_pos h, List.takeWhile_cons_of_neg (by decide), List.append_nil]
  have left : (whole ++ '.' :: fraction).dropWhile Char.isDigit = '.' :: fraction := by
    rw [List.dropWhile_append_of_pos h, List.dropWhile_cons_of_neg (by decide)]
  have fractional : fraction.all Char.isDigit = true := List.all_eq_true.mpr h'
  simp [numberOf, hhead, minus, plus, taken, left, fractional, more]

/-- With two points it is no number. -/
theorem numberOf_points (h : Digits whole) {rest : List Char} (again : '.' ∈ rest) :
    numberOf (whole ++ '.' :: rest) = none := by
  have head : ∃ c, (whole ++ '.' :: rest).head? = some c ∧ c ≠ '-' ∧ c ≠ '+' := by
    cases whole with
    | nil => exact ⟨'.', rfl, by decide, by decide⟩
    | cons c others => exact ⟨c, rfl, not_sign (h c List.mem_cons_self)⟩
  obtain ⟨c, hhead, minus, plus⟩ := head
  have taken : (whole ++ '.' :: rest).takeWhile Char.isDigit = whole := by
    rw [List.takeWhile_append_of_pos h, List.takeWhile_cons_of_neg (by decide), List.append_nil]
  have left : (whole ++ '.' :: rest).dropWhile Char.isDigit = '.' :: rest := by
    rw [List.dropWhile_append_of_pos h, List.dropWhile_cons_of_neg (by decide)]
  have fractional : rest.all Char.isDigit = false := by
    rw [List.all_eq_false]
    exact ⟨'.', again, by decide⟩
  simp [numberOf, hhead, minus, plus, taken, left, fractional]

end Values

/-! ### What is read of an amount -/

section Read

variable {r : Rendering} {exponent magnitude : Nat}

theorem toDigits_facts (n : Nat) : Digits (Nat.toDigits 10 n) ∧ Nat.toDigits 10 n ≠ [] ∧
    decimal (Nat.toDigits 10 n) = n :=
  ⟨fun _ stored => Nat.isDigit_of_mem_toDigits (by decide) (by decide) stored,
    Nat.toDigits_ne_nil, Nat.ofDigitChars_ten_toDigits⟩

theorem toDigits_long (n : Nat) : 3 < (Nat.toDigits 10 n).length ↔ 1000 ≤ n := by
  have short : (Nat.toDigits 10 n).length ≤ 3 ↔ n < 10 ^ 3 :=
    Nat.length_toDigits_le_iff (by decide) (by decide)
  omega

/-- The digits after the point. -/
theorem fraction_facts (exponent magnitude : Nat) (pos : 0 < exponent) :
    Digits (padStart exponent (magnitude % 10 ^ exponent)) ∧
      (padStart exponent (magnitude % 10 ^ exponent)).length = exponent ∧
      decimal (padStart exponent (magnitude % 10 ^ exponent)) = magnitude % 10 ^ exponent :=
  ⟨padStart_digits _ _, length_padStart pos (Nat.mod_lt _ (by positivity)), decimal_padStart _ _⟩

/-- An amount with a point and without groups. -/
def exactText (exponent magnitude : Nat) : List Char :=
  let whole := Nat.toDigits 10 (magnitude / 10 ^ exponent)
  if exponent = 0 then whole else whole ++ '.' :: padStart exponent (magnitude % 10 ^ exponent)

theorem numberOf_exactText (exponent magnitude : Nat) :
    numberOf (exactText exponent magnitude) = some ((magnitude : Rat) / 10 ^ exponent) := by
  obtain ⟨hwhole, more, value⟩ := toDigits_facts (magnitude / 10 ^ exponent)
  unfold exactText
  dsimp only
  by_cases zero : exponent = 0
  · rw [if_pos zero, numberOf_digits hwhole more, value, zero]
    simp
  · obtain ⟨hfraction, length, value'⟩ := fraction_facts exponent magnitude (by omega)
    rw [if_neg zero, numberOf_point hwhole more hfraction, value, value', length]
    have split : ((magnitude / 10 ^ exponent : Nat) : Rat) * 10 ^ exponent +
        (magnitude % 10 ^ exponent : Nat) = magnitude := by
      exact_mod_cast Nat.div_add_mod' magnitude (10 ^ exponent)
    have ten : (10 : Rat) ^ exponent ≠ 0 := pow_ne_zero _ (by norm_num)
    congr 1
    rw [← split]
    field_simp

theorem wholeText_plain {whole : Nat} (h : ¬(r.grouped = true ∧ 1000 ≤ whole)) :
    r.wholeText whole = Nat.toDigits 10 whole := by
  rw [Rendering.wholeText]
  by_cases hgrouped : r.grouped = true
  · have short : ¬3 < (Nat.toDigits 10 whole).length := by
      rw [toDigits_long]
      tauto
    rw [if_pos hgrouped, grouped_short (by omega)]
  · rw [if_neg hgrouped]

/-- The groups of a long number: some, and then one of three digits. -/
theorem wholeText_groups {whole : Nat} (h : r.grouped = true ∧ 1000 ≤ whole) :
    ∃ groups front last, r.wholeText whole = groups ++ r.style.groupChar :: last ∧
      (∀ c ∈ groups, c.isDigit = true ∨ c = r.style.groupChar) ∧
      groups.filter (· ≠ r.style.groupChar) = front ∧ Digits last ∧ last.length = 3 ∧
      Nat.toDigits 10 whole = front ++ last ∧
      (r.style.groupChar ∉ groups → groups = front ∧ front ≠ []) := by
  obtain ⟨hdigits, -, -⟩ := toDigits_facts whole
  have hgroup : r.style.groupChar.isDigit = false := by cases r.style <;> rfl
  obtain ⟨front, last, three, split, some_, groups⟩ :=
    grouped_long r.style.groupChar ((toDigits_long whole).mpr h.2)
  have hfront : Digits front := fun c stored => hdigits c (by rw [split]; exact List.mem_append_left _ stored)
  have hlast : Digits last := fun c stored => hdigits c (by rw [split]; exact List.mem_append_right _ stored)
  have kept := grouped_filter (hfront.not_mem hgroup)
  refine ⟨_, front, last, by rw [Rendering.wholeText, if_pos h.1, groups], ?_, kept, hlast, three, split, ?_⟩
  · intro c stored
    rcases mem_grouped stored with stored | same
    · exact .inl (hfront c stored)
    · exact .inr same
  · intro none
    rw [filter_ne none] at kept
    exact ⟨kept, some_⟩

/-- Where no group can be taken for a fraction, nor a fraction for a group, the text is read as it is
meant. -/
theorem withPoint_digitsText (clear : ¬(r.style = .european ∧
    (exponent = 0 ∧ r.Separated exponent magnitude ∨ exponent = 3 ∧ ¬r.Separated exponent magnitude))) :
    withPoint (r.digitsText exponent magnitude) = exactText exponent magnitude := by
  obtain ⟨hwhole, -, -⟩ := toDigits_facts (magnitude / 10 ^ exponent)
  unfold Rendering.digitsText exactText
  dsimp only
  by_cases separated : r.Separated exponent magnitude
  · obtain ⟨groups, front, last, htext, hgroups, kept, hlast, three, split, -⟩ :=
      wholeText_groups separated
    rw [htext, split]
    by_cases zero : exponent = 0
    · have us : r.style = .us := by
        cases hstyle : r.style with
        | us => rfl
        | european => exact absurd ⟨hstyle, .inl ⟨zero, separated⟩⟩ clear
      rw [if_pos zero, if_pos zero]
      rw [us] at hgroups kept ⊢
      exact withPoint_groups_us hgroups kept hlast three
    · rw [if_neg zero, if_neg zero]
      exact withPoint_groups_fraction hgroups kept hlast
        (fraction_facts exponent magnitude (by omega)).1
  · rw [wholeText_plain separated]
    by_cases zero : exponent = 0
    · rw [if_pos zero, if_pos zero]
      exact withPoint_digits hwhole
    · obtain ⟨hfraction, length, -⟩ := fraction_facts exponent magnitude (by omega)
      rw [if_neg zero, if_neg zero]
      cases hstyle : r.style with
      | us => exact withPoint_point hwhole hfraction
      | european =>
        have other : ¬exponent = 3 := fun three => clear ⟨hstyle, .inr ⟨three, separated⟩⟩
        rw [GroupStyle.pointChar, withPoint_comma hwhole hfraction, length, if_neg other]

variable (toUpperCase : String → String) {currency : String}

theorem exactNumberToMinor_exactText (magnitude : Nat) :
    exactNumberToMinor toUpperCase
      (String.ofList (exactText (exponentOf toUpperCase currency) magnitude)) currency =
        some (magnitude : Int) := by
  have ten : (10 : Rat) ^ exponentOf toUpperCase currency ≠ 0 := pow_ne_zero _ (by norm_num)
  have whole : (magnitude : Rat) / 10 ^ exponentOf toUpperCase currency *
      10 ^ exponentOf toUpperCase currency = (magnitude : Int) := by
    rw [Int.cast_natCast, div_mul_cancel₀ _ ten]
  rw [exactNumberToMinor, String.toList_ofList, numberOf_exactText, Option.map_some,
    Money.majorToMinor_exact toUpperCase whole]

/-- Three digits after a comma are read as a group: a thousandfold. -/
theorem exactNumberToMinor_fraction (three : exponentOf toUpperCase currency = 3)
    (european : r.style = .european) (plain : ¬r.Separated 3 magnitude) :
    exactNumberToMinor toUpperCase (String.ofList (withPoint (r.digitsText 3 magnitude))) currency =
      some (magnitude * 1000 : Int) := by
  obtain ⟨hwhole, -, value⟩ := toDigits_facts (magnitude / 10 ^ 3)
  obtain ⟨hfraction, length, value'⟩ := fraction_facts 3 magnitude (by decide)
  have text : withPoint (r.digitsText 3 magnitude) =
      Nat.toDigits 10 (magnitude / 10 ^ 3) ++ padStart 3 (magnitude % 10 ^ 3) := by
    rw [Rendering.digitsText, wholeText_plain plain, if_neg (by decide), european,
      GroupStyle.pointChar, withPoint_comma hwhole hfraction, if_pos length]
  have digits : decimal (Nat.toDigits 10 (magnitude / 10 ^ 3) ++ padStart 3 (magnitude % 10 ^ 3)) =
      magnitude := by
    rw [decimal_append, value, value', length]
    omega
  have thousandfold : (magnitude : Rat) * 10 ^ exponentOf toUpperCase currency =
      ((magnitude * 1000 : Int) : Rat) := by
    rw [three]
    push_cast
    ring
  rw [exactNumberToMinor, String.toList_ofList, text,
    numberOf_digits (hwhole.append hfraction) (by simp), digits, Option.map_some,
    Money.majorToMinor_exact toUpperCase thousandfold]

/-- A group after a point is read as a fraction, and two groups as no number. -/
theorem exactNumberToMinor_groups (zero : exponentOf toUpperCase currency = 0)
    (european : r.style = .european) (separated : r.Separated 0 magnitude) :
    exactNumberToMinor toUpperCase (String.ofList (withPoint (r.digitsText 0 magnitude))) currency ≠
      some (magnitude : Int) := by
  have large : 1000 ≤ magnitude := by simpa using separated.2
  obtain ⟨groups, front, last, htext, hgroups, -, hlast, three, split, single⟩ :=
    wholeText_groups separated
  rw [european, GroupStyle.groupChar] at htext hgroups single
  have points : ∀ c ∈ groups ++ '.' :: last, c.isDigit = true ∨ c = '.' := by
    intro c stored
    rcases List.mem_append.mp stored with stored | stored
    · exact hgroups c stored
    · rcases List.mem_cons.mp stored with same | stored
      · exact .inr same
      · exact .inl (hlast c stored)
  have text : withPoint (r.digitsText 0 magnitude) = groups ++ '.' :: last := by
    rw [Rendering.digitsText, if_pos rfl, htext]
    exact withPoint_groups_european points
  rw [exactNumberToMinor, String.toList_ofList, text]
  by_cases again : '.' ∈ groups
  · obtain ⟨digits, rest, rfl, first⟩ := List.eq_append_cons_of_mem again
    have hdigits : Digits digits := by
      intro c stored
      rcases hgroups c (by simp [stored]) with digit | rfl
      · exact digit
      · exact absurd stored first
    rw [List.append_assoc, List.cons_append, numberOf_points hdigits (by simp)]
    simp
  · obtain ⟨rfl, some_⟩ := single again
    have hfront : Digits groups := by
      intro c stored
      rcases hgroups c stored with digit | rfl
      · exact digit
      · exact absurd stored again
    have value : (decimal groups : Rat) + decimal last / 10 ^ last.length = magnitude / 1000 := by
      have whole := (toDigits_facts (magnitude / 10 ^ 0)).2.2
      rw [split, decimal_append, three, pow_zero, Nat.div_one] at whole
      rw [three, ← whole]
      push_cast
      ring
    have places : (magnitude : Rat) / 1000 * 10 ^ 6 = ((magnitude * 1000 : Int) : Rat) := by
      push_cast
      ring
    have rounded : majorToMinor toUpperCase ((magnitude : Rat) / 1000) currency =
        round ((magnitude : Rat) / 1000) := by
      have nonnegative : ¬(magnitude : Rat) / 1000 < 0 := not_lt.mpr (by positivity)
      unfold majorToMinor
      simp only [zero, pow_zero, mul_one, Money.toFixed6_exact places, if_neg nonnegative]
    rw [numberOf_point hfront some_ hlast, value, Option.map_some, rounded]
    intro same
    have equal : round ((magnitude : Rat) / 1000) = (magnitude : Int) := Option.some.inj same
    have lower := (Money.round_bounds ((magnitude : Rat) / 1000)).1
    rw [equal] at lower
    have large' : (1000 : Rat) ≤ magnitude := by exact_mod_cast large
    push_cast at lower
    linarith

end Read

/-! ### Signs and symbols -/

section Signs

variable {r : Rendering} {exponent : Nat}

/-- A character that the reading of an amount keeps. -/
def isAmountChar (c : Char) : Bool := c.isDigit || c ∈ ['.', ',', '-', '+']

theorem filter_symbol {text : List Char} (h : ∀ c ∈ text, isSymbolChar c = true) :
    text.filter isAmountChar = [] := by
  rw [List.filter_eq_nil_iff]
  intro c stored
  have symbol := h c stored
  simp only [isSymbolChar, isAmountChar, List.mem_cons, List.not_mem_nil, Bool.and_eq_true] at symbol ⊢
  simp at symbol ⊢
  tauto

theorem digitsText_chars (r : Rendering) (exponent magnitude : Nat) :
    ∀ c ∈ r.digitsText exponent magnitude, c.isDigit = true ∨ c = '.' ∨ c = ',' := by
  have whole : ∀ c ∈ r.wholeText (magnitude / 10 ^ exponent), c.isDigit = true ∨ c = '.' ∨ c = ',' := by
    intro c stored
    rw [Rendering.wholeText] at stored
    have digits := (toDigits_facts (magnitude / 10 ^ exponent)).1
    split at stored
    · rcases mem_grouped stored with stored | rfl
      · exact .inl (digits c stored)
      · cases r.style <;> simp [GroupStyle.groupChar]
    · exact .inl (digits c stored)
  intro c stored
  rw [Rendering.digitsText] at stored
  split at stored
  · exact whole c stored
  · rcases List.mem_append.mp stored with stored | stored
    · exact whole c stored
    · rcases List.mem_cons.mp stored with rfl | stored
      · cases r.style <;> simp [GroupStyle.pointChar]
      · exact .inl (padStart_digits _ _ c stored)

theorem digitsText_ne_nil (r : Rendering) (exponent magnitude : Nat) :
    r.digitsText exponent magnitude ≠ [] := by
  rw [Rendering.digitsText]
  split
  · by_cases separated : r.grouped = true ∧ 1000 ≤ magnitude / 10 ^ exponent
    · obtain ⟨groups, front, last, htext, -⟩ := wholeText_groups separated
      rw [htext]
      simp
    · rw [wholeText_plain separated]
      exact (toDigits_facts _).2.1
  · simp

theorem digit_plain {c : Char} (h : c.isDigit = true) : c ≠ '(' ∧ isLineBreak c = false := by
  have other : ∀ d : Char, d.isDigit = false → c ≠ d := by
    rintro d hd rfl
    rw [h] at hd
    cases hd
  refine ⟨other _ rfl, ?_⟩
  simp only [isLineBreak, List.mem_cons, List.not_mem_nil, or_false, decide_eq_false_iff_not, not_or]
  exact ⟨other _ rfl, other _ rfl, other _ rfl, other _ rfl⟩

theorem not_space_of_digit {c : Char} (h : c.isDigit = true) : isJsSpace c = false := by
  simp only [Char.isDigit, Bool.and_eq_true, decide_eq_true_eq, ge_iff_le, UInt32.le_iff_toNat_le] at h
  have low : 48 ≤ c.val.toNat := h.1
  have high : c.val.toNat ≤ 57 := h.2
  simp only [isJsSpace, List.mem_cons, List.not_mem_nil, or_false, Bool.or_eq_false_iff,
    decide_eq_false_iff_not, Bool.and_eq_false_iff]
  omega

theorem not_space_of_amountChar {c : Char} (h : isAmountChar c = true) : isJsSpace c = false := by
  rcases Bool.or_eq_true_iff.mp h with digit | other
  · exact not_space_of_digit digit
  · simp only [List.mem_cons, List.not_mem_nil, or_false, decide_eq_true_eq] at other
    rcases other with rfl | rfl | rfl | rfl <;> decide

/-- Blanks at the ends are not kept anyway. -/
theorem filter_trim (text : String) :
    (trim text).toList.filter isAmountChar = text.toList.filter isAmountChar := by
  have dropped : ∀ chars : List Char, (chars.dropWhile isJsSpace).filter isAmountChar =
      chars.filter isAmountChar := by
    intro chars
    induction chars with
    | nil => rfl
    | cons c chars ih =>
      by_cases space : isJsSpace c = true
      · have other : isAmountChar c = false := by
          by_contra kept
          rw [not_space_of_amountChar (by simpa using kept)] at space
          cases space
        rw [List.dropWhile_cons_of_pos space, ih, List.filter_cons_of_neg (by simp [other])]
      · rw [List.dropWhile_cons_of_neg space]
  rw [trim, String.toList_ofList, List.filter_reverse, dropped, List.filter_reverse, dropped,
    List.reverse_reverse]

/-- The text between parentheses is what `slice(1, -1)` leaves. -/
theorem trim_parentheses (inner : List Char) :
    (trim (String.ofList ('(' :: inner ++ [')']))).toList = '(' :: inner ++ [')'] := by
  have left : ('(' :: inner ++ [')']).dropWhile isJsSpace = '(' :: inner ++ [')'] := by
    rw [List.cons_append, List.dropWhile_cons_of_neg (by decide)]
  have right : ('(' :: inner ++ [')']).reverse.dropWhile isJsSpace = ('(' :: inner ++ [')']).reverse := by
    rw [List.reverse_append, List.reverse_singleton, List.singleton_append,
      List.dropWhile_cons_of_neg (by decide)]
  rw [trim, String.toList_ofList, String.toList_ofList, left, right, List.reverse_reverse]

theorem mem_trim {text : String} {c : Char} (h : c ∈ (trim text).toList) : c ∈ text.toList := by
  rw [trim, String.toList_ofList, List.mem_reverse] at h
  exact (List.dropWhile_sublist _).subset
    (List.mem_reverse.mp ((List.dropWhile_sublist _).subset h))

/-- What is left of an amount when its sign is known. -/
theorem parseAmount_signed (numberToMinor : String → String → Option Int) {value currency : String}
    {text digits : List Char} (accounting minus : Bool) (hdigits : digits ≠ [])
    (unsigned : ∀ c ∈ digits, c.isDigit = true ∨ c = '.' ∨ c = ',')
    (haccounting : inParentheses (trim value).toList = accounting)
    (hinner : (if accounting then ((trim value).toList.drop 1).dropLast else (trim value).toList) = text)
    (hfilter : text.filter isAmountChar = if minus then '-' :: digits else digits) :
    parseAmount numberToMinor value currency =
      (numberToMinor (String.ofList (withPoint digits)) currency).map fun minor =>
        if accounting != minus then -minor else minor := by
  have first : ∀ c ∈ digits.head?, c ≠ '-' ∧ c ≠ '+' := by
    intro c head
    rcases unsigned c (List.mem_of_mem_head? head) with digit | rfl | rfl
    · exact not_sign digit
    · decide
    · decide
  unfold parseAmount
  dsimp only
  rw [haccounting, hinner, show (fun c : Char => c.isDigit || decide (c ∈ ['.', ',', '-', '+'])) =
    isAmountChar from rfl, hfilter]
  cases minus with
  | true => simp [hdigits]
  | false =>
    obtain ⟨c, others, rfl⟩ := List.exists_cons_of_ne_nil hdigits
    obtain ⟨hminus, hplus⟩ := first c rfl
    have unequal : (some c == some '-') = false := by simpa using hminus
    simp [hminus, hplus, unequal]

theorem inParentheses_of_not_mem {text : List Char} (h : '(' ∉ text) : inParentheses text = false := by
  have head : (text.head? == some '(') = false := by
    rw [beq_eq_false_iff_ne]
    intro head
    exact h (List.mem_of_mem_head? head)
  simp [inParentheses, head]

theorem parseAmount_render (numberToMinor : String → String → Option Int) (r : Rendering)
    (exponent : Nat) (amount : Int) (currency : String) :
    parseAmount numberToMinor (r.render exponent amount) currency =
      (numberToMinor (String.ofList (withPoint (r.digitsText exponent amount.natAbs))) currency).map
        fun minor => if amount < 0 then -minor else minor := by
  have hdigits := digitsText_ne_nil r exponent amount.natAbs
  have unsigned := digitsText_chars r exponent amount.natAbs
  generalize hdigits' : r.digitsText exponent amount.natAbs = digits at hdigits unsigned ⊢
  have kept : digits.filter isAmountChar = digits := by
    apply List.filter_eq_self.mpr
    intro c stored
    rcases unsigned c stored with digit | rfl | rfl
    · simp [isAmountChar, digit]
    · decide
    · decide
  have body_kept : (r.before ++ digits ++ r.after).filter isAmountChar = digits := by
    rw [List.filter_append, List.filter_append, filter_symbol r.before_symbol,
      filter_symbol r.after_symbol, kept, List.nil_append, List.append_nil]
  have plain : ∀ c ∈ r.before ++ digits ++ r.after, c ≠ '(' ∧ isLineBreak c = false := by
    intro c stored
    have symbol : isSymbolChar c = true → c ≠ '(' ∧ isLineBreak c = false := by
      intro symbol
      simp only [isSymbolChar, Bool.and_eq_true, Bool.not_eq_true', decide_eq_true_eq] at symbol
      exact ⟨fun same => symbol.1.2 (by simp [same]), symbol.2⟩
    rcases List.mem_append.mp stored with stored | stored
    · rcases List.mem_append.mp stored with stored | stored
      · exact symbol (r.before_symbol c stored)
      · rcases unsigned c stored with digit | rfl | rfl
        · exact digit_plain digit
        · decide
        · decide
    · exact symbol (r.after_symbol c stored)
  generalize hbody : r.before ++ digits ++ r.after = body at body_kept plain
  have unopened : '(' ∉ body := fun stored => (plain _ stored).1 rfl
  unfold Rendering.render
  dsimp only
  rw [hdigits', hbody]
  by_cases negative : amount < 0
  · rw [if_pos negative]
    simp only [if_pos negative]
    cases r.sign with
    | minus =>
      dsimp only
      have closed : inParentheses (trim (String.ofList ('-' :: body))).toList = false := by
        apply inParentheses_of_not_mem
        intro stored
        have inside := mem_trim stored
        rw [String.toList_ofList] at inside
        exact unopened (by simpa using inside)
      have filtered : (trim (String.ofList ('-' :: body))).toList.filter isAmountChar = '-' :: digits := by
        rw [filter_trim, String.toList_ofList, List.filter_cons_of_pos (by decide), body_kept]
      exact parseAmount_signed numberToMinor false true hdigits unsigned closed rfl filtered
    | parentheses =>
      dsimp only
      have text := trim_parentheses body
      have open_ : inParentheses ('(' :: body ++ [')']) = true := by
        have whole : ('(' :: body ++ [')']).any isLineBreak = false := by
          rw [List.any_eq_false]
          intro c stored
          simp only [List.mem_append, List.mem_cons, List.not_mem_nil, or_false] at stored
          rcases stored with (rfl | stored) | rfl
          · decide
          · simp [(plain c stored).2]
          · decide
        have last : ('(' :: body ++ [')']).getLast? = some ')' := List.getLast?_concat
        rw [inParentheses, whole, last]
        simp
      rw [← text] at open_
      have inner : ((trim (String.ofList ('(' :: body ++ [')']))).toList.drop 1).dropLast = body := by
        rw [text]
        simp
      exact parseAmount_signed numberToMinor true false hdigits unsigned open_ inner body_kept
  · rw [if_neg negative]
    simp only [if_neg negative]
    have closed : inParentheses (trim (String.ofList body)).toList = false := by
      apply inParentheses_of_not_mem
      intro stored
      have inside := mem_trim stored
      rw [String.toList_ofList] at inside
      exact unopened inside
    have filtered : (trim (String.ofList body)).toList.filter isAmountChar = digits := by
      rw [filter_trim, String.toList_ofList, body_kept]
    exact parseAmount_signed numberToMinor false false hdigits unsigned closed rfl filtered

theorem map_sign_eq_some_iff (amount : Int) (read : Option Int) :
    (read.map fun minor => if amount < 0 then -minor else minor) = some amount ↔
      read = some (amount.natAbs : Int) := by
  cases read with
  | none => simp
  | some minor =>
    rw [Option.map_some, Option.some_inj, Option.some_inj]
    split <;> omega

end Signs

/-- An amount is read back exactly unless it is written in the European way and a group is taken for a
fraction, or a fraction of three digits for a group. -/
theorem parseAmount_render_iff (toUpperCase : String → String) (currency : String) (r : Rendering)
    (amount : Int) :
    parseAmount (exactNumberToMinor toUpperCase)
        (r.render (exponentOf toUpperCase currency) amount) currency = some amount ↔
      ¬r.Misleading (exponentOf toUpperCase currency) amount.natAbs := by
  rw [parseAmount_render, map_sign_eq_some_iff]
  constructor
  · rintro read ⟨european, ⟨zero, separated⟩ | ⟨three, plain, nonzero⟩⟩
    · rw [zero] at read separated
      exact exactNumberToMinor_groups toUpperCase zero european separated read
    · rw [three] at read plain
      rw [exactNumberToMinor_fraction toUpperCase three european plain] at read
      have thousandfold := Option.some.inj read
      omega
  · intro clear
    by_cases nothing : exponentOf toUpperCase currency = 3 ∧ r.style = .european ∧
        ¬r.Separated 3 amount.natAbs
    · -- Only a zero is the same as its thousandfold.
      obtain ⟨three, european, plain⟩ := nothing
      have zero : amount.natAbs = 0 := by
        by_contra nonzero
        exact clear ⟨european, .inr ⟨three, by rw [three]; exact plain, nonzero⟩⟩
      rw [three, exactNumberToMinor_fraction toUpperCase three european plain, zero]
      rfl
    · rw [withPoint_digitsText, exactNumberToMinor_exactText]
      rintro ⟨european, grouping | ⟨three, plain⟩⟩
      · exact clear ⟨european, .inl grouping⟩
      · rw [three] at plain
        exact nothing ⟨three, european, plain⟩

def plainEuropean : Rendering := ⟨.european, true, .minus, [], [], by simp, by simp⟩

/-- A thousand yen and more are read as one, and half a dinar as five hundred. -/
theorem parseAmount_render_misleading :
    plainEuropean.render (exponentOf String.toUpper "JPY") 1234 = "1.234" ∧
      parseAmount (exactNumberToMinor String.toUpper) "1.234" "JPY" = some 1 ∧
    plainEuropean.render (exponentOf String.toUpper "KWD") 567 = "0,567" ∧
      parseAmount (exactNumberToMinor String.toUpper) "0,567" "KWD" = some 567000 := by
  decide +kernel

end Finverse.Imports
