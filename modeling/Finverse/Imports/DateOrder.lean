import Finverse.Imports.Days
import Finverse.Insights.Dates

/-! The order of day, month and year in the dates of a file. -/

namespace Finverse.Imports

open Auth (trim)
open Ledger (IsoDate)

/-! ### Detection -/

/-- What the dates so far say of their order. -/
structure OrderEvidence where
  firstOverTwelve : Bool := false
  secondOverTwelve : Bool := false
  isoCount : Nat := 0
  considered : Nat := 0
  deriving DecidableEq, Repr

structure DateOrderDetection where
  order : DateOrder
  ambiguous : Bool
  reason : String
  deriving DecidableEq, Repr

def weighDate (evidence : OrderEvidence) (raw : String) : OrderEvidence :=
  let value := (trim raw).toList
  if value = [] then evidence
  else if (threeNumbers ['-', '/'] 4 4 1 2 value).isSome then
    { evidence with isoCount := evidence.isoCount + 1, considered := evidence.considered + 1 }
  else
    match threeNumbers ['-', '/', '.'] 1 2 2 4 value with
    | none => evidence
    | some (first, second, _) =>
      { evidence with
        considered := evidence.considered + 1
        firstOverTwelve := evidence.firstOverTwelve || decide (first > 12)
        secondOverTwelve := evidence.secondOverTwelve || decide (second > 12) }

def concludeOrder (evidence : OrderEvidence) : DateOrderDetection :=
  if evidence.considered > 0 ∧ evidence.isoCount = evidence.considered then
    ⟨.ymd, false, "All dates are ISO (YYYY-MM-DD)."⟩
  else if evidence.firstOverTwelve ∧ evidence.secondOverTwelve then
    ⟨.dmy, true, "Both positions exceed 12 in different rows; the file is inconsistent."⟩
  else if evidence.firstOverTwelve then ⟨.dmy, false, "A day above 12 appears first."⟩
  else if evidence.secondOverTwelve then ⟨.mdy, false, "A day above 12 appears second."⟩
  else ⟨.dmy, true, "No row distinguishes day from month. Confirm the order."⟩

def detectDateOrder (values : List String) : DateOrderDetection :=
  concludeOrder (values.foldl weighDate {})

/-! ### Dates in digits -/

/-- Digits that say `n`, as many as `lengths` allows. -/
structure Numeral (lengths : List Nat) (n : Nat) (text : List Char) : Prop where
  digits : ∀ c ∈ text, c.isDigit = true
  value : decimal text = n
  length : text.length ∈ lengths

/-- A year of four digits, or the last two of one in the window. -/
def YearWritten (year : Nat) (text : List Char) : Prop :=
  1000 ≤ year ∧ Numeral [4] year text ∨
    (1980 ≤ year ∧ year ≤ 2079) ∧ Numeral [2] (year % 100) text

/-- The ways to write a date. -/
inductive Written : DateOrder → Insights.Date → List Char → Prop
  | dmy {date : Insights.Date} {day month year : List Char} {sep sep' : Char}
      (hday : Numeral [1, 2] date.day day) (hmonth : Numeral [1, 2] date.month month)
      (hyear : YearWritten date.year year) (hsep : sep ∈ ['-', '/', '.'])
      (hsep' : sep' ∈ ['-', '/', '.']) :
      Written .dmy date (day ++ sep :: month ++ sep' :: year)
  | mdy {date : Insights.Date} {day month year : List Char} {sep sep' : Char}
      (hday : Numeral [1, 2] date.day day) (hmonth : Numeral [1, 2] date.month month)
      (hyear : YearWritten date.year year) (hsep : sep ∈ ['-', '/', '.'])
      (hsep' : sep' ∈ ['-', '/', '.']) :
      Written .mdy date (month ++ sep :: day ++ sep' :: year)
  | ymd {date : Insights.Date} {day month year : List Char} {sep sep' : Char}
      (hday : Numeral [1, 2] date.day day) (hmonth : Numeral [1, 2] date.month month)
      (hyear : Numeral [4] date.year year) (late : 1000 ≤ date.year) (hsep : sep ∈ ['-', '/'])
      (hsep' : sep' ∈ ['-', '/']) :
      Written .ymd date (year ++ sep :: month ++ sep' :: day)

/-- `YYYY-MM-DD` -/
def isoText (date : Insights.Date) : IsoDate :=
  String.ofList (padStart 4 date.year ++ '-' :: padStart 2 date.month ++ '-' :: padStart 2 date.day)

/-- A part of the date shows in which order it is written. -/
def TellsOrder (order : DateOrder) (date : Insights.Date) : Prop := order = .ymd ∨ 12 < date.day

section Numerals

variable {lengths : List Nat} {n : Nat} {text : List Char}

theorem digitsUpTo_append {most : Nat} {digits rest : List Char}
    (hdigits : ∀ c ∈ digits, c.isDigit = true) (fits : digits.length ≤ most)
    (stops : ∀ c ∈ rest.head?, c.isDigit = false) :
    digitsUpTo most (digits ++ rest) = (digits, rest) := digitsUpTo_most hdigits fits (.inl stops)

theorem separator_not_digit {c : Char} (h : c ∈ ['-', '/', '.']) : c.isDigit = false := by
  simp only [List.mem_cons, List.not_mem_nil, or_false] at h
  rcases h with rfl | rfl | rfl <;> decide

/-- Three numerals between separators are read as what they say. -/
theorem threeNumbers_numerals {separators : List Char} (hsub : ∀ c ∈ separators, c ∈ ['-', '/', '.'])
    {least most least' most' : Nat} {first second third : List Char} {a b c : Nat} {sep sep' : Char}
    {lengths lengths' : List Nat} (hfirst : Numeral lengths a first) (hsecond : Numeral [1, 2] b second)
    (hthird : Numeral lengths' c third) (bounds : ∀ l ∈ lengths, least ≤ l ∧ l ≤ most)
    (bounds' : ∀ l ∈ lengths', least' ≤ l ∧ l ≤ most') (hsep : sep ∈ separators)
    (hsep' : sep' ∈ separators) :
    threeNumbers separators least most least' most' (first ++ sep :: second ++ sep' :: third) =
      some (a, b, c) := by
  have stop := separator_not_digit (hsub sep hsep)
  have stop' := separator_not_digit (hsub sep' hsep')
  have small : 1 ≤ second.length ∧ second.length ≤ 2 := by
    have := hsecond.length
    simp only [List.mem_cons, List.not_mem_nil, or_false] at this
    omega
  have readFirst : digitsUpTo most (first ++ sep :: (second ++ sep' :: third)) =
      (first, sep :: (second ++ sep' :: third)) :=
    digitsUpTo_append hfirst.digits (bounds _ hfirst.length).2 (by simpa using stop)
  have readSecond : digitsUpTo 2 (second ++ sep' :: third) = (second, sep' :: third) :=
    digitsUpTo_append hsecond.digits small.2 (by simpa using stop')
  have readThird : digitsUpTo most' (third ++ []) = (third, []) :=
    digitsUpTo_append hthird.digits (bounds' _ hthird.length).2 (by simp)
  rw [List.append_nil] at readThird
  have enough := (bounds _ hfirst.length).1
  have enough' := (bounds' _ hthird.length).1
  simp only [List.append_assoc, List.cons_append]
  simp [threeNumbers, readFirst, readSecond, readThird, hsep, hsep', small.1, enough, enough',
    hfirst.value, hsecond.value, hthird.value]

/-- A number of one or two digits is no year of four. -/
theorem threeNumbers_short {separators : List Char} {most least' most' : Nat} {first rest : List Char}
    {a : Nat} {sep : Char} (hfirst : Numeral [1, 2] a first) (hmost : 2 ≤ most)
    (hsep : sep ∈ ['-', '/', '.']) :
    threeNumbers separators 4 most least' most' (first ++ sep :: rest) = none := by
  have stop := separator_not_digit hsep
  have small : first.length ≤ 2 := by
    have := hfirst.length
    simp only [List.mem_cons, List.not_mem_nil, or_false] at this
    omega
  have readFirst : digitsUpTo most (first ++ sep :: rest) = (first, sep :: rest) :=
    digitsUpTo_append hfirst.digits (by omega) (by simpa using stop)
  have short : ¬4 ≤ first.length := by omega
  simp [threeNumbers, readFirst, short]

theorem YearWritten.numeral {year : Nat} (h : YearWritten year text) :
    ∃ n, Numeral [2, 4] n text ∧ fullYear n = year := by
  rcases h with ⟨four, hyear⟩ | ⟨⟨low, high⟩, hyear⟩
  · refine ⟨year, ⟨hyear.digits, hyear.value, ?_⟩, ?_⟩
    · exact List.mem_cons_of_mem _ hyear.length
    · rw [fullYear, if_neg (by omega)]
  · refine ⟨year % 100, ⟨hyear.digits, hyear.value, ?_⟩, ?_⟩
    · exact List.mem_of_mem_take (i := 1) hyear.length
    · rw [fullYear, if_pos (by omega)]
      split <;> omega

theorem YearWritten.year_ge {year : Nat} (h : YearWritten year text) : 100 ≤ year := by
  rcases h with ⟨four, _⟩ | ⟨⟨low, _⟩, _⟩ <;> omega

end Numerals

/-! ### Reading what is written -/

section Read

variable {order : DateOrder} {date : Insights.Date} {text : List Char} {value : String}

/-- What the two patterns make of a date in its order. -/
def Reads (order : DateOrder) (date : Insights.Date) (text : List Char) : Prop :=
  match order with
  | .ymd => threeNumbers ['-', '/'] 4 4 1 2 text = some (date.year, date.month, date.day)
  | .dmy => threeNumbers ['-', '/'] 4 4 1 2 text = none ∧ ∃ year, fullYear year = date.year ∧
      threeNumbers ['-', '/', '.'] 1 2 2 4 text = some (date.day, date.month, year)
  | .mdy => threeNumbers ['-', '/'] 4 4 1 2 text = none ∧ ∃ year, fullYear year = date.year ∧
      threeNumbers ['-', '/', '.'] 1 2 2 4 text = some (date.month, date.day, year)

theorem Written.reads (h : Written order date text) : Reads order date text := by
  have all : ∀ c ∈ ['-', '/', '.'], c ∈ ['-', '/', '.'] := fun _ h => h
  have some_ : ∀ c ∈ ['-', '/'], c ∈ ['-', '/', '.'] := by simp
  cases h with
  | dmy hday hmonth hyear hsep hsep' =>
    obtain ⟨year, numeral, full⟩ := hyear.numeral
    refine ⟨?_, year, full, ?_⟩
    · rw [List.append_assoc, List.cons_append]
      exact threeNumbers_short hday (by omega) hsep
    · exact threeNumbers_numerals all hday hmonth numeral (by simp) (by simp) hsep hsep'
  | mdy hday hmonth hyear hsep hsep' =>
    obtain ⟨year, numeral, full⟩ := hyear.numeral
    refine ⟨?_, year, full, ?_⟩
    · rw [List.append_assoc, List.cons_append]
      exact threeNumbers_short hmonth (by omega) hsep
    · exact threeNumbers_numerals all hmonth hday numeral (by simp) (by simp) hsep hsep'
  | ymd hday hmonth hyear late hsep hsep' =>
    exact threeNumbers_numerals some_ hyear hmonth hday (by simp) (by simp) hsep hsep'

theorem Written.ne_nil (h : Written order date text) : text ≠ [] := by
  cases h <;> simp

theorem Written.year_ge (h : Written order date text) : 100 ≤ date.year := by
  cases h with
  | dmy _ _ hyear => exact hyear.year_ge
  | mdy _ _ hyear => exact hyear.year_ge
  | ymd _ _ _ late => omega

theorem build_date (h : 100 ≤ date.year) : build date.year date.month date.day = some (isoText date) := by
  have hmonth := date.month_valid
  have hday := date.day_valid
  have long := Insights.daysInMonth_le date.year date.month
  have same : utcYear date.year = date.year := if_neg (by omega)
  rw [build, same, if_neg (by omega), if_neg (by omega)]
  rfl

/-- A date is read back in the order it is written in. -/
theorem parseDate_written (h : Written order date (trim value).toList) :
    parseDate value order = some (isoText date) := by
  have built := build_date h.year_ge
  have reads := h.reads
  unfold parseDate
  dsimp only
  cases order with
  | ymd =>
    rw [show threeNumbers _ 4 4 1 2 _ = _ from reads]
    exact built
  | dmy =>
    obtain ⟨none, year, full, read⟩ := reads
    rw [none]
    simp only [read, full]
    exact built
  | mdy =>
    obtain ⟨none, year, full, read⟩ := reads
    rw [none]
    simp only [read, full]
    exact built

end Read

/-! ### A whole list -/

section Lists

variable {order : DateOrder} {date : Insights.Date} {value : String} {values : List String}

/-- The value is a date in its order. -/
def IsDate (order : DateOrder) (value : String) (date : Insights.Date) : Prop :=
  Written order date (trim value).toList

/-- The values are blanks and dates of one order. -/
def OneOrder (order : DateOrder) (values : List String) : Prop :=
  ∀ value ∈ values, trim value = "" ∨ ∃ date, IsDate order value date

/-- Some date of the list shows the order. -/
def Shown (order : DateOrder) (values : List String) : Prop :=
  ∃ value ∈ values, ∃ date, IsDate order value date ∧ TellsOrder order date

/-- What a date adds to the evidence. -/
def OrderEvidence.add (evidence : OrderEvidence) (order : DateOrder) (date : Insights.Date) :
    OrderEvidence :=
  { firstOverTwelve := evidence.firstOverTwelve || order == .dmy && decide (12 < date.day)
    secondOverTwelve := evidence.secondOverTwelve || order == .mdy && decide (12 < date.day)
    isoCount := evidence.isoCount + if order = .ymd then 1 else 0
    considered := evidence.considered + 1 }

theorem weighDate_blank (blank : trim value = "") (evidence : OrderEvidence) :
    weighDate evidence value = evidence := by
  simp [weighDate, blank]

theorem weighDate_date (h : IsDate order value date) (evidence : OrderEvidence) :
    weighDate evidence value = evidence.add order date := by
  have nonempty := h.ne_nil
  have reads := h.reads
  have hmonth : ¬12 < date.month := by have := date.month_valid; omega
  unfold weighDate
  dsimp only
  rw [if_neg nonempty]
  cases order with
  | ymd =>
    rw [show threeNumbers _ 4 4 1 2 _ = _ from reads]
    simp [OrderEvidence.add]
  | dmy =>
    obtain ⟨none, year, -, read⟩ := reads
    simp [none, read, OrderEvidence.add, hmonth]
  | mdy =>
    obtain ⟨none, year, -, read⟩ := reads
    simp [none, read, OrderEvidence.add, hmonth]

/-- The evidence of a list that has been weighed so far. -/
structure Weighed (order : DateOrder) (values : List String) (evidence : OrderEvidence) : Prop where
  first : evidence.firstOverTwelve = true ↔ order = .dmy ∧ Shown order values
  second : evidence.secondOverTwelve = true ↔ order = .mdy ∧ Shown order values
  iso : evidence.isoCount = if order = .ymd then evidence.considered else 0
  considered : order = .ymd → (0 < evidence.considered ↔ Shown order values)

theorem Weighed.blank {evidence : OrderEvidence} (h : Weighed order values evidence)
    (blank : trim value = "") : Weighed order (values ++ [value]) evidence := by
  have same : Shown order (values ++ [value]) ↔ Shown order values := by
    constructor
    · rintro ⟨other, stored, date, isDate, tells⟩
      rcases List.mem_append.mp stored with stored | stored
      · exact ⟨other, stored, date, isDate, tells⟩
      · obtain rfl := List.mem_singleton.mp stored
        exact absurd (by rw [blank]; rfl) isDate.ne_nil
    · rintro ⟨other, stored, rest⟩
      exact ⟨other, List.mem_append_left _ stored, rest⟩
  exact ⟨by rw [same]; exact h.first, by rw [same]; exact h.second, h.iso,
    by rw [same]; exact h.considered⟩

theorem IsDate.tells_iff {other : Insights.Date} (h : IsDate order value date)
    (h' : IsDate order value other) : TellsOrder order date ↔ TellsOrder order other := by
  have same := h.reads
  have same' := h'.reads
  cases order with
  | ymd => simp [TellsOrder]
  | dmy =>
    obtain ⟨-, year, -, read⟩ := same
    obtain ⟨-, year', -, read'⟩ := same'
    obtain ⟨hday, -⟩ : date.day = other.day ∧ _ := by simpa using read.symm.trans read'
    simp [TellsOrder, hday]
  | mdy =>
    obtain ⟨-, year, -, read⟩ := same
    obtain ⟨-, year', -, read'⟩ := same'
    obtain ⟨-, hday, -⟩ : _ ∧ date.day = other.day ∧ _ := by simpa using read.symm.trans read'
    simp [TellsOrder, hday]

theorem Weighed.dated {evidence : OrderEvidence} (h : Weighed order values evidence)
    (isDate : IsDate order value date) :
    Weighed order (values ++ [value]) (evidence.add order date) := by
  have more : Shown order (values ++ [value]) ↔ Shown order values ∨ TellsOrder order date := by
    constructor
    · rintro ⟨other, stored, date', isDate', tells⟩
      rcases List.mem_append.mp stored with stored | stored
      · exact .inl ⟨other, stored, date', isDate', tells⟩
      · obtain rfl := List.mem_singleton.mp stored
        exact .inr ((isDate.tells_iff isDate').mpr tells)
    · rintro (⟨other, stored, rest⟩ | tells)
      · exact ⟨other, List.mem_append_left _ stored, rest⟩
      · exact ⟨value, by simp, date, isDate, tells⟩
  have first := h.first
  have second := h.second
  have iso := h.iso
  constructor
  · cases order <;> simp [more, OrderEvidence.add, TellsOrder, first]
  · cases order <;> simp [more, OrderEvidence.add, TellsOrder, second]
  · cases order <;> simp [OrderEvidence.add] at iso ⊢ <;> exact iso
  · rintro rfl
    simp [more, OrderEvidence.add, TellsOrder]

theorem weighed_foldl (h : OneOrder order values) : Weighed order values (values.foldl weighDate {}) := by
  induction values using List.reverseRecOn with
  | nil => exact ⟨by simp [Shown], by simp [Shown], by simp, by simp [Shown]⟩
  | append_singleton values value ih =>
    have before := ih fun other stored => h other (List.mem_append_left _ stored)
    rw [List.foldl_append, List.foldl_cons, List.foldl_nil]
    rcases h value (by simp) with blank | ⟨date, isDate⟩
    · rw [weighDate_blank blank]
      exact before.blank blank
    · rw [weighDate_date isDate]
      exact before.dated isDate

/-- The order is reported as certain exactly when some date shows it, and then it is the right one. -/
theorem detectDateOrder_certain (h : OneOrder order values) :
    ((detectDateOrder values).ambiguous = false → (detectDateOrder values).order = order) ∧
    ((detectDateOrder values).ambiguous = true → ¬Shown order values) := by
  have weighed := weighed_foldl h
  unfold detectDateOrder
  generalize values.foldl weighDate {} = evidence at weighed
  have first := weighed.first
  have second := weighed.second
  have iso := weighed.iso
  have considered := weighed.considered
  unfold concludeOrder
  cases order with
  | ymd =>
    simp only [reduceCtorEq, false_and, iff_false, Bool.not_eq_true] at first second
    simp only [forall_const] at considered
    by_cases some_ : 0 < evidence.considered
    · simp [some_, iso]
    · simp [some_, first, second, ← considered]
  | dmy =>
    simp only [reduceCtorEq, false_and, iff_false, Bool.not_eq_true, true_and, ite_false] at first second iso
    have never : ¬(evidence.considered > 0 ∧ evidence.isoCount = evidence.considered) := by omega
    by_cases late : evidence.firstOverTwelve = true
    · simp [never, late, second]
    · simp [never, late, second, ← first]
  | mdy =>
    simp only [reduceCtorEq, false_and, iff_false, Bool.not_eq_true, true_and, ite_false] at first second iso
    have never : ¬(evidence.considered > 0 ∧ evidence.isoCount = evidence.considered) := by omega
    by_cases late : evidence.secondOverTwelve = true
    · simp [never, late, first]
    · simp [never, late, first, ← second]

end Lists

/-- With a certain order every date is read back, and an uncertain one is one that no date shows. -/
theorem detectDateOrder_sound (order : DateOrder) (values : List String) (h : OneOrder order values) :
    ((detectDateOrder values).ambiguous = false → ∀ value ∈ values, ∀ date, IsDate order value date →
      parseDate value (detectDateOrder values).order = some (isoText date)) ∧
    ((detectDateOrder values).ambiguous = true → ∀ value ∈ values, ∀ date, IsDate order value date →
      ¬TellsOrder order date) := by
  obtain ⟨certain, uncertain⟩ := detectDateOrder_certain h
  constructor
  · intro clear value _ date isDate
    rw [certain clear]
    exact parseDate_written isDate
  · intro unclear value stored date isDate tells
    exact uncertain unclear ⟨value, stored, date, isDate, tells⟩

def april25 : Insights.Date := ⟨2026, 4, 25, by decide, by decide⟩

theorem detectDateOrder_sound_april :
    OneOrder .dmy ["", " 25/4/26"] ∧
      parseDate " 25/4/26" (detectDateOrder ["", " 25/4/26"]).order = some "2026-04-25" := by
  have texts : trim "" = "" ∧ (trim " 25/4/26").toList = ['2', '5'] ++ '/' :: ['4'] ++ '/' :: ['2', '6'] ∧
      (detectDateOrder ["", " 25/4/26"]).ambiguous = false ∧ isoText april25 = "2026-04-25" := by
    decide +kernel
  obtain ⟨blank, text, clear, iso⟩ := texts
  have isDate : IsDate .dmy " 25/4/26" april25 := by
    rw [IsDate, text]
    exact .dmy ⟨by simp, rfl, by simp⟩ ⟨by simp, rfl, by simp⟩
      (.inr ⟨by decide, by simp, rfl, by simp⟩) (by simp) (by simp)
  have one : OneOrder .dmy ["", " 25/4/26"] := by
    intro value stored
    simp only [List.mem_cons, List.not_mem_nil, or_false] at stored
    rcases stored with rfl | rfl
    · exact .inl blank
    · exact .inr ⟨april25, isDate⟩
  rw [← iso]
  exact ⟨one, (detectDateOrder_sound .dmy _ one).1 clear " 25/4/26" (by simp) april25 isDate⟩

end Finverse.Imports
