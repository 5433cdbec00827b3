import Finverse.Http
import Finverse.Imports.Days
import Finverse.Insights.DateSteps
import Mathlib.Data.List.Lex
import Mathlib.Data.String.Basic

/-! Dates as texts, as the runtime reads them and writes them back. -/

namespace Finverse.Scheduled

open Imports (decimal padStart daysInMonth utcYear)
open Ledger (IsoDate)

inductive DateError
  | typeError (message : String)
  | rangeError (message : String)
  deriving DecidableEq, Repr

def slice (start end_ : Nat) (cs : List Char) : List Char := (cs.take end_).drop start

/-- `/^\d{4}-\d{2}-\d{2}$/` -/
def isIsoDate (text : String) : Bool :=
  match text.toList with
  | [a, b, c, d, '-', e, f, '-', g, h] => [a, b, c, d, e, f, g, h].all Char.isDigit
  | _ => false

def assertIsoDate (value : String) : Except DateError Unit :=
  throwIf (isIsoDate value = false)
    (.typeError ("Expected an ISO date (YYYY-MM-DD), received \"" ++ value ++ "\""))

/-- A date of the runtime at midnight, none for an invalid one. -/
abbrev UtcDate := Option Insights.Date

def firstOf (year month : Nat) (valid : 1 ≤ month ∧ month ≤ 12) : Insights.Date :=
  ⟨year, month, 1, valid, Nat.le_refl 1, Nat.le_trans (by omega) (Insights.daysInMonth_pos _ _)⟩

/-- A day up to 31 that the month does not have runs on into the next month. -/
def toUtcDate (date : IsoDate) : Except DateError UtcDate := do
  assertIsoDate date
  let year := decimal (slice 0 4 date.toList)
  let month := decimal (slice 5 7 date.toList)
  let day := decimal (slice 8 10 date.toList)
  return if valid : 1 ≤ month ∧ month ≤ 12 then
    if 1 ≤ day ∧ day ≤ 31 then some ((firstOf year month valid).addDays (day - 1)) else none
  else none

/-- `toISOString`, up to the day. Years past 9999 have a sign and six digits. -/
def isoString (date : Insights.Date) : List Char :=
  (if date.year ≤ 9999 then padStart 4 date.year else '+' :: padStart 6 date.year) ++
    '-' :: padStart 2 date.month ++ '-' :: padStart 2 date.day

def toIsoDate : UtcDate → Except DateError IsoDate
  | none => .error (.rangeError "Invalid time value")
  | some date => .ok (String.ofList (slice 0 10 (isoString date)))

def addDays (date : IsoDate) (days : Nat) : Except DateError IsoDate := do
  let d ← toUtcDate date
  toIsoDate (d.map (·.addDays days))

def addMonths (date : IsoDate) (months : Nat) : Except DateError IsoDate := do
  let d ← toUtcDate date
  toIsoDate (d.map (·.addMonths months))

/-- `daysInMonth`: the day before the first of the next month, in the year that `Date.UTC` takes. -/
def utcDaysInMonth (year month : Nat) : Nat :=
  if month = 0 then 31
  else daysInMonth (utcYear year + (month - 1) / 12) ((month - 1) % 12 + 1)

/-! ### The order of texts -/

theorem append_lt_append_iff {a b x y : List Char} (length : a.length = b.length) :
    a ++ x < b ++ y ↔ a < b ∨ a = b ∧ x < y := by
  induction a generalizing b with
  | nil =>
    obtain rfl := List.length_eq_zero_iff.mp length.symm
    simp
  | cons c cs ih =>
    obtain ⟨d, ds, rfl⟩ := List.exists_cons_of_length_eq_add_one length.symm
    have lengths : cs.length = ds.length := Nat.succ.inj length
    rw [List.cons_append, List.cons_append, List.cons_lt_cons_iff, List.cons_lt_cons_iff,
      ih lengths, List.cons.injEq]
    tauto

theorem decimal_cons (c : Char) (cs : List Char) :
    decimal (c :: cs) = 10 ^ cs.length * (c.toNat - '0'.toNat) + decimal cs := by
  rw [decimal, Nat.ofDigitChars_cons, Nat.ofDigitChars_eq_ofDigitChars_zero, Nat.mul_zero,
    Nat.zero_add, decimal]

theorem digit_bounds {c : Char} (digit : c.isDigit = true) : 48 ≤ c.toNat ∧ c.toNat ≤ 57 := by
  simp only [Char.isDigit, Bool.and_eq_true, decide_eq_true_eq, UInt32.le_iff_toNat_le] at digit
  exact digit

theorem digit_lt_iff {c d : Char} (left : c.isDigit = true) (right : d.isDigit = true) :
    c < d ↔ c.toNat - '0'.toNat < d.toNat - '0'.toNat := by
  have low := (digit_bounds left).1
  have low' := (digit_bounds right).1
  rw [Char.lt_def, UInt32.lt_iff_toNat_lt]
  change c.toNat < d.toNat ↔ c.toNat - 48 < d.toNat - 48
  omega

theorem digit_inj {c d : Char} (left : c.isDigit = true) (right : d.isDigit = true)
    (same : c.toNat - '0'.toNat = d.toNat - '0'.toNat) : c = d := by
  have low := (digit_bounds left).1
  have low' := (digit_bounds right).1
  have value : c.toNat = d.toNat := by
    change c.toNat - 48 = d.toNat - 48 at same
    omega
  exact Char.toNat_inj.mp value

/-- Digits of one length are in the order of the numbers. -/
theorem digits_lt_iff {a b : List Char} (length : a.length = b.length)
    (left : ∀ c ∈ a, c.isDigit = true) (right : ∀ c ∈ b, c.isDigit = true) :
    a < b ↔ decimal a < decimal b := by
  induction a generalizing b with
  | nil =>
    obtain rfl := List.length_eq_zero_iff.mp length.symm
    simp
  | cons c cs ih =>
    obtain ⟨d, ds, rfl⟩ := List.exists_cons_of_length_eq_add_one length.symm
    obtain ⟨first, left⟩ := List.forall_mem_cons.mp left
    obtain ⟨first', right⟩ := List.forall_mem_cons.mp right
    have lengths : cs.length = ds.length := Nat.succ.inj length
    have below := Imports.decimal_lt left
    have below' := Imports.decimal_lt right
    rw [List.cons_lt_cons_iff, ih lengths left right, decimal_cons, decimal_cons, ← lengths]
    rw [← lengths] at below'
    rw [digit_lt_iff first first']
    rcases lt_trichotomy (c.toNat - '0'.toNat) (d.toNat - '0'.toNat) with less | same | more
    · have step := Nat.mul_le_mul_left (10 ^ cs.length) less
      rw [Nat.mul_succ] at step
      exact iff_of_true (Or.inl less) (by omega)
    · obtain rfl := digit_inj first first' same
      simp
    · have step := Nat.mul_le_mul_left (10 ^ cs.length) more
      rw [Nat.mul_succ] at step
      have other : c ≠ d := by
        rintro rfl
        exact lt_irrefl _ more
      exact iff_of_false (fun h => h.elim (fun h => by omega) fun h => other h.1) (by omega)

theorem padStart_lt_iff {width n m : Nat} (pos : 0 < width) (left : n < 10 ^ width)
    (right : m < 10 ^ width) : padStart width n < padStart width m ↔ n < m := by
  have lengths : (padStart width n).length = (padStart width m).length := by
    rw [Imports.length_padStart pos left, Imports.length_padStart pos right]
  rw [digits_lt_iff lengths (Imports.padStart_digits width n) (Imports.padStart_digits width m),
    Imports.decimal_padStart, Imports.decimal_padStart]

theorem padStart_inj {width n m : Nat} : padStart width n = padStart width m ↔ n = m := by
  constructor
  · intro same
    rw [← Imports.decimal_padStart width n, same, Imports.decimal_padStart]
  · rintro rfl
    rfl

theorem field_lt_iff {width n m : Nat} {x y : List Char} (pos : 0 < width) (left : n < 10 ^ width)
    (right : m < 10 ^ width) :
    padStart width n ++ '-' :: x < padStart width m ++ '-' :: y ↔ n < m ∨ n = m ∧ x < y := by
  have lengths : (padStart width n).length = (padStart width m).length := by
    rw [Imports.length_padStart pos left, Imports.length_padStart pos right]
  rw [append_lt_append_iff lengths, padStart_lt_iff pos left right, padStart_inj,
    List.cons_lt_cons_iff]
  simp

/-! ### The text of a date -/

/-- What `toIsoDate` writes for the date. -/
def text (date : Insights.Date) : IsoDate := String.ofList (slice 0 10 (isoString date))

theorem toIsoDate_some (date : Insights.Date) : toIsoDate (some date) = .ok (text date) := rfl

/-- Where the parts of a text stand that has four, two and two characters between the dashes. -/
theorem slices {year month day : List Char} (hy : year.length = 4) (hm : month.length = 2)
    (hd : day.length = 2) :
    let cs := year ++ '-' :: month ++ '-' :: day
    slice 0 4 cs = year ∧ slice 5 7 cs = month ∧ slice 8 10 cs = day ∧
      slice 0 7 cs = year ++ '-' :: month ∧ slice 0 10 cs = cs := by
  match year, month, day, hy, hm, hd with
  | [_, _, _, _], [_, _], [_, _], _, _, _ => exact ⟨rfl, rfl, rfl, rfl, rfl⟩

theorem isIsoDate_mk {year month day : List Char} (hy : year.length = 4) (hm : month.length = 2)
    (hd : day.length = 2) (digits : ∀ c ∈ year ++ month ++ day, c.isDigit = true) :
    isIsoDate (String.ofList (year ++ '-' :: month ++ '-' :: day)) = true := by
  match year, month, day, hy, hm, hd with
  | [_, _, _, _], [_, _], [_, _], _, _, _ =>
    rw [isIsoDate, String.toList_ofList]
    exact List.all_eq_true.mpr digits

theorem isIsoDate_parts {value : String} (iso : isIsoDate value = true) :
    ∃ year month day : List Char, value.toList = year ++ '-' :: month ++ '-' :: day ∧
      year.length = 4 ∧ month.length = 2 ∧ day.length = 2 ∧
      ∀ c ∈ year ++ month ++ day, c.isDigit = true := by
  rw [isIsoDate] at iso
  split at iso
  · rename_i a b c d e f g h same
    exact ⟨[a, b, c, d], [e, f], [g, h], same, rfl, rfl, rfl, List.all_eq_true.mp iso⟩
  · cases iso

section Text

variable {date : Insights.Date}

theorem month_lt (date : Insights.Date) : date.month < 10 ^ 2 :=
  Nat.lt_of_le_of_lt date.month_valid.2 (by decide)

theorem day_lt (date : Insights.Date) : date.day < 10 ^ 2 :=
  Nat.lt_of_le_of_lt date.digits_day (by decide)

theorem text_toList (small : date.year ≤ 9999) :
    (text date).toList = padStart 4 date.year ++ '-' :: padStart 2 date.month ++
      '-' :: padStart 2 date.day := by
  have hy := Imports.length_padStart (by decide : 0 < 4) (by omega : date.year < 10 ^ 4)
  have hm := Imports.length_padStart (by decide : 0 < 2) (month_lt date)
  have hd := Imports.length_padStart (by decide : 0 < 2) (day_lt date)
  rw [text, String.toList_ofList, isoString, if_pos small]
  exact (slices hy hm hd).2.2.2.2

theorem text_toList_big (big : 9999 < date.year) : ∃ cs, (text date).toList = '+' :: cs := by
  rw [text, String.toList_ofList, isoString, if_neg (not_le.mpr big)]
  exact ⟨_, rfl⟩

theorem isIsoDate_text (small : date.year ≤ 9999) : isIsoDate (text date) = true := by
  have hy := Imports.length_padStart (by decide : 0 < 4) (by omega : date.year < 10 ^ 4)
  have hm := Imports.length_padStart (by decide : 0 < 2) (month_lt date)
  have hd := Imports.length_padStart (by decide : 0 < 2) (day_lt date)
  rw [← String.ofList_toList (s := text date), text_toList small]
  refine isIsoDate_mk hy hm hd fun c mem => ?_
  rcases List.mem_append.mp mem with mem | mem
  · rcases List.mem_append.mp mem with mem | mem
    · exact Imports.padStart_digits _ _ c mem
    · exact Imports.padStart_digits _ _ c mem
  · exact Imports.padStart_digits _ _ c mem

theorem text_lt_iff {a b : Insights.Date} (left : a.year ≤ 9999) (right : b.year ≤ 9999) :
    text a < text b ↔ a.digits < b.digits := by
  rw [String.lt_iff_toList_lt, text_toList left, text_toList right, List.append_assoc,
    List.append_assoc, List.cons_append, List.cons_append,
    field_lt_iff (by decide) (by omega) (by omega),
    field_lt_iff (by decide) (month_lt a) (month_lt b),
    padStart_lt_iff (by decide) (day_lt a) (day_lt b)]
  have month := a.month_valid
  have month' := b.month_valid
  have day := a.digits_day
  have day' := b.digits_day
  rw [Insights.Date.digits, Insights.Date.digits]
  omega

theorem text_inj {a b : Insights.Date} (left : a.year ≤ 9999) (right : b.year ≤ 9999) :
    text a = text b ↔ a = b := by
  constructor
  · intro same
    apply Insights.Date.le_antisymm
    · exact Nat.le_of_not_lt fun h => absurd ((text_lt_iff right left).mpr h) (same ▸ lt_irrefl _)
    · exact Nat.le_of_not_lt fun h => absurd ((text_lt_iff left right).mpr h) (same ▸ lt_irrefl _)
  · rintro rfl
    rfl

theorem digit_head {value : IsoDate} (iso : isIsoDate value = true) :
    ∃ c cs, value.toList = c :: cs ∧ c.isDigit = true := by
  obtain ⟨year, month, day, parts, length, -, -, digits⟩ := isIsoDate_parts iso
  obtain ⟨c, cs, rfl⟩ := List.exists_cons_of_length_eq_add_one length
  exact ⟨c, _, parts, digits c (by simp)⟩

/-- A text with a sign is before every one of the form of a date. -/
theorem signed_lt {value end_ : IsoDate} (sign : value.toList.head? = some '+')
    (iso : isIsoDate end_ = true) : value < end_ := by
  obtain ⟨cs, signed⟩ := List.head?_eq_some_iff.mp sign
  obtain ⟨c, ds, first, digit⟩ := digit_head iso
  have less : '+' < c := by
    rw [Char.lt_def, UInt32.lt_iff_toNat_lt]
    exact Nat.lt_of_lt_of_le (by decide : '+'.toNat < 48) (digit_bounds digit).1
  rw [String.lt_iff_toList_lt, signed, first]
  exact List.cons_lt_cons_iff.mpr (Or.inl less)

theorem toUtcDate_ok {value : IsoDate} (iso : isIsoDate value = true) :
    toUtcDate value = .ok (
      if valid : 1 ≤ decimal (slice 5 7 value.toList) ∧ decimal (slice 5 7 value.toList) ≤ 12 then
        if 1 ≤ decimal (slice 8 10 value.toList) ∧ decimal (slice 8 10 value.toList) ≤ 31 then
          some ((firstOf (decimal (slice 0 4 value.toList)) _ valid).addDays
            (decimal (slice 8 10 value.toList) - 1))
        else none
      else none) := by
  rw [toUtcDate, assertIsoDate, throwIf, if_neg (by simp [iso])]
  rfl

theorem slices_text (small : date.year ≤ 9999) :
    let cs := (text date).toList
    slice 0 4 cs = padStart 4 date.year ∧ slice 5 7 cs = padStart 2 date.month ∧
      slice 8 10 cs = padStart 2 date.day ∧
      slice 0 7 cs = padStart 4 date.year ++ '-' :: padStart 2 date.month := by
  have hy := Imports.length_padStart (by decide : 0 < 4) (by omega : date.year < 10 ^ 4)
  have hm := Imports.length_padStart (by decide : 0 < 2) (month_lt date)
  have hd := Imports.length_padStart (by decide : 0 < 2) (day_lt date)
  obtain ⟨year, month, day, front, -⟩ := slices hy hm hd
  rw [text_toList small]
  exact ⟨year, month, day, front⟩

theorem toUtcDate_text (small : date.year ≤ 9999) : toUtcDate (text date) = .ok (some date) := by
  obtain ⟨year, month, day, -⟩ := slices_text small
  have within := date.digits_day
  have valid := date.day_valid
  rw [toUtcDate_ok (isIsoDate_text small)]
  simp only [year, month, day, Imports.decimal_padStart]
  rw [dif_pos date.month_valid, if_pos ⟨valid.1, within⟩]
  congr 2
  apply Insights.Date.eq_of_number
  rw [Insights.Date.number_addDays, Insights.Date.number_eq, Insights.Date.number_eq, firstOf]
  dsimp only
  omega

theorem addDays_text (small : date.year ≤ 9999) (days : Nat) :
    addDays (text date) days = .ok (text (date.addDays days)) := by
  rw [addDays, toUtcDate_text small]
  rfl

theorem addMonths_text (small : date.year ≤ 9999) (months : Nat) :
    addMonths (text date) months = .ok (text (date.addMonths months)) := by
  rw [addMonths, toUtcDate_text small]
  rfl

end Text

end Finverse.Scheduled
