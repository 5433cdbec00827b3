import Finverse.Imports.AmountForms
import Finverse.Statements.CardRows

/-! The period of a card statement, and the dates of its rows. -/

namespace Finverse.Statements

open Auth (trim)
open Finverse.Imports (daysInMonth decimal isoText padStart)
open Ledger (IsoDate Transaction)

/-! ### Texts of dates -/

section Texts

variable {a b : Insights.Date} {year month day : Nat}

theorem takeWhile_padStart (width n : Nat) (rest : List Char) :
    (padStart width n ++ '-' :: rest).takeWhile Char.isDigit = padStart width n := by
  rw [List.takeWhile_append_of_pos (Imports.padStart_digits width n),
    List.takeWhile_cons_of_neg (by decide), List.append_nil]

theorem padStart_head {width width' n n' : Nat} {rest rest' : List Char}
    (h : padStart width n ++ '-' :: rest = padStart width' n' ++ '-' :: rest') : n = n' ∧ rest = rest' := by
  have digits := congrArg (List.takeWhile Char.isDigit) h
  rw [takeWhile_padStart, takeWhile_padStart] at digits
  have number := congrArg decimal digits
  rw [Imports.decimal_padStart, Imports.decimal_padStart] at number
  rw [digits] at h
  exact ⟨number, (List.cons.inj (List.append_cancel_left h)).2⟩

theorem isoText_injective (h : isoText a = isoText b) : a = b := by
  have chars := congrArg String.toList h
  rw [isoText, isoText, String.toList_ofList, String.toList_ofList, List.append_assoc, List.append_assoc,
    List.cons_append, List.cons_append] at chars
  obtain ⟨hyear, rest⟩ := padStart_head chars
  obtain ⟨hmonth, rest⟩ := padStart_head rest
  have hday := congrArg decimal rest
  rw [Imports.decimal_padStart, Imports.decimal_padStart] at hday
  cases a
  cases b
  simp only [Insights.Date.mk.injEq]
  exact ⟨hyear, hmonth, hday⟩

theorem buildTextDate_date (late : 100 ≤ a.year) :
    buildTextDate (some a.year) (some a.month) a.day = some (isoText a) := by
  have hday := a.day_valid
  have long := Insights.daysInMonth_le a.year a.month
  rw [buildTextDate, if_neg (by omega), if_neg (by omega)]
  rfl

/-- What is built is a date of the calendar. -/
theorem buildTextDate_some {text : IsoDate} (hmonth : 1 ≤ month ∧ month ≤ 12)
    (h : buildTextDate (some year) (some month) day = some text) :
    ∃ date : Insights.Date, date.year = year ∧ date.month = month ∧ date.day = day ∧ text = isoText date := by
  simp only [buildTextDate] at h
  split at h
  · cases h
  split at h
  · cases h
  rename_i inside valid
  exact ⟨⟨year, month, day, hmonth, by omega⟩, rfl, rfl, rfl, (Option.some.inj h).symm⟩

theorem monthOf_range {name : List Char} (h : monthOf name = some month) : 1 ≤ month ∧ month ≤ 12 := by
  have all : ∀ entry ∈ MONTHS, 1 ≤ entry.2 ∧ entry.2 ≤ 12 := by decide
  rw [monthOf, List.lookup_eq_some_iff] at h
  obtain ⟨before, after, hsplit, -⟩ := h
  exact all (String.ofList (name.map Char.toLower), month) (by rw [hsplit]; simp)

end Texts

/-! ### The period of a statement -/

/-- A period as it is written, from a month and a day to a month and a day of a year. The header
patterns read years of this century only. -/
structure Period where
  startMonth : Nat
  startDay : Nat
  startYear : Option Nat
  endMonth : Nat
  endDay : Nat
  endYear : Nat
  startYear_late : ∀ year ∈ startYear, 2000 ≤ year
  endYear_late : 2000 ≤ endYear

/-- A month and a day, and no year. -/
def readMonthDay (value : List Char) : Option (Nat × Nat) :=
  (longDatePattern.exec (trim (String.ofList value)).toList).bind fun found =>
    if found.group? 3 = none then
      ((found.group? 1).bind monthOf).map fun month => (month, (numberGroup found 2).getD 0)
    else none

/-- The period in the header of a text: where it starts, perhaps in a year, and where it ends. -/
def writtenPeriod (text : String) : Option ((Nat × Nat) × Option Nat × (Nat × Nat) × Nat) :=
  (periodPattern.exec text.toList).bind fun found =>
    ((found.group? 1).bind readMonthDay).bind fun first =>
      ((found.group? 3).bind readMonthDay).bind fun last =>
        (numberGroup found 4).map fun year => (first, numberGroup found 2, last, year)

/-- The header of the text says the period. -/
def Says (text : String) (period : Period) : Prop :=
  writtenPeriod text = some ((period.startMonth, period.startDay), period.startYear,
    (period.endMonth, period.endDay), period.endYear)

/-- The year ends between the month and day that the period starts on and those that it ends on. -/
def Period.Crosses (period : Period) : Prop :=
  period.endMonth < period.startMonth ∨
    period.endMonth = period.startMonth ∧ period.endDay < period.startDay

/-- The dates a period stands for: without a year of its own, it starts in the latest year that is not
after its end. -/
structure Period.Spans (period : Period) (start stop : Insights.Date) : Prop where
  start_month : start.month = period.startMonth
  start_day : start.day = period.startDay
  stop_month : stop.month = period.endMonth
  stop_day : stop.day = period.endDay
  stop_year : stop.year = period.endYear
  start_year : ∀ year ∈ period.startYear, start.year = year
  latest : period.startYear = none →
    (¬period.Crosses → start.year = period.endYear) ∧ (period.Crosses → start.year + 1 = period.endYear)
  ordered : start ≤ stop

section Periods

variable {C : StatementContext} {text currency : String} {period : Period} {start stop : Insights.Date}

theorem parseLongDate_monthDay {value : List Char} {month day : Nat}
    (h : readMonthDay value = some (month, day)) (year : Option Nat) :
    parseLongDate value year = buildTextDate year (some month) day := by
  rw [readMonthDay, Option.bind_eq_some_iff] at h
  obtain ⟨found, hfound, h⟩ := h
  split at h
  · rename_i none
    rw [Option.map_eq_some_iff] at h
    obtain ⟨month', hmonth, same⟩ := h
    obtain ⟨rfl, rfl⟩ := Prod.mk.inj same
    rw [parseLongDate, hfound]
    simp [numberGroup, none, hmonth]
  · cases h

theorem details_period (currency : String) (told : Says text period) :
    (extractStatementDetails C text currency).periodStart =
        buildTextDate (some (period.startYear.getD period.endYear)) (some period.startMonth) period.startDay ∧
      (extractStatementDetails C text currency).periodEnd =
        buildTextDate (some period.endYear) (some period.endMonth) period.endDay := by
  simp only [Says, writtenPeriod, Option.bind_eq_some_iff, Option.map_eq_some_iff] at told
  obtain ⟨found, hfound, first', ⟨startText, hstart, first⟩, last', ⟨stopText, hstop, third⟩, year, fourth,
    same⟩ := told
  obtain ⟨rfl, second, rfl, rfl⟩ : _ ∧ _ ∧ _ ∧ _ := by simpa using same
  constructor
  · simp only [extractStatementDetails, hfound, Option.bind_some, hstart, parseLongDate_monthDay first,
      second, fourth]
    cases period.startYear <;> rfl
  · simp only [extractStatementDetails, hfound, Option.bind_some, hstop, parseLongDate_monthDay third,
      fourth]

/-- The end is dated right in any case, and the start unless its year has to be inferred across the
end of a year. -/
theorem details_spans (C : StatementContext) (currency : String) (told : Says text period) (spans : period.Spans start stop) :
    (extractStatementDetails C text currency).periodEnd = some (isoText stop) ∧
      (period.startYear ≠ none ∨ ¬period.Crosses →
        (extractStatementDetails C text currency).periodStart = some (isoText start)) := by
  obtain ⟨hstart, hstop⟩ := details_period (C := C) currency told
  rw [hstart, hstop]
  constructor
  · rw [← spans.stop_month, ← spans.stop_day, ← spans.stop_year]
    exact buildTextDate_date (by rw [spans.stop_year]; exact Nat.le_trans (by decide) period.endYear_late)
  · intro known
    have hyear : period.startYear.getD period.endYear = start.year := by
      cases hyear : period.startYear with
      | none =>
        have inside := known.resolve_left (by simp [hyear])
        exact ((spans.latest hyear).1 inside).symm
      | some year => exact (spans.start_year year hyear).symm
    have late : 100 ≤ start.year := by
      rw [← hyear]
      cases hyear : period.startYear with
      | none => exact Nat.le_trans (by decide) period.endYear_late
      | some year => exact Nat.le_trans (by decide) (period.startYear_late year hyear)
    rw [hyear, ← spans.start_month, ← spans.start_day]
    exact buildTextDate_date late

/-- Across the end of a year, a start without a year of its own is dated after the end. -/
theorem details_crosses (told : Says text period) (spans : period.Spans start stop)
    (crosses : period.Crosses) (unwritten : period.startYear = none) {date : Insights.Date}
    (h : (extractStatementDetails C text currency).periodStart = some (isoText date)) : ¬date ≤ stop := by
  have hstart := (details_period (C := C) currency told).1
  rw [hstart, unwritten, Option.getD_none] at h
  have hmonth : 1 ≤ period.startMonth ∧ period.startMonth ≤ 12 := spans.start_month ▸ start.month_valid
  obtain ⟨built, hyear, hmonth', hday, same⟩ := buildTextDate_some hmonth h
  obtain rfl := isoText_injective same
  have hstop := stop.digits_day
  intro before
  have digits : date.digits ≤ stop.digits := before
  simp only [Insights.Date.digits, hyear, hmonth', hday, spans.stop_year, spans.stop_month,
    spans.stop_day] at digits hstop
  rcases crosses with month | ⟨month, day⟩ <;> omega

theorem mem_parseCreditCardRows {lines : List String} {existing : List Transaction}
    {row : StatementRowDraft} :
    row ∈ parseCreditCardRows C lines text currency existing ↔
      ∃ year ∈ anchorYear text, ∃ line ∈ cardLines lines,
        cardDraft C year currency existing line.1 line.2.1 line.2.2 = row := by
  rw [parseCreditCardRows]
  cases anchorYear text with
  | none => simp
  | some year => simp [List.mem_map]

theorem cardDraft_postedAt (C : StatementContext) (year : Nat) (currency : String)
    (existing : List Transaction) (line : Nat) (raw : String) (card : CardLine) :
    (cardDraft C year currency existing line raw card).postedAt =
      buildTextDate (some year) card.month card.day := rfl

theorem anchorYear_late {year : Nat} (h : anchorYear text = some year) : 2000 ≤ year := by
  rw [anchorYear, Option.filter_eq_some_iff, findStatementYear, Option.filter_eq_some_iff] at h
  have range : 2000 ≤ year ∧ year ≤ 2100 := by simpa using h.1.2
  exact range.1

theorem cardLine_month {lines : List String} {line : Nat × String × CardLine} (h : line ∈ cardLines lines)
    {month : Nat} (hmonth : line.2.2.month = some month) : 1 ≤ month ∧ month ≤ 12 := by
  obtain ⟨⟨raw, index⟩, -, hread⟩ := List.mem_filterMap.mp (List.mem_of_mem_take h)
  rw [Option.map_eq_some_iff] at hread
  obtain ⟨card, hcard, rfl⟩ := hread
  rw [readCardLine, Option.map_eq_some_iff] at hcard
  obtain ⟨found, -, rfl⟩ := hcard
  obtain ⟨name, -, hname⟩ := Option.bind_eq_some_iff.mp hmonth
  exact monthOf_range hname

end Periods

/-- The period is dated in order, and every dated row inside it. -/
def RowsWithinPeriod (C : StatementContext) (text currency : String) (existing : List Transaction) : Prop :=
  ∃ start stop : Insights.Date,
    (extractStatementDetails C text currency).periodStart = some (isoText start) ∧
    (extractStatementDetails C text currency).periodEnd = some (isoText stop) ∧ start ≤ stop ∧
    ∀ row ∈ parseCreditCardRows C (statementLines text) text currency existing,
      ∀ postedAt ∈ row.postedAt, ∃ date, postedAt = isoText date ∧ start ≤ date ∧ date ≤ stop

/-- The year that all rows are dated in puts each transaction inside the period. -/
def AnchoredWithin (text : String) (start stop : Insights.Date) : Prop :=
  ∀ year ∈ anchorYear text, ∀ line ∈ cardLines (statementLines text), ∀ date : Insights.Date,
    date.year = year → line.2.2.month = some date.month → line.2.2.day = date.day →
      start ≤ date ∧ date ≤ stop

/-- A context without rules, merchants or a learner, for texts in ASCII. -/
def plainStatement : StatementContext where
  text := ⟨fun s => String.ofList (s.toList.map Char.toLower), fun _ _ => none,
    ⟨fun _ _ => true, by simp, by simp⟩, fun _ => true⟩
  options := ⟨[], [], none⟩
  toUpperCase s := String.ofList (s.toList.map Char.toUpper)
  numberToMinor := Imports.exactNumberToMinor fun s => String.ofList (s.toList.map Char.toUpper)
  sha256 := id

/-- A statement across a new year, with one purchase. -/
def newYearStatement (startYear : String) : String :=
  "Card number 1234\nStatement period Dec 15" ++ startYear ++ " to Jan 14, 2026\nDec 20 Dec 21 Coffee 4.50"

def newYearPeriod (startYear : Option Nat) (late : ∀ year ∈ startYear, 2000 ≤ year) : Period :=
  ⟨12, 15, startYear, 1, 14, 2026, late, by decide⟩

def december15 : Insights.Date := ⟨2025, 12, 15, by decide, by decide⟩

def january14 : Insights.Date := ⟨2026, 1, 14, by decide, by decide⟩

end Finverse.Statements
