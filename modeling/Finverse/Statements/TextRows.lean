import Finverse.Statements.CardPeriods

/-! The rows of a statement text with numeric dates. -/

namespace Finverse.Statements

open Auth (trim)
open Categorization (CategorizationResult UNKNOWN_CATEGORY categorizeDescriptor normalizeDescriptor)
open Finverse.Imports (DateOrder IsDate decimal isoText parseAmount parseDate)
open Ledger (IsoDate Transaction)

section Patterns

open Text Pattern

def separator : TextPattern := oneOf ['/', '-']

def dateLike : TextPattern :=
  Pattern.all [boundary, digits 1 4, separator, digits 1 2, separator, digits 1 4, boundary]

def numericDate : TextPattern :=
  Pattern.all [boundary, group 1 (either
    (Pattern.all [digits 4 4, separator, digits 1 2, separator, digits 1 2])
    (Pattern.all [digits 1 2, separator, digits 1 2, separator, digits 2 4])), boundary]

def amountAtEnd : TextPattern :=
  Pattern.all [optional ['(', '-'], spaces 0, optional ['$', '€', '£'], one Char.isDigit,
    many (fun c => c.isDigit || c ∈ [',', '.']) 0 none, optional ['.'], digits 0 2, optional [')'],
    spaces 0, ended]

def yearFirst : TextPattern := Pattern.all [started, digits 4 4]

def leadingParts : TextPattern :=
  Pattern.all [started, group 1 (digits 1 2), separator, group 2 (digits 1 2)]

end Patterns

/-! ### The order of the dates -/

/-- What looks like a date, first on each line. -/
def dateTexts (lines : List String) : List (List Char) :=
  lines.filterMap fun line => (dateLike.exec line.toList).map Pattern.Found.text

/-- The date cannot be read in another order. -/
def isTelling (date : List Char) : Bool :=
  match leadingParts.exec date with
  | some found =>
    (numberGroup found 1).any (fun first => 12 < first) || (numberGroup found 2).any fun second => 12 < second
  | none => yearFirst.test date

def dateOrderOf (lines : List String) : DateOrder :=
  if (dateTexts lines).any fun date => yearFirst.test date then .ymd else .dmy

def ambiguousDate (lines : List String) : Bool :=
  decide ((dateTexts lines).length > 0) && !(dateTexts lines).any isTelling

/-! ### The rows -/

/-- A line with a date on it and an amount at its end. -/
structure TextLine where
  date : String
  amountText : String
  description : String
  deriving DecidableEq, Repr

def readTextLine (line : String) : Option TextLine :=
  (numericDate.exec line.toList).bind fun dateMatch =>
    (amountAtEnd.exec line.toList).map fun amountMatch =>
      { date := String.ofList ((dateMatch.group? 1).getD [])
        amountText := trim (String.ofList amountMatch.text)
        description := tidy (withoutFirst amountMatch.text (withoutFirst dateMatch.text line.toList)) }

/-- The lines that become rows, and where they stand. -/
def textLines (lines : List String) : List (Nat × String × TextLine) :=
  (lines.zipIdx.filterMap fun (line, index) =>
    (readTextLine line).map fun text => (index + 1, line, text)).take MAX_ROWS

section Rows

variable (C : StatementContext)

def lineAmount (currency : String) (text : TextLine) : Option Int :=
  parseAmount C.numberToMinor text.amountText currency

def lineCategory (text : TextLine) : Option CategorizationResult :=
  if text.description = "" then none else some (categorizeDescriptor C.text text.description C.options)

/-- The line is in the ledger already, on a date. -/
def lineKnown (currency : String) (existing : List Transaction) (postedAt : Option IsoDate)
    (text : TextLine) : Bool :=
  isKnown existing postedAt (lineAmount C currency text)
    (normalizeDescriptor C.text.toLowerCase text.description)

def textRow (order : DateOrder) (ambiguous : Bool) (currency : String) (existing : List Transaction)
    (line : Nat) (raw : String) (text : TextLine) : StatementRowDraft :=
  let postedAt := parseDate text.date order
  let amount := lineAmount C currency text
  draftRow C line raw postedAt amount currency text.description (lineCategory C text)
    (flagsOf postedAt amount ambiguous (lineCategory C text) (lineKnown C currency existing postedAt text))

def parseTextRows (text currency : String) (existing : List Transaction) : List StatementRowDraft :=
  let lines := statementLines text
  let cardRows := parseCreditCardRows C lines text currency existing
  if cardRows.length > 0 then cardRows
  else (textLines lines).map fun (line, raw, text) =>
    textRow C (dateOrderOf lines) (ambiguousDate lines) currency existing line raw text

end Rows

/-! ### What is taken in -/

/-- Nothing but its date holds the line back: it has an amount and a certain category, and is not in
the ledger on the date. -/
structure Clean (C : StatementContext) (currency : String) (existing : List Transaction)
    (postedAt : IsoDate) (text : TextLine) : Prop where
  amount : ∃ amount, lineAmount C currency text = some amount ∧ amount ≠ 0
  category : ∃ result, lineCategory C text = some result ∧ 7 / 10 ≤ result.confidence ∧
    result.categorySlug ≠ UNKNOWN_CATEGORY
  fresh : lineKnown C currency existing (some postedAt) text = false

section Included

variable {C : StatementContext} {order : DateOrder} {currency raw : String} {existing : List Transaction}
  {line : Nat} {text : TextLine} {ambiguous known : Bool} {postedAt : Option IsoDate} {amount : Option Int}
  {categorized : Option CategorizationResult}

theorem flagsOf_eq_nil_iff : flagsOf postedAt amount ambiguous categorized known = [] ↔
    postedAt.isSome ∧ (∃ value, amount = some value ∧ value ≠ 0) ∧ ambiguous = false ∧
      (∃ result, categorized = some result ∧ 7 / 10 ≤ result.confidence ∧
        result.categorySlug ≠ UNKNOWN_CATEGORY) ∧ known = false := by
  cases postedAt <;> cases amount <;> cases ambiguous <;> cases categorized <;> cases known <;>
    simp [flagsOf]

theorem draftRow_include (C : StatementContext) (description : String) (flags : List String) :
    (draftRow C line raw postedAt amount currency description categorized flags).decision = .include ↔
      flags = [] := by
  cases flags <;> simp [draftRow]

theorem textRow_postedAt : (textRow C order ambiguous currency existing line raw text).postedAt =
    parseDate text.date order := by
  simp only [textRow, draftRow]

theorem textRow_sourceLine :
    (textRow C order ambiguous currency existing line raw text).sourceLine = line := by
  simp only [textRow, draftRow]

theorem included_iff : (textRow C order ambiguous currency existing line raw text).decision = .include ↔
    ambiguous = false ∧ ∃ postedAt, parseDate text.date order = some postedAt ∧
      Clean C currency existing postedAt text := by
  simp only [textRow, draftRow_include, flagsOf_eq_nil_iff]
  constructor
  · rintro ⟨dated, amount, clear, category, fresh⟩
    obtain ⟨postedAt, hdate⟩ := Option.isSome_iff_exists.mp dated
    rw [hdate] at fresh
    exact ⟨clear, postedAt, hdate, amount, category, fresh⟩
  · rintro ⟨clear, postedAt, hdate, clean⟩
    rw [hdate]
    exact ⟨rfl, clean.amount, clear, clean.category, clean.fresh⟩

theorem flagsOf_length : (flagsOf postedAt amount ambiguous categorized known).length ≤ 8 := by
  simp only [flagsOf, List.length_append]
  split <;> split <;> split <;> split <;> split <;> split <;> simp

theorem ambiguous_flagged :
    "ambiguous_date" ∈ (textRow C order true currency existing line raw text).flags := by
  simp only [textRow, draftRow, List.take_of_length_le flagsOf_length]
  simp [flagsOf]

theorem ambiguous_reviewed :
    (textRow C order true currency existing line raw text).decision = .needsReview := by
  simp [textRow, draftRow, flagsOf]

end Included

/-! ### The dates of a text -/

section Dates

variable {order : DateOrder} {lines : List String} {date : Insights.Date} {text : List Char}

theorem digits_ne_point {digits : List Char} (h : ∀ c ∈ digits, c.isDigit = true) : '.' ∉ digits :=
  fun stored => absurd (h '.' stored) (by decide)

theorem separator_ne_point {c : Char} (h : decide (c ∈ ['/', '-']) = true) : c ≠ '.' := by
  rintro rfl
  exact absurd h (by decide)

/-- What looks like a date has no points. -/
theorem dateTexts_noPoint (h : text ∈ dateTexts lines) : '.' ∉ text := by
  obtain ⟨line, -, h⟩ := List.mem_filterMap.mp h
  obtain ⟨found, hfound, rfl⟩ := Option.map_eq_some_iff.mp h
  obtain ⟨-, -, -, -, c, ⟨-, rfl⟩, c₁, ⟨first, rest₁, -, hfirst, -, -, rfl⟩, c₂,
    ⟨sep, rest₂, -, hsep, rfl⟩, c₃, ⟨second, rest₃, -, hsecond, -, -, rfl⟩, c₄,
    ⟨sep', rest₄, -, hsep', rfl⟩, c₅, ⟨third, rest₅, -, hthird, -, -, rfl⟩, -, stop⟩ :=
    Pattern.exec_eq_some hfound
  have matched : found.text = first ++ sep :: second ++ sep' :: third := by
    apply Pattern.Found.text_eq
    simp [stop, Cursor.skip, Cursor.advance]
  have point := digits_ne_point hfirst
  have point' := digits_ne_point hsecond
  have point'' := digits_ne_point hthird
  simp [matched, point, point', point'', (separator_ne_point hsep).symm, (separator_ne_point hsep').symm]

/-- Numbers with separators look like a date, unless they are too long. -/
theorem dateLike_leads {start stop : Cursor Char} {a b c d e f : Nat}
    (h : (Pattern.all [Text.digits a b, separator, Text.digits c d, separator, Text.digits e f]).Leads
      start stop)
    (lower : 1 ≤ a ∧ 1 ≤ c ∧ 1 ≤ e) (upper : b ≤ 4 ∧ d ≤ 2 ∧ f ≤ 4)
    (before : Text.boundary.Leads start start) (after : Text.boundary.Leads stop stop) :
    dateLike.Leads start stop := by
  obtain ⟨c₁, ⟨first, rest₁, ahead₁, hfirst, enough₁, bounded₁, rfl⟩, c₂, sep, c₃,
    ⟨second, rest₃, ahead₃, hsecond, enough₃, bounded₃, rfl⟩, c₄, sep',
    ⟨third, rest₅, ahead₅, hthird, enough₅, bounded₅, rfl⟩⟩ := h
  have bounded {text : List Char} {most most' : Nat} (h : ∀ bound ∈ some most, text.length ≤ bound)
      (le : most ≤ most') : ∀ bound ∈ some most', text.length ≤ bound := by
    rintro _ ⟨⟩
    exact (h most rfl).trans le
  exact ⟨start, before, _, ⟨first, rest₁, ahead₁, hfirst, by omega, bounded bounded₁ upper.1, rfl⟩, _, sep,
    _, ⟨second, rest₃, ahead₃, hsecond, by omega, bounded bounded₃ upper.2.1, rfl⟩, _, sep',
    _, ⟨third, rest₅, ahead₅, hthird, by omega, bounded bounded₅ upper.2.2, rfl⟩, after⟩

/-- A line with a date of a row looks like a date. -/
theorem dateLike_of_numericDate {line : List Char} (h : (numericDate.exec line).isSome) :
    (dateLike.exec line).isSome := by
  obtain ⟨found, hfound⟩ := Option.isSome_iff_exists.mp h
  obtain ⟨passed, rest, rfl, start, c, ⟨before, rfl⟩, c', ⟨stop, numbers, rfl⟩, after, -⟩ :=
    Pattern.exec_eq_some hfound
  rw [start] at before numbers
  rcases numbers with numbers | numbers
  · exact Pattern.exec_isSome (dateLike_leads numbers (by omega) (by omega) ⟨before, rfl⟩ ⟨after, rfl⟩)
  · exact Pattern.exec_isSome (dateLike_leads numbers (by omega) (by omega) ⟨before, rfl⟩ ⟨after, rfl⟩)

/-- The two leading numbers of a date are read as they stand. -/
theorem leadingParts_exec {first second : List Char} {sep : Char} (rest : List Char)
    (hfirst : ∀ c ∈ first, c.isDigit = true) (lengths : first.length ∈ [1, 2])
    (hsecond : ∀ c ∈ second, c.isDigit = true) (lengths' : second.length ∈ [1, 2])
    (hsep : sep ∈ ['/', '-']) (stops : ∀ c ∈ rest.head?, c.isDigit = false) :
    ∃ found, leadingParts.exec (first ++ sep :: (second ++ rest)) = some found ∧
      found.group? 1 = some first ∧ found.group? 2 = some second := by
  have short : 1 ≤ first.length ∧ first.length ≤ 2 := by
    simp only [List.mem_cons, List.not_mem_nil, or_false] at lengths
    omega
  have short' : 1 ≤ second.length ∧ second.length ≤ 2 := by
    simp only [List.mem_cons, List.not_mem_nil, or_false] at lengths'
    omega
  have stop : sep.isDigit = false :=
    Imports.separator_not_digit (by simp only [List.mem_cons, List.not_mem_nil, or_false] at hsep ⊢; tauto)
  let start := Cursor.start (first ++ sep :: (second ++ rest))
  let c₁ := (start.skip first (sep :: (second ++ rest))).close start 1
  let c₂ := c₁.advance sep (second ++ rest)
  refine ⟨⟨start, (c₂.skip second rest).close c₂ 2⟩, Pattern.exec_of_run ?_, ?_, ?_⟩
  · apply Pattern.run_many_longest (c := start) rfl hfirst short.1 (by simpa using short.2) (by simpa using stop)
    show (Pattern.run separator c₁ fun c => Pattern.run (.group 2 (Text.digits 1 2)) c some) = _
    rw [separator, Text.oneOf, Pattern.run_one (c := c₁) rfl (by simpa using hsep)]
    exact Pattern.run_many_longest (c := c₂) rfl hsecond short'.1 (by simpa using short'.2) stops rfl
  · show List.lookup 1 [(2, _), (1, (start.skip first (sep :: (second ++ rest))).since start)] = some first
    rw [Cursor.since_skip, Cursor.since_skip]
    rfl
  · show List.lookup 2 [(2, (c₂.skip second rest).since c₂), _] = some second
    rw [Cursor.since_skip]
    rfl

/-- A date with its parts in another order than years come first shows it by a day over twelve. -/
theorem isTelling_iff (h : Imports.Written order date text) (years : order ≠ .ymd) (noPoint : '.' ∉ text) :
    isTelling text = true ↔ 12 < date.day := by
  have hmonth := date.month_valid
  have known {c : Char} (hsep : c ∈ ['-', '/', '.']) (hc : c ≠ '.') : c ∈ ['/', '-'] := by
    simp only [List.mem_cons, List.not_mem_nil, or_false] at hsep ⊢
    tauto
  cases h with
  | ymd => exact absurd rfl years
  | @dmy _ day month year sep sep' hday hmonth' hyear hsep hsep' =>
    have hsep₁ : sep ≠ '.' := by
      rintro rfl
      simp at noPoint
    obtain ⟨found, hfound, first, second⟩ := leadingParts_exec (sep' :: year) hday.digits hday.length
      hmonth'.digits hmonth'.length (known hsep hsep₁) (by simpa using Imports.separator_not_digit hsep')
    rw [List.append_assoc, List.cons_append]
    simp only [isTelling, hfound, numberGroup, first, second, Option.map_some, hday.value, hmonth'.value,
      Option.any_some, Bool.or_eq_true, decide_eq_true_eq]
    omega
  | @mdy _ day month year sep sep' hday hmonth' hyear hsep hsep' =>
    have hsep₁ : sep ≠ '.' := by
      rintro rfl
      simp at noPoint
    obtain ⟨found, hfound, first, second⟩ := leadingParts_exec (sep' :: year) hmonth'.digits hmonth'.length
      hday.digits hday.length (known hsep hsep₁) (by simpa using Imports.separator_not_digit hsep')
    rw [List.append_assoc, List.cons_append]
    simp only [isTelling, hfound, numberGroup, first, second, Option.map_some, hday.value, hmonth'.value,
      Option.any_some, Bool.or_eq_true, decide_eq_true_eq]
    omega

theorem dateOrderOf_ne_mdy (lines : List String) : dateOrderOf lines ≠ .mdy := by
  unfold dateOrderOf
  split <;> simp

theorem mem_textLines {line : Nat × String × TextLine} (h : line ∈ textLines lines) :
    ∃ index, lines[index]? = some line.2.1 ∧ line.1 = index + 1 ∧
      readTextLine line.2.1 = some line.2.2 := by
  obtain ⟨⟨raw, index⟩, hline, hread⟩ := List.mem_filterMap.mp (List.mem_of_mem_take h)
  obtain ⟨text, htext, rfl⟩ := Option.map_eq_some_iff.mp hread
  exact ⟨index, List.mem_zipIdx_iff_getElem?.mp hline, rfl, htext⟩

/-- A row knows its line. -/
theorem textLines_unique {line line' : Nat × String × TextLine} (h : line ∈ textLines lines)
    (h' : line' ∈ textLines lines) (same : line.1 = line'.1) : line = line' := by
  obtain ⟨index, hline, number, hread⟩ := mem_textLines h
  obtain ⟨index', hline', number', hread'⟩ := mem_textLines h'
  obtain rfl : index = index' := by omega
  have raw : line.2.1 = line'.2.1 := Option.some.inj (hline.symm.trans hline')
  rw [raw] at hread
  exact Prod.ext same (Prod.ext raw (Option.some.inj (hread.symm.trans hread')))

theorem dateTexts_of_textLine {line : Nat × String × TextLine} (h : line ∈ textLines lines) :
    ∃ text, text ∈ dateTexts lines := by
  obtain ⟨index, hline, -, hread⟩ := mem_textLines h
  obtain ⟨found, hfound, -⟩ := Option.bind_eq_some_iff.mp hread
  obtain ⟨like, hlike⟩ := Option.isSome_iff_exists.mp (dateLike_of_numericDate (by rw [hfound]; rfl))
  exact ⟨like.text, List.mem_filterMap.mpr ⟨_, List.mem_of_getElem? hline, by rw [hlike]; rfl⟩⟩

/-- The numeric dates of the lines are all written in one order. -/
structure DatesIn (order : DateOrder) (lines : List String) : Prop where
  texts : ∀ text ∈ dateTexts lines, ∃ date, Imports.Written order date text
  rows : ∀ line ∈ textLines lines, ∃ date, IsDate order line.2.2.date date

/-- Where each line is a row, its date is what looks like one. -/
theorem datesIn_of_texts (h : ∀ text ∈ dateTexts lines, ∃ date, Imports.Written order date text)
    (same : (textLines lines).map (fun line => (trim line.2.2.date).toList) = dateTexts lines) :
    DatesIn order lines := by
  refine ⟨h, ?_⟩
  intro line stored
  exact h (trim line.2.2.date).toList (by rw [← same]; exact List.mem_map.mpr ⟨line, stored, rfl⟩)

/-- Some date of the lines can be read in one order only. -/
def OrderTold (order : DateOrder) (lines : List String) : Prop :=
  ∃ text ∈ dateTexts lines, ∃ date, Imports.Written order date text ∧ Imports.TellsOrder order date

theorem ambiguousDate_of_untold {line : Nat × String × TextLine} (dates : DatesIn order lines)
    (row : line ∈ textLines lines) (untold : ¬OrderTold order lines) : ambiguousDate lines = true := by
  obtain ⟨text, stored⟩ := dateTexts_of_textLine row
  have none_tells : (dateTexts lines).any isTelling = false := by
    rw [List.any_eq_false]
    intro text stored
    obtain ⟨date, hdate⟩ := dates.texts text stored
    have quiet : ¬Imports.TellsOrder order date := fun tells => untold ⟨text, stored, date, hdate, tells⟩
    rw [Imports.TellsOrder, not_or] at quiet
    rw [isTelling_iff hdate quiet.1 (dateTexts_noPoint stored)]
    exact quiet.2
  simp [ambiguousDate, none_tells, List.length_pos_of_mem stored]

theorem ambiguousDate_of_told (years : order ≠ .ymd) (told : OrderTold order lines) :
    ambiguousDate lines = false := by
  obtain ⟨text, stored, date, hdate, tells⟩ := told
  have telling : isTelling text = true :=
    (isTelling_iff hdate years (dateTexts_noPoint stored)).mpr (tells.resolve_left years)
  have found : (dateTexts lines).any isTelling = true := List.any_eq_true.mpr ⟨text, stored, telling⟩
  simp [ambiguousDate, found]

end Dates

/-! ### Dates in another order -/

section Swapped

variable {order : DateOrder} {date : Insights.Date} {value : String}

/-- The date with its day and month changed over. -/
def swapped (date : Insights.Date) (h : date.day ≤ 12) : Insights.Date where
  year := date.year
  month := date.day
  day := date.month
  month_valid := ⟨date.day_valid.1, h⟩
  day_valid := by
    have hmonth := date.month_valid
    have short : 28 ≤ Imports.daysInMonth date.year date.day := by
      unfold Imports.daysInMonth
      split
      · split <;> omega
      · split <;> omega
    omega

theorem swapped_same (small : date.day ≤ 12) (same : date.day = date.month) : swapped date small = date := by
  cases date
  simp only [swapped, Insights.Date.mk.injEq, true_and] at same ⊢
  exact ⟨same, same.symm⟩

theorem parseDate_dmy (h : order ≠ .mdy) (value : String) : parseDate value order = parseDate value .dmy := by
  simp [parseDate, h]

theorem IsDate.year_ge (h : IsDate order value date) : 100 ≤ date.year := Imports.Written.year_ge h

theorem IsDate.unique {other : Insights.Date} (h : IsDate order value date)
    (h' : IsDate order value other) : date = other :=
  isoText_injective (Option.some.inj
    ((Imports.parseDate_written h).symm.trans (Imports.parseDate_written h')))

theorem parseDate_swapped (isDate : IsDate .mdy value date) :
    parseDate value .dmy = if h : date.day ≤ 12 then some (isoText (swapped date h)) else none := by
  obtain ⟨none, year, full, read⟩ := isDate.reads
  unfold parseDate
  dsimp only
  rw [none]
  simp only [read, full, reduceCtorEq, if_false]
  split
  · rename_i small
    have built : Imports.build (swapped date small).year (swapped date small).month
        (swapped date small).day = some (isoText (swapped date small)) := Imports.build_date isDate.year_ge
    exact built
  · rename_i large
    rw [Imports.build, if_pos (by omega)]

end Swapped

/-- Each row that is taken in has the date on its line, and where no date tells the order all rows are
flagged. The rows of a card statement have no numeric dates. -/
structure DatesCarried (C : StatementContext) (order : DateOrder) (text currency : String)
    (existing : List Transaction) : Prop where
  carried : ∀ row ∈ parseTextRows C text currency existing, row.decision = .include →
    row ∈ parseCreditCardRows C (statementLines text) text currency existing ∨
      ∃ line ∈ textLines (statementLines text), line.1 = row.sourceLine ∧
        ∃ date, IsDate order line.2.2.date date ∧ row.postedAt = some (isoText date)
  flagged : ¬OrderTold order (statementLines text) → ∀ row ∈ parseTextRows C text currency existing,
    row ∈ parseCreditCardRows C (statementLines text) text currency existing ∨
      "ambiguous_date" ∈ row.flags ∧ row.decision = .needsReview

section Carried

variable {C : StatementContext} {order : DateOrder} {text currency : String} {existing : List Transaction}
  {row : StatementRowDraft}

theorem mem_parseTextRows (h : row ∈ parseTextRows C text currency existing) :
    row ∈ parseCreditCardRows C (statementLines text) text currency existing ∨
      ∃ line ∈ textLines (statementLines text),
        textRow C (dateOrderOf (statementLines text)) (ambiguousDate (statementLines text)) currency existing
          line.1 line.2.1 line.2.2 = row := by
  rw [parseTextRows] at h
  dsimp only at h
  split at h
  · exact .inl h
  · obtain ⟨line, stored, made⟩ := List.mem_map.mp h
    exact .inr ⟨line, stored, made⟩

theorem textRow_mem (noCards : parseCreditCardRows C (statementLines text) text currency existing = [])
    {line : Nat × String × TextLine} (h : line ∈ textLines (statementLines text)) :
    textRow C (dateOrderOf (statementLines text)) (ambiguousDate (statementLines text)) currency existing
      line.1 line.2.1 line.2.2 ∈ parseTextRows C text currency existing := by
  rw [parseTextRows]
  dsimp only
  rw [noCards, if_neg (by simp)]
  exact List.mem_map.mpr ⟨line, h, rfl⟩

theorem cards_only (cards : parseCreditCardRows C (statementLines text) text currency existing ≠ [])
    (h : row ∈ parseTextRows C text currency existing) :
    row ∈ parseCreditCardRows C (statementLines text) text currency existing := by
  rw [parseTextRows] at h
  dsimp only at h
  rwa [if_pos (List.length_pos_iff.mpr cards)] at h

theorem rows_flagged (dates : DatesIn order (statementLines text))
    (untold : ¬OrderTold order (statementLines text)) (h : row ∈ parseTextRows C text currency existing) :
    row ∈ parseCreditCardRows C (statementLines text) text currency existing ∨
      "ambiguous_date" ∈ row.flags ∧ row.decision = .needsReview := by
  rcases mem_parseTextRows h with card | ⟨line, stored, rfl⟩
  · exact .inl card
  · rw [ambiguousDate_of_untold dates stored untold]
    exact .inr ⟨ambiguous_flagged, ambiguous_reviewed⟩

end Carried

/-- With the month first, a line whose day could be a month passes as a row of the day and month
changed over. -/
def PassesSwapped (C : StatementContext) (text currency : String) (existing : List Transaction) : Prop :=
  ∃ line ∈ textLines (statementLines text), ∃ date, IsDate .mdy line.2.2.date date ∧
    ∃ small : date.day ≤ 12, date.day ≠ date.month ∧
      Clean C currency existing (isoText (swapped date small)) line.2.2

theorem PassesSwapped.not_carried {C : StatementContext} {text currency : String}
    {existing : List Transaction} (passes : PassesSwapped C text currency existing)
    (told : OrderTold .mdy (statementLines text))
    (noCards : parseCreditCardRows C (statementLines text) text currency existing = []) :
    ¬DatesCarried C .mdy text currency existing := by
  intro right
  obtain ⟨line, stored, date, isDate, small, differ, clean⟩ := passes
  have clear := ambiguousDate_of_told (by simp) told
  have read : parseDate line.2.2.date (dateOrderOf (statementLines text)) =
      some (isoText (swapped date small)) := by
    rw [parseDate_dmy (dateOrderOf_ne_mdy _), parseDate_swapped isDate, dif_pos small]
  have included := right.carried _ (textRow_mem noCards stored)
    (included_iff.mpr ⟨clear, _, read, clean⟩)
  rw [noCards, textRow_sourceLine, textRow_postedAt, read] at included
  obtain ⟨line', stored', same, date', isDate', posted⟩ := included.resolve_left (by simp)
  obtain rfl := textLines_unique stored' stored same
  obtain rfl := IsDate.unique isDate isDate'
  exact differ (congrArg Insights.Date.month (isoText_injective (Option.some.inj posted)))

/-- One merchant is known. -/
def coffeeStatement : StatementContext :=
  { plainStatement with options := ⟨[], [⟨"starbucks", "Starbucks", "coffee", 95 / 100⟩], none⟩ }

def twoCoffees (first second : String) : String :=
  first ++ " Starbucks -3\n" ++ second ++ " Starbucks -4"

theorem march_valid : 1 ≤ 3 ∧ 3 ≤ 12 := by decide

theorem march_days {day : Nat} (h : 1 ≤ day ∧ day ≤ 31) : 1 ≤ day ∧ day ≤ Imports.daysInMonth 2026 3 := h

theorem twentyFifth : 1 ≤ 25 ∧ 25 ≤ 31 := by decide

theorem fourth : 1 ≤ 4 ∧ 4 ≤ 31 := by decide

def march25 : Insights.Date := ⟨2026, 3, 25, march_valid, march_days twentyFifth⟩

def march4 : Insights.Date := ⟨2026, 3, 4, march_valid, march_days fourth⟩

end Finverse.Statements
