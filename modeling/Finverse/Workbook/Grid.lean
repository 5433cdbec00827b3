import Finverse.Imports.CsvRecords
import Finverse.Statements.Drafts

/-! The grid of a worksheet as CSV text, and what is read back of it. -/

namespace Finverse.Workbook

open Auth (trim)
open Imports
open Statements (MAX_ROWS)

def csvEscape (value : String) : List Char :=
  if value.toList.any (· ∈ ['"', ',', '\n']) then enclosed value else value.toList

def gridLine (row : List String) : List Char := [','].intercalate (row.map csvEscape)

def gridToCsv (rows : List (List String)) : String :=
  String.ofList (['\n'].intercalate (rows.map gridLine))

/-! ### Lines -/

section Lines

variable {value : String} {row : List String} {rest x y s : List Char} {current : List Char}

/-- What comes on a line after its first cell. -/
def rowTail : List String → List Char
  | [] => []
  | value :: row => ',' :: gridLine (value :: row)

theorem gridLine_cons (value : String) (row : List String) :
    gridLine (value :: row) = csvEscape value ++ rowTail row := by
  cases row with
  | nil => simp [gridLine, rowTail, List.intercalate]
  | cons next row => simp [gridLine, rowTail, List.intercalate]

/-- A cell is in quotes, or has nothing in it that would need them. -/
theorem csvEscape_cases (value : String) :
    csvEscape value = enclosed value ∨
      csvEscape value = value.toList ∧ '"' ∉ value.toList ∧ ',' ∉ value.toList ∧ '\n' ∉ value.toList := by
  rw [csvEscape]
  split
  · exact .inl rfl
  · rename_i plain
    simp only [List.any_eq_true, decide_eq_true_eq, not_exists, not_and] at plain
    refine .inr ⟨rfl, ?_, ?_, ?_⟩ <;> intro stored <;> exact plain _ stored (by simp)

theorem unquoted_rowTail (row : List String) : Unquoted (rowTail row) := by
  cases row <;> simp [Unquoted, rowTail]

theorem inside_enclosed (value : String) : inside false (enclosed value) = false := by
  have doubled_inside (s : List Char) (inQuotes : Bool) : inside inQuotes (doubled s) = inQuotes := by
    induction s with
    | nil => rfl
    | cons c s ih =>
      by_cases hc : c = '"'
      · subst hc
        simpa [doubled, inside] using ih
      · simpa [doubled, inside, hc] using ih
  simp [enclosed, inside, inside_append, doubled_inside]

theorem inside_csvEscape (value : String) : inside false (csvEscape value) = false := by
  rcases csvEscape_cases value with escaped | ⟨plain, quotes, -⟩
  · rw [escaped, inside_enclosed]
  · rw [plain, inside_unquoted quotes]

/-- The quotes of a line are closed at its end. -/
theorem inside_gridLine (row : List String) : inside false (gridLine row) = false := by
  induction row with
  | nil => rfl
  | cons value row ih =>
    rw [gridLine_cons, inside_append, inside_csvEscape]
    cases row with
    | nil => rfl
    | cons next row => exact ih

theorem hidden_csvEscape_newline (value : String) : Hidden '\n' false (csvEscape value) := by
  rcases csvEscape_cases value with escaped | ⟨plain, -, -, newlines⟩
  · have whole : Hidden '\n' false (enclosed value ++ []) := hidden_enclosed value trivial
    rw [List.append_nil] at whole
    rwa [escaped]
  · rw [plain]
    exact hidden_of_not_mem newlines

/-- Line feeds are inside quotes only. -/
theorem hidden_gridLine (row : List String) : Hidden '\n' false (gridLine row) := by
  induction row with
  | nil => trivial
  | cons value row ih =>
    rw [gridLine_cons, hidden_append, inside_csvEscape]
    refine ⟨hidden_csvEscape_newline value, ?_⟩
    cases row with
    | nil => trivial
    | cons next row => simpa [rowTail, Hidden] using ih

theorem splitFrom_plain (quotes : '"' ∉ s) (commas : ',' ∉ s) :
    splitFrom ',' current false (s ++ rest) = splitFrom ',' (current ++ s) false rest := by
  induction s generalizing current with
  | nil => simp
  | cons c s ih =>
    rw [List.mem_cons, not_or] at quotes commas
    rw [List.cons_append, splitFrom, if_neg (Ne.symm quotes.1), if_neg (by simp [Ne.symm commas.1]),
      ih quotes.2 commas.2]
    · simp
    · intro _ _ same
      exact absurd same.symm quotes.1

theorem splitFrom_csvEscape (unquoted : Unquoted rest) :
    splitFrom ',' [] false (csvEscape value ++ rest) = splitFrom ',' value.toList false rest := by
  rcases csvEscape_cases value with escaped | ⟨plain, quotes, commas, -⟩
  · rw [escaped, splitFrom_enclosed value unquoted]
  · rw [plain, splitFrom_plain quotes commas, List.nil_append]

/-- A line is split into the cells that were written. -/
theorem splitLine_gridLine (h : row ≠ []) : splitLine (gridLine row) ',' = row.map String.toList := by
  induction row with
  | nil => exact absurd rfl h
  | cons value row ih =>
    rw [splitLine, gridLine_cons, splitFrom_csvEscape (unquoted_rowTail row)]
    cases row with
    | nil => simp [rowTail, splitFrom]
    | cons next row =>
      rw [rowTail, splitFrom_delimiter (by decide), List.map_cons]
      exact congrArg (value.toList :: ·) (ih (by simp))

theorem fieldsOf_gridLine (h : row ≠ []) : fieldsOf ',' (gridLine row) = row.map trim := by
  rw [fieldsOf, splitLine_gridLine h, List.map_map]
  refine List.map_congr_left fun value _ => ?_
  simp

theorem one_le_load_comma (s : List Char) : 1 ≤ load false (',' :: s) := by
  rw [load, if_neg (by decide), if_neg (by decide)]
  · omega
  · simp

theorem one_le_load (quotes : '"' ∉ s) (seen : ¬Blank s) : 1 ≤ load false s := by
  rw [load_unquoted quotes]
  exact Nat.pos_of_ne_zero fun none_seen => seen (visible_eq_zero_iff.mp none_seen)

/-- Quotes of a cell stand next to a comma or an end of the line, and so not alone beside a cut. -/
theorem loaded_gridLine (row : List String) : Loaded (gridLine row) := by
  induction row with
  | nil => simp [Loaded, gridLine, List.intercalate]
  | cons value row ih =>
    intro x y same closed
    rw [gridLine_cons] at same
    rcases List.append_eq_append_iff.mp same with ⟨more, rfl, rest⟩ | ⟨more, cell, rest⟩
    · -- The cut is after the first cell.
      cases row with
      | nil => simp [rowTail] at rest
      | cons next row =>
        cases more with
        | nil =>
          rw [rowTail, List.nil_append] at rest
          exact absurd (List.cons.inj rest).1 (by decide)
        | cons c more =>
          obtain ⟨rfl, following⟩ : ',' = c ∧ gridLine (next :: row) = more ++ '\r' :: y :=
            List.cons.inj rest
          rw [inside_append, inside_csvEscape] at closed
          obtain ⟨-, after⟩ := ih more y following closed
          refine ⟨fun _ => ?_, after⟩
          rw [load_append (by simp [Unquoted]), inside_csvEscape]
          have comma := one_le_load_comma more
          omega
    · cases more with
      | nil => cases row <;> simp [rowTail] at rest
      | cons c more =>
        obtain ⟨rfl, rfl⟩ : '\r' = c ∧ y = more ++ rowTail row := List.cons.inj rest
        rcases csvEscape_cases value with escaped | ⟨plain, quotes, -⟩
        · have whole : Hidden '\r' false (enclosed value ++ []) := hidden_enclosed value trivial
          rw [List.append_nil, ← escaped, cell, hidden_append, closed] at whole
          simp [Hidden] at whole
        · rw [← plain, cell, List.mem_append, not_or, List.mem_cons, not_or] at quotes
          refine ⟨fun seen => one_le_load quotes.1 seen, fun seen => ?_⟩
          cases row with
          | nil =>
            rw [rowTail, List.append_nil] at seen ⊢
            exact one_le_load quotes.2.2 seen
          | cons next row =>
            rw [rowTail, load_append (by simp [Unquoted]), inside_unquoted quotes.2.2]
            have comma := one_le_load_comma (gridLine (next :: row))
            omega

end Lines

/-! ### Rows -/

section Rows

variable {row : List String} {rows : List (List String)}

/-- The row can be read back: there is something on its line, and no carriage return outside quotes
with something on both sides. -/
def Survives (row : List String) : Prop := ¬Imports.Blank (gridLine row) ∧ ¬Torn (gridLine row)

/-- The rows that are read from a line. -/
def lineFields (row : List String) : List (List String) := (shownRecords (gridLine row)).map (fieldsOf ',')

theorem gridLine_ne_nil (seen : ¬Imports.Blank (gridLine row)) : row ≠ [] := by
  rintro rfl
  exact seen (by simp [Imports.Blank, gridLine, List.intercalate])

theorem weight_gridLine (h : row ≠ []) : weight (row.map trim) = load false (gridLine row) + 1 := by
  rw [← fieldsOf_gridLine h, weight_fieldsOf]

theorem lineFields_blank (blank : Imports.Blank (gridLine row)) :
    lineFields row = [] ∧ weight (row.map trim) ≤ 1 := by
  refine ⟨by rw [lineFields, shownRecords_blank (hidden_gridLine row) blank]; rfl, ?_⟩
  by_cases empty : row = []
  · subst empty
    simp [weight]
  · rw [weight_gridLine empty, load_blank blank]

theorem lineFields_survives (h : Survives row) : lineFields row = [row.map trim] := by
  obtain ⟨record, hrecord, fields⟩ := shownRecords_whole (hidden_gridLine row) h.1 h.2
  rw [lineFields, hrecord, List.map_singleton, fields, fieldsOf_gridLine (gridLine_ne_nil h.1)]

theorem lineFields_torn (torn : Torn (gridLine row)) :
    ∃ first more, lineFields row = first :: more ∧ 2 ≤ weight first ∧ first ≠ row.map trim := by
  obtain ⟨record, records, hrecords, least, most⟩ :=
    shownRecords_torn (hidden_gridLine row) (loaded_gridLine row) torn
  refine ⟨fieldsOf ',' record, records.map (fieldsOf ','), ?_, ?_, ?_⟩
  · rw [lineFields, hrecords, List.map_cons]
  · rw [weight_fieldsOf]
    omega
  · have seen : ¬Imports.Blank (gridLine row) := by
      intro blank
      rw [load_blank blank] at most
      omega
    intro same
    have heavy := congrArg weight same
    rw [weight_fieldsOf, weight_gridLine (gridLine_ne_nil seen)] at heavy
    omega

/-- What is left over from blank rows is never made up for by later ones. -/
theorem no_shift {pending : List (List String)} (nonempty : pending ≠ [])
    (light : ∀ fields ∈ pending, weight fields ≤ 1) :
    rows.flatMap lineFields ≠ pending ++ rows.map (·.map trim) := by
  induction rows generalizing pending with
  | nil => simpa using nonempty.symm
  | cons row rows ih =>
    obtain ⟨first, more, rfl⟩ := List.exists_cons_of_ne_nil nonempty
    have more_light : ∀ fields ∈ more, weight fields ≤ 1 := fun fields h => light fields (by simp [h])
    have later (row_light : weight (row.map trim) ≤ 1) :
        ∀ fields ∈ more ++ [row.map trim], weight fields ≤ 1 := by
      intro fields h
      rcases List.mem_append.mp h with h | h
      · exact more_light fields h
      · rwa [List.mem_singleton.mp h]
    rw [List.flatMap_cons, List.map_cons]
    intro same
    by_cases blank : Imports.Blank (gridLine row)
    · obtain ⟨nothing, row_light⟩ := lineFields_blank blank
      rw [nothing, List.nil_append] at same
      refine ih (show first :: more ++ [row.map trim] ≠ [] by simp) ?_ (by simpa using same)
      intro fields h
      rw [List.cons_append, List.mem_cons] at h
      rcases h with rfl | h
      · exact light fields (by simp)
      · exact later row_light fields h
    · by_cases torn : Torn (gridLine row)
      · obtain ⟨first', more', hfields, heavy, -⟩ := lineFields_torn torn
        rw [hfields, List.cons_append, List.cons_append] at same
        obtain ⟨rfl, -⟩ := List.cons.inj same
        have := light first' (by simp)
        omega
      · rw [lineFields_survives ⟨blank, torn⟩, List.singleton_append, List.cons_append] at same
        obtain ⟨rfl, same⟩ := List.cons.inj same
        exact ih (show more ++ [row.map trim] ≠ [] by simp) (later (light _ (by simp)))
          (by simpa using same)

/-- The rows come back exactly if each of them does. -/
theorem flatMap_lineFields_iff :
    rows.flatMap lineFields = rows.map (·.map trim) ↔ ∀ row ∈ rows, Survives row := by
  induction rows with
  | nil => simp
  | cons row rows ih =>
    rw [List.forall_mem_cons, List.flatMap_cons, List.map_cons]
    by_cases blank : Imports.Blank (gridLine row)
    · obtain ⟨nothing, row_light⟩ := lineFields_blank blank
      rw [nothing, List.nil_append]
      refine iff_of_false ?_ fun h => h.1.1 blank
      exact no_shift (show [row.map trim] ≠ [] by simp) (by simpa using row_light)
    · by_cases torn : Torn (gridLine row)
      · obtain ⟨first, more, hfields, -, differ⟩ := lineFields_torn torn
        refine iff_of_false ?_ fun h => h.1.2 torn
        rw [hfields, List.cons_append]
        exact fun same => differ (List.cons.inj same).1
      · have survives : Survives row := ⟨blank, torn⟩
        rw [lineFields_survives survives, List.singleton_append, List.cons.injEq, ih]
        simp [survives]

end Rows

/-! ### The whole text -/

section Whole

variable {rows : List (List String)} {headers : List String} {text : String}

/-- The first lines, on which the delimiters compete. -/
def firstLines (text : List Char) : List (List Char) :=
  ((linesFrom [] text).filter fun line => !isBlank line).take 10

/-- No other delimiter splits the first lines into more or steadier columns than the comma. -/
def CommaLeads (lines : List (List Char)) : Prop :=
  ∀ delimiter ∈ CANDIDATE_DELIMITERS, ∀ score, delimiterScore lines delimiter = some score →
    ∃ best, delimiterScore lines ',' = some best ∧ score ≤ best

/-- A delimiter that is no longer the first is left for a better one only. -/
theorem bestDelimiter_eq_iff {lines : List (List Char)} {candidates : List Char} {score : Option Nat}
    (others : ',' ∉ candidates) :
    (bestDelimiter lines candidates (',', score)).1 = ',' ↔ ∀ delimiter ∈ candidates, ∀ s,
      delimiterScore lines delimiter = some s → ∃ best, score = some best ∧ s ≤ best := by
  have lost {candidates : List Char} (others : ',' ∉ candidates) (c : Char) (hc : c ≠ ',')
      (score : Option Nat) : (bestDelimiter lines candidates (c, score)).1 ≠ ',' := by
    induction candidates generalizing c score with
    | nil => exact hc
    | cons delimiter candidates ih =>
      rw [List.mem_cons, not_or] at others
      rw [bestDelimiter]
      split
      · split
        · exact ih others.2 delimiter (Ne.symm others.1) _
        · exact ih others.2 c hc _
      · exact ih others.2 c hc _
  induction candidates with
  | nil => simp [bestDelimiter]
  | cons delimiter candidates ih =>
    rw [List.mem_cons, not_or] at others
    rw [bestDelimiter, List.forall_mem_cons]
    cases hscore : delimiterScore lines delimiter with
    | none => simpa using ih others.2
    | some s =>
      dsimp only
      split
      · rename_i better
        refine iff_of_false (lost others.2 delimiter (Ne.symm others.1) _) ?_
        rintro ⟨first, -⟩
        obtain ⟨best, rfl, least⟩ := first s rfl
        simp only [Option.all_some, decide_eq_true_eq] at better
        omega
      · rename_i held
        refine (ih others.2).trans (and_iff_right ?_).symm
        rintro _ ⟨⟩
        cases score with
        | none => simp at held
        | some best => exact ⟨best, rfl, by simpa using held⟩

theorem detectDelimiter_comma_iff (text : List Char) :
    detectDelimiter text = ',' ↔ CommaLeads (firstLines text) := by
  rw [detectDelimiter, ← firstLines]
  split
  · rename_i empty
    have none_scored (delimiter : Char) : delimiterScore (firstLines text) delimiter = none := by
      rw [List.isEmpty_iff.mp empty]
      rfl
    simp [CommaLeads, none_scored]
  · have step : bestDelimiter (firstLines text) CANDIDATE_DELIMITERS (',', none) =
        bestDelimiter (firstLines text) [';', '\t', '|'] (',', delimiterScore (firstLines text) ',') := by
      rw [CANDIDATE_DELIMITERS, bestDelimiter]
      cases delimiterScore (firstLines text) ',' <;> rfl
    rw [step, bestDelimiter_eq_iff (by decide), CommaLeads, CANDIDATE_DELIMITERS,
      List.forall_mem_cons (a := ',')]
    refine (and_iff_right ?_).symm
    intro score hscore
    exact ⟨score, hscore, le_refl score⟩

/-- What it takes for a text to be read with the comma. -/
theorem parseCsv_comma_iff : (∃ ragged, parseCsv text = .ok ⟨headers, rows, ',', ragged⟩) ↔
    detectDelimiter (withoutMark text.toList) = ',' ∧
      shownFields (toRecords (withoutMark text.toList)) = headers :: rows ∧
      2 ≤ headers.length ∧ rows.length ≤ MAX_IMPORT_ROWS := by
  rw [parseCsv, shownFields, shown]
  dsimp only
  cases (toRecords (withoutMark text.toList)).filter fun line => !isBlank line with
  | nil => simp
  | cons first body =>
    dsimp only
    rw [List.map_cons, List.cons.injEq]
    constructor
    · rintro ⟨ragged, h⟩
      split at h
      · cases h
      · split at h
        · cases h
        · rename_i columns few
          obtain ⟨hheaders, hrows, comma, -⟩ := ParsedCsv.mk.inj (Except.ok.inj h)
          rw [comma] at hheaders hrows columns
          refine ⟨comma, ⟨hheaders, hrows⟩, ?_, ?_⟩
          · rw [← hheaders]
            omega
          · rw [← hrows, List.length_map]
            omega
    · rintro ⟨comma, ⟨rfl, rfl⟩, columns, few⟩
      rw [List.length_map] at few
      rw [comma, if_neg (by omega), if_neg (by omega)]
      exact ⟨_, rfl⟩

/-- The records of a grid are those of its lines. -/
theorem shownFields_gridToCsv (row : List String) (rows : List (List String)) :
    shownFields (toRecords (gridToCsv (row :: rows)).toList) = (row :: rows).flatMap lineFields := by
  rw [gridToCsv, String.toList_ofList]
  induction rows generalizing row with
  | nil => simp [List.intercalate, shownFields, lineFields, shownRecords]
  | cons next rows ih =>
    have split : ['\n'].intercalate ((row :: next :: rows).map gridLine) =
        gridLine row ++ '\n' :: ['\n'].intercalate ((next :: rows).map gridLine) := by
      simp [List.intercalate]
    have lines : shownRecords (gridLine row ++ '\n' :: ['\n'].intercalate ((next :: rows).map gridLine)) =
        shownRecords (gridLine row) ++ shownRecords (['\n'].intercalate ((next :: rows).map gridLine)) :=
      shownRecords_line (hidden_gridLine row) (inside_gridLine row)
    rw [split, List.flatMap_cons, ← ih next]
    exact (congrArg (List.map (fieldsOf ',')) lines).trans List.map_append

end Whole

/-- A grid whose header has two columns comes back cell for cell, up to blanks around each, exactly if
the comma leads on the first lines of its text and every row survives by itself. -/
theorem gridToCsv_iff (header : List String) (rows : List (List String)) (columns : 2 ≤ header.length)
    (few : (header :: rows).length ≤ MAX_ROWS) :
    (∃ ragged, parseCsv (gridToCsv (header :: rows)) =
      .ok ⟨header.map trim, rows.map (·.map trim), ',', ragged⟩) ↔
    CommaLeads (firstLines (withoutMark (gridToCsv (header :: rows)).toList)) ∧
      ∀ row ∈ header :: rows, Survives row := by
  have columns' : 2 ≤ (header.map trim).length := by rwa [List.length_map]
  have few' : (rows.map (·.map trim)).length ≤ MAX_IMPORT_ROWS := by
    rw [List.length_map]
    exact (Nat.le_succ _).trans few
  rw [parseCsv_comma_iff, detectDelimiter_comma_iff, withoutMark_fields, shownFields_gridToCsv,
    ← flatMap_lineFields_iff, List.map_cons]
  exact and_congr_right fun _ => and_iff_left ⟨columns', few'⟩

/-- Short rows, and cells that need quotes. -/
theorem gridToCsv_iff_short :
    2 ≤ ["Date", "Memo"].length ∧
      (["Date", "Memo"] :: [["2026-05-01", " a \"b\",\nc"], ["total"]]).length ≤ MAX_ROWS ∧
      ∀ row ∈ ["Date", "Memo"] :: [["2026-05-01", " a \"b\",\nc"], ["total"]], Survives row := by
  have read : parseCsv (gridToCsv (["Date", "Memo"] :: [["2026-05-01", " a \"b\",\nc"], ["total"]])) =
      .ok ⟨["Date", "Memo"].map trim, [["2026-05-01", " a \"b\",\nc"], ["total"]].map (·.map trim), ',',
        [3]⟩ := by
    decide +kernel
  exact ⟨by decide, by decide, ((gridToCsv_iff _ _ (by decide) (by decide)).mp ⟨_, read⟩).2⟩

/-- A carriage return in a cell breaks its row in two. -/
theorem gridToCsv_return :
    parseCsv (gridToCsv [["Date", "Memo"], ["2026-05-01", "a\rb"]]) =
        .ok ⟨["Date", "Memo"], [["2026-05-01", "a"], ["b"]], ',', [3]⟩ ∧
      ¬∃ ragged, parseCsv (gridToCsv [["Date", "Memo"], ["2026-05-01", "a\rb"]]) =
        .ok ⟨["Date", "Memo"].map trim, [["2026-05-01", "a\rb"].map trim], ',', ragged⟩ := by
  have read : parseCsv (gridToCsv [["Date", "Memo"], ["2026-05-01", "a\rb"]]) =
      .ok ⟨["Date", "Memo"], [["2026-05-01", "a"], ["b"]], ',', [3]⟩ := by
    decide +kernel
  refine ⟨read, ?_⟩
  rintro ⟨ragged, h⟩
  rw [read] at h
  simp at h

end Finverse.Workbook
