import Finverse.Framework.Writes
import Finverse.Workbook.Worksheets

/-! Where the values of the cells of a worksheet land. -/

namespace Finverse.Workbook

open Pattern
open Statements (MAX_ROWS)

/-! ### Worksheets -/

/-- A row: what its tag has after the name, and its cells if it has an end tag; the blanks before the
first cell and after the row. -/
structure SheetRow where
  tag : List Char
  lead : List Char
  cells : Option (List Cell)
  gap : List Char
  rest : TagRest tag
  blank : ∀ c ∈ lead ++ gap, isXmlBlank c = true
  ascending : (columnsFrom 0 (cells.getD [])).Pairwise (· < ·)
  within : ∀ column ∈ columnsFrom 0 (cells.getD []), column < MAX_XLSX_COLUMNS

def cellsWritten (cells : List Cell) : List Char := cells.flatMap fun cell => cell.element.written

namespace SheetRow

def content (row : SheetRow) : Option (List Char) := row.cells.map fun cells => row.lead ++ cellsWritten cells

theorem closed_cell (cell : Cell) : NoStart (closeTag rowName) cell.element.written := by
  have gap : NoStart (closeTag rowName) cell.gap := noStart_of_not_mem (noBracket_gap cell.element)
  rw [Element.written]
  refine NoStart.append ?_ gap
  cases hcontent : cell.content with
  | none =>
    have text : cell.element.text = openTag cellName (cell.tag ++ ['/']) := by
      simp [Element.text, Cell.element, hcontent]
    rw [text]
    exact noStart_closeTag cellName rowName _ cell.tagRest.slashed
  | some content =>
    have text : cell.element.text = openTag cellName cell.tag ++ (content ++ closeTag cellName) := by
      simp [Element.text, Cell.element, hcontent]
    rw [text]
    exact (noStart_closeTag cellName rowName _ cell.tagRest).append
      ((cell.closed content hcontent).2.append (noStart_of_startsIn (by decide)))

def element (row : SheetRow) : Element rowName where
  tag := row.tag
  content := row.content
  gap := row.gap
  rest := row.rest
  closed := by
    intro text stored
    obtain ⟨cells, -, rfl⟩ := Option.map_eq_some_iff.mp stored
    have lead : '<' ∉ row.lead := not_blank_bracket fun c stored => row.blank c (List.mem_append_left _ stored)
    exact (noStart_of_not_mem lead).append (noStart_flatMap fun cell _ => closed_cell cell)
  blank := fun c stored => row.blank c (List.mem_append_right _ stored)

end SheetRow

/-- A worksheet: its rows, and what stands before and after them. -/
structure Worksheet where
  opening : List Char
  rows : List SheetRow
  closing : List Char
  untagged : Untagged rowName opening
  closed : NoStart (closeTag rowName) closing
  few : (rows.filterMap SheetRow.cells).length ≤ MAX_ROWS

namespace Worksheet

def written (sheet : Worksheet) : String :=
  String.ofList (sheet.opening ++ (sheet.rows.flatMap (fun row => row.element.written) ++ sheet.closing))

/-- The cells of the rows that have an end tag. -/
def rowCells (sheet : Worksheet) : List (List Cell) := sheet.rows.filterMap SheetRow.cells

end Worksheet

/-! ### What belongs in a column, and what lands in it -/

section Landing

variable (toIndex : String → Option Nat) (shared : List String)

def Cell.value (cell : Cell) : String :=
  if cell.content.isSome then cellValue toIndex shared cell.type? (rawValue cell.inner) else ""

/-- The value of the cell in a column. -/
def valueAt (cells : List Cell) (column : Nat) : String :=
  (((columnsFrom 0 cells).zip cells).lookup column).elim "" (Cell.value toIndex shared)

def cellRuns (cells : List Cell) : List (Run Cell) := runs (fun cell => cell.element.isFilled) [] cells

/-- The column of a run: that of the first reference in it. -/
def landing (run : Run Cell) : Nat :=
  columnNumber (((run.attributes.findSome? Attribute.readReference?).or
    (firstGroup referencePattern run.last.inner)).getD [])

/-- The value of a run: that of its last cell, with the first type in the run. -/
def reading (run : Run Cell) : String :=
  cellValue toIndex shared ((run.attributes.findSome? Attribute.readType?).or
    (firstGroup typePattern run.last.inner)) (rawValue run.last.inner)

/-- Every run lands within the limit; the last one in a column reads the value that belongs there; and
a column that has a value has a run. -/
structure Sound (cells : List Cell) : Prop where
  within : ∀ run ∈ cellRuns cells, landing run < MAX_XLSX_COLUMNS
  last : ∀ before run after, cellRuns cells = before ++ run :: after →
    (∀ later ∈ after, landing later ≠ landing run) →
      reading toIndex shared run = valueAt toIndex shared cells (landing run)
  reached : ∀ column, valueAt toIndex shared cells column ≠ "" → ∃ run ∈ cellRuns cells, landing run = column

end Landing

/-! ### A row -/

section Rows

variable {toIndex : String → Option Nat} {shared : List String} {cells : List Cell}

/-- What a run writes, and where. -/
def Run.write (toIndex : String → Option Nat) (shared : List String) (run : Run Cell) : Nat × String :=
  (landing run, reading toIndex shared run)

def putAll (writes : List (Nat × String)) (row : List String) : List String :=
  writes.foldl (fun row w => putCell row w.1 w.2) row

theorem getD_putCell (cells : List String) (column : Nat) (value : String) (place : Nat) :
    (putCell cells column value).getD place "" = if place = column then value else cells.getD place "" := by
  have padded (place : Nat) :
      (cells ++ List.replicate (column - cells.length) "").getD place "" = cells.getD place "" := by
    simp only [List.getD_eq_getElem?_getD, List.getElem?_append]
    split
    · rfl
    · rename_i beyond
      rw [List.getElem?_eq_none (Nat.le_of_not_lt beyond), List.getElem?_replicate]
      split <;> rfl
  have long : column ≤ (cells ++ List.replicate (column - cells.length) "").length := by
    rw [List.length_append, List.length_replicate]
    omega
  rw [putCell]
  generalize hpad : cells ++ List.replicate (column - cells.length) "" = pad at padded long
  simp only [← padded place]
  split
  · rename_i inside
    simp only [List.getD_eq_getElem?_getD, List.getElem?_set]
    by_cases same : place = column
    · simp [same, inside]
    · simp [same, Ne.symm same]
  · rename_i outside
    have same_length : pad.length = column := by omega
    simp only [List.getD_eq_getElem?_getD, List.getElem?_append]
    by_cases same : place = column
    · simp [same, same_length]
    · by_cases before : place < pad.length
      · simp [before, same]
      · have beyond : column < place := by omega
        obtain ⟨more, hmore⟩ : ∃ more, place - column = more + 1 := ⟨place - column - 1, by omega⟩
        simp [same_length, same, Nat.not_lt.mpr beyond.le, hmore]

theorem readCell_run {run : Run Cell} (h : run ∈ cellRuns cells) (row : List String) :
    readCell toIndex shared row (Element.runText Cell.element run) =
      if MAX_XLSX_COLUMNS ≤ landing run then
        .error "The XLSX worksheet contains a column beyond Excel's XFD limit."
      else .ok (putCell row (landing run) (reading toIndex shared run)) := by
  obtain ⟨quiet, filled⟩ := mem_runs (by simp) h
  have empty : ∀ cell ∈ run.hollow, cell.content = none := by
    intro cell stored
    simpa [Element.isFilled, Cell.element] using quiet cell stored
  have reference : firstGroup referencePattern (Element.runText Cell.element run) =
      (run.attributes.findSome? Attribute.readReference?).or (firstGroup referencePattern run.last.inner) :=
    groupFrom_run (.inl rfl) reads_reference (fun _ => (⟨trivial, trivial⟩ : _ ∧ _)) run empty filled
  have type : firstGroup typePattern (Element.runText Cell.element run) =
      (run.attributes.findSome? Attribute.readType?).or (firstGroup typePattern run.last.inner) :=
    groupFrom_run (.inr rfl) reads_type (fun _ => trivial) run empty filled
  rw [readCell, reference, type, rawValue_run run empty filled]
  rfl

theorem foldlM_runs {rs : List (Run Cell)} (h : ∀ run ∈ rs, run ∈ cellRuns cells) (row : List String)
    (P : List String → Prop) :
    (∃ result, (rs.map (Element.runText Cell.element)).foldlM (readCell toIndex shared) row = .ok result ∧
      P result) ↔ (∀ run ∈ rs, landing run < MAX_XLSX_COLUMNS) ∧
        P (putAll (rs.map (Run.write toIndex shared)) row) := by
  induction rs generalizing row with
  | nil => simp [pure, Except.pure, putAll]
  | cons run rs ih =>
    rw [List.forall_mem_cons] at h
    rw [List.map_cons, List.foldlM_cons, readCell_run h.1, List.forall_mem_cons]
    by_cases beyond : MAX_XLSX_COLUMNS ≤ landing run
    · rw [if_pos beyond]
      simp [bind, Except.bind, Nat.not_lt.mpr beyond]
    · rw [if_neg beyond]
      have inside : landing run < MAX_XLSX_COLUMNS := Nat.lt_of_not_le beyond
      have rest := ih h.2 (putCell row (landing run) (reading toIndex shared run))
      simpa [bind, Except.bind, inside, Run.write, putAll] using rest

theorem getD_putAll (writes : List (Nat × String)) (column : Nat) :
    (putAll writes []).getD column "" = (lastAt writes column).getD "" :=
  read_foldl (fun cells place => cells.getD place "") putCell getD_putCell writes [] column

/-- A row is sound exactly if each column has what belongs there, once its runs have been written. -/
theorem sound_iff (cells : List Cell) : Sound toIndex shared cells ↔
    (∀ run ∈ cellRuns cells, landing run < MAX_XLSX_COLUMNS) ∧
      ∀ column, (putAll ((cellRuns cells).map (Run.write toIndex shared)) []).getD column "" =
        valueAt toIndex shared cells column := by
  constructor
  · rintro ⟨within, last, reached⟩
    refine ⟨within, fun column => ?_⟩
    rw [getD_putAll]
    cases hlast : lastAt ((cellRuns cells).map (Run.write toIndex shared)) column with
    | none =>
      rw [lastAt_eq_none] at hlast
      by_contra other
      obtain ⟨run, stored, hrun⟩ := reached column (Ne.symm other)
      exact hlast _ (List.mem_map_of_mem stored) hrun
    | some value =>
      obtain ⟨before, run, after, split, hrun, quiet⟩ := lastAt_map_eq_some.mp hlast
      obtain ⟨hland, hread⟩ := Prod.mk.inj hrun
      have belongs := last before run after split fun later stored => hland ▸ quiet later stored
      rw [hread, hland] at belongs
      exact belongs
  · rintro ⟨within, placed⟩
    refine ⟨within, ?_, ?_⟩
    · intro before run after split quiet
      have hlast : lastAt ((cellRuns cells).map (Run.write toIndex shared)) (landing run) =
          some (reading toIndex shared run) :=
        lastAt_map_eq_some.mpr ⟨before, run, after, split, rfl, quiet⟩
      rw [← placed, getD_putAll, hlast]
      rfl
    · intro column filled
      by_contra none_lands
      have hlast : lastAt ((cellRuns cells).map (Run.write toIndex shared)) column = none := by
        rw [lastAt_eq_none, List.forall_mem_map]
        exact fun run stored hrun => none_lands ⟨run, stored, hrun⟩
      rw [← placed, getD_putAll, hlast] at filled
      exact filled rfl

/-- No cell starts in the tags of rows. -/
theorem untagged_row {tag : List Char} (htag : TagRest tag) : Untagged cellName (openTag rowName tag) :=
  fun _ _ => noStart_openTag (by decide) (by decide) htag.noBracket.1

end Rows

/-! ### A worksheet -/

section Sheets

variable {toIndex : String → Option Nat} {shared : List String}

def rowRuns (sheet : Worksheet) : List (Run SheetRow) := runs (fun row => row.element.isFilled) [] sheet.rows

/-- A row is read as its cells. -/
theorem readRow_run (toIndex : String → Option Nat) (shared : List String) {rows : List SheetRow}
    {run : Run SheetRow}
    (h : run ∈ runs (fun row => row.element.isFilled) [] rows) : ∃ cells, run.last.cells = some cells ∧
      readRow toIndex shared (Element.runText SheetRow.element run) =
        ((cellRuns cells).map (Element.runText Cell.element)).foldlM (readCell toIndex shared) [] := by
  obtain ⟨quiet, filled⟩ := mem_runs (by simp) h
  obtain ⟨cells, hcells⟩ : ∃ cells, run.last.cells = some cells := by
    simpa [Element.isFilled, SheetRow.element, SheetRow.content, Option.isSome_iff_exists] using filled
  refine ⟨cells, hcells, ?_⟩
  have text : Element.runText SheetRow.element run =
      (run.hollow.flatMap (fun row => row.element.written) ++ (openTag rowName run.last.tag ++ run.last.lead)) ++
        (cells.flatMap (fun cell => cell.element.written) ++ closeTag rowName) := by
    simp [Element.runText, Element.text, SheetRow.element, SheetRow.content, hcells, cellsWritten]
  have lead : '<' ∉ run.last.lead :=
    not_blank_bracket fun c stored => run.last.blank c (List.mem_append_left _ stored)
  have before : Untagged cellName (run.hollow.flatMap fun row => row.element.written) := by
    intro c hc
    apply noStart_flatMap
    intro row stored
    have empty : row.cells = none := by
      simpa [Element.isFilled, SheetRow.element, SheetRow.content] using quiet row stored
    have row_text : row.element.written = openTag rowName (row.tag ++ ['/']) ++ row.gap := by
      simp [Element.written, Element.text, SheetRow.element, SheetRow.content, empty]
    rw [row_text]
    exact ((untagged_row row.rest.slashed).append (untagged_of_noBracket (noBracket_gap row.element))) c hc
  have opening := before.append ((untagged_row run.last.rest).append (untagged_of_noBracket lead))
  rw [readRow, text, matchAll_runs opening (noStart_of_startsIn (by decide))]
  rfl

theorem rowCells_eq (sheet : Worksheet) :
    sheet.rowCells = (rowRuns sheet).map fun run => run.last.cells.getD [] := by
  have lasts : (rowRuns sheet).map (fun run => run.last.cells.getD []) =
      (sheet.rows.filter fun row => row.element.isFilled).map fun row => row.cells.getD [] := by
    rw [← runs_last [], List.map_map]
    rfl
  rw [lasts, Worksheet.rowCells]
  induction sheet.rows with
  | nil => rfl
  | cons row rows ih =>
    have filled : row.element.isFilled = row.cells.isSome := by
      simp [Element.isFilled, SheetRow.element, SheetRow.content]
    rw [List.filterMap_cons, List.filter_cons, filled, ih]
    cases hcells : row.cells <;> simp [hcells]

theorem worksheetRows_written (sheet : Worksheet) : worksheetRows toIndex shared sheet.written =
    (rowRuns sheet).mapM fun run => readRow toIndex shared (Element.runText SheetRow.element run) := by
  have found : ((elementPattern rowName).matchAll sheet.written.toList).map Found.text =
      (rowRuns sheet).map (Element.runText SheetRow.element) := by
    rw [Worksheet.written, String.toList_ofList]
    exact matchAll_runs sheet.untagged sheet.closed
  have few : (rowRuns sheet).length ≤ MAX_ROWS := by
    have count := sheet.few
    rwa [← Worksheet.rowCells, rowCells_eq, List.length_map] at count
  rw [worksheetRows, found]
  rw [if_neg (by rw [List.length_map]; omega), List.mapM_map]
  rfl

end Sheets

def doubleQuotes : Assign := ⟨[], [], '"', by simp, .inl rfl⟩

def oneBlank : Chars isXmlBlank := ⟨[' '], by decide, List.all_eq_true.mp (by decide)⟩

def firstLine : Chars Char.isDigit := ⟨['1'], by decide, List.all_eq_true.mp (by decide)⟩

/-- An empty cell with a style in the first column, and a number in the second. -/
def styledCells : List Cell :=
  [{ attributes :=
      [⟨oneBlank, .reference ⟨['A'], by decide, List.all_eq_true.mp (by decide)⟩ firstLine, doubleQuotes⟩,
        ⟨oneBlank, .other .style ⟨['1'], by decide, List.all_eq_true.mp (by decide)⟩, doubleQuotes⟩]
     blanks := []
     content := none
     gap := []
     blank := by simp
     closed := by simp },
    { attributes := [⟨oneBlank, .reference ⟨['B'], by decide, List.all_eq_true.mp (by decide)⟩ firstLine, doubleQuotes⟩]
      blanks := []
      content := some "<v>5</v>".toList
      gap := []
      blank := by simp
      closed := by
        intro text stored
        obtain rfl := Option.mem_some_iff.mp stored
        exact ⟨noStart_of_startsIn (by decide), noStart_of_startsIn (by decide)⟩ }]

def styledSheet : Worksheet where
  opening := "<worksheet><sheetData>".toList
  rows :=
    [{ tag := " r=\"1\"".toList
       lead := []
       cells := some styledCells
       gap := []
       rest := by
         refine ⟨?_, by decide⟩
         intro c stored
         obtain rfl := Option.mem_some_iff.mp stored
         decide
       blank := by simp
       ascending := by decide
       within := by decide }]
  closing := "</sheetData></worksheet>".toList
  untagged := untagged_of_startsIn (by decide)
  closed := noStart_of_startsIn (by decide)
  few := by decide

end Finverse.Workbook
