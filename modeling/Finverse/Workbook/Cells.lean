import Finverse.Workbook.Elements
import Finverse.Workbook.Xml

/-! The cells of a worksheet, read from its text and placed by their references. -/

namespace Finverse.Workbook

open Pattern
open Statements (MAX_ROWS)
open Statements.Text (TextPattern boundary exactly)

def MAX_XLSX_COLUMNS : Nat := 16384

def rowName : TagName := ⟨['r', 'o', 'w'], by decide, List.all_eq_true.mp (by decide)⟩

def cellName : TagName := ⟨['c'], by decide, List.all_eq_true.mp (by decide)⟩

/-- `\bletter="value"` -/
def attributePattern (letter : Char) (value : TextPattern) : TextPattern :=
  Pattern.all [boundary, literal (· == ·) [letter, '=', '"'], value, literal (· == ·) ['"']]

/-- `\br="([A-Z]+)\d+"` -/
def referencePattern : TextPattern :=
  attributePattern 'r' (.seq (group 1 (many Char.isUpper 1 none)) (many Char.isDigit 1 none))

/-- `\bt="([^" ]+)"` -/
def typePattern : TextPattern :=
  attributePattern 't' (group 1 (many (fun c => c ≠ '"' && c ≠ ' ') 1 none))

/-- `<v>([\s\S]*?)</v>` -/
def valuePattern : TextPattern := Pattern.all [exactly "<v>", group 1 (few (fun _ => true) 0), exactly "</v>"]

/-- `<t>([\s\S]*?)</t>` -/
def textPattern : TextPattern := Pattern.all [exactly "<t>", group 1 (few (fun _ => true) 0), exactly "</t>"]

/-- What the first group holds after the first match from here on. -/
def groupFrom (r : TextPattern) (before text : List Char) : Option (List Char) :=
  (r.execFrom before text).bind (·.group? 1)

def firstGroup (r : TextPattern) (text : List Char) : Option (List Char) := groupFrom r [] text

def columnNumber (letters : List Char) : Nat :=
  let result := letters.foldl (fun (result : Int) (char : Char) => result * 26 + char.toNat - 64) 0
  (max 0 (result - 1)).toNat

/-- Empty cells up to the column, and the value in it. -/
def putCell (cells : List String) (column : Nat) (value : String) : List String :=
  let padded := cells ++ List.replicate (column - cells.length) ""
  if column < padded.length then padded.set column value else padded ++ [value]

/-- The text that stands for the value of a cell. -/
def rawValue (xml : List Char) : List Char :=
  ((firstGroup valuePattern xml).or (firstGroup textPattern xml)).getD []

section Reading

-- `toIndex` is the place in an array that the number in a text names, if it names one.
variable (toIndex : String → Option Nat) (shared : List String)

def cellValue (type : Option (List Char)) (raw : List Char) : String :=
  let value := String.ofList (decodeXml raw)
  if type = some ['s'] then ((toIndex value).bind (shared[·]?)).getD "" else value

def readCell (cells : List String) (cellXml : List Char) : Except String (List String) :=
  let column := columnNumber ((firstGroup referencePattern cellXml).getD [])
  if MAX_XLSX_COLUMNS ≤ column then
    .error "The XLSX worksheet contains a column beyond Excel's XFD limit."
  else .ok (putCell cells column (cellValue toIndex shared (firstGroup typePattern cellXml) (rawValue cellXml)))

def readRow (rowXml : List Char) : Except String (List String) :=
  (((elementPattern cellName).matchAll rowXml).map Found.text).foldlM (readCell toIndex shared) []

/-- The rows of cells, before their dates are written out and they are joined to lines. -/
def worksheetRows (xml : String) : Except String (List (List String)) :=
  let rowMatches := ((elementPattern rowName).matchAll xml.toList).map Found.text
  if MAX_ROWS < rowMatches.length then
    .error s!"An XLSX worksheet may contain at most {MAX_ROWS} rows."
  else rowMatches.mapM (readRow toIndex shared)

end Reading

end Finverse.Workbook
