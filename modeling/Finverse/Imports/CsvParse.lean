import Finverse.Auth.Domain

/-! CSV reading for the import review. -/

namespace Finverse.Imports

open Auth (trim)

structure ParsedCsv where
  headers : List String
  rows : List (List String)
  delimiter : Char
  raggedLines : List Nat
  deriving DecidableEq, Repr

/-- The message of a file that cannot be read. -/
structure CsvParseError where
  message : String
  deriving DecidableEq, Repr

def CANDIDATE_DELIMITERS : List Char := [',', ';', '\t', '|']

def MAX_IMPORT_ROWS : Nat := 10000

/-- The fields from here on, when `current` has been read of the first. -/
def splitFrom (delimiter : Char) : List Char → Bool → List Char → List (List Char)
  | current, _, [] => [current]
  | current, true, '"' :: '"' :: rest => splitFrom delimiter (current ++ ['"']) true rest
  | current, inQuotes, char :: rest =>
    if char = '"' then splitFrom delimiter current (!inQuotes) rest
    else if char = delimiter ∧ inQuotes = false then
      current :: splitFrom delimiter [] inQuotes rest
    else splitFrom delimiter (current ++ [char]) inQuotes rest

/-- Splits one line, honouring quotes and doubled escaped quotes. -/
def splitLine (line : List Char) (delimiter : Char) : List (List Char) :=
  splitFrom delimiter [] false line

/-- The records from here on, when `current` has been read of the first. -/
def recordsFrom : List Char → Bool → List Char → List (List Char)
  | current, _, [] => if current.length > 0 then [current] else []
  | current, true, '"' :: '"' :: rest => recordsFrom (current ++ ['"', '"']) true rest
  | current, false, '\r' :: '\n' :: rest => current :: recordsFrom [] false rest
  | current, inQuotes, char :: rest =>
    if char = '"' then recordsFrom (current ++ [char]) (!inQuotes) rest
    else if (char = '\n' ∨ char = '\r') ∧ inQuotes = false then
      current :: recordsFrom [] inQuotes rest
    else recordsFrom (current ++ [char]) inQuotes rest

/-- Splits into records; a newline inside quotes is part of the field. -/
def toRecords (text : List Char) : List (List Char) := recordsFrom [] false text

/-- `split(/\r?\n/)`, when `current` has been read of the first line. -/
def linesFrom : List Char → List Char → List (List Char)
  | current, [] => [current]
  | current, '\r' :: '\n' :: rest => current :: linesFrom [] rest
  | current, char :: rest =>
    if char = '\n' then current :: linesFrom [] rest else linesFrom (current ++ [char]) rest

attribute [grind =] splitFrom recordsFrom linesFrom

def isBlank (line : List Char) : Bool := trim (String.ofList line) == ""

/-- The score of a delimiter over some lines, when it splits the first one. -/
def delimiterScore (lines : List (List Char)) (delimiter : Char) : Option Nat :=
  let counts := lines.map fun line => (splitLine line delimiter).length
  let columns := counts.head?.getD 1
  if columns < 2 then none
  else some ((counts.filter (· == columns)).length * 100 + columns)

/-- The candidate with the highest score, the earlier one of equals. -/
def bestDelimiter (lines : List (List Char)) : List Char → Char × Option Nat → Char × Option Nat
  | [], best => best
  | delimiter :: candidates, best =>
    match delimiterScore lines delimiter with
    | some score =>
      bestDelimiter lines candidates
        (if best.2.all (decide <| · < score) then (delimiter, some score) else best)
    | none => bestDelimiter lines candidates best

def detectDelimiter (text : List Char) : Char :=
  let lines := ((linesFrom [] text).filter fun line => !isBlank line).take 10
  if lines.isEmpty then ',' else (bestDelimiter lines CANDIDATE_DELIMITERS (',', none)).1

/-- A byte order mark is no part of the first header. -/
def withoutMark : List Char → List Char
  | '\ufeff' :: text => text
  | text => text

def fieldsOf (delimiter : Char) (record : List Char) : List String :=
  (splitLine record delimiter).map fun field => trim (String.ofList field)

def parseCsv (text : String) : Except CsvParseError ParsedCsv :=
  let cleaned := withoutMark text.toList
  match (toRecords cleaned).filter fun line => !isBlank line with
  | [] => .error ⟨"The file is empty."⟩
  | first :: body =>
    let delimiter := detectDelimiter cleaned
    let headers := fieldsOf delimiter first
    if headers.length < 2 then
      .error ⟨"Could not find columns. Check that the file is a CSV exported from your bank."⟩
    else if body.length > MAX_IMPORT_ROWS then
      .error ⟨s!"That file has {body.length} rows; the limit is {MAX_IMPORT_ROWS}. " ++
        "Split it by date range."⟩
    else
      let rows := body.map (fieldsOf delimiter)
      .ok ⟨headers, rows, delimiter,
        (rows.zipIdx.filter fun row => row.1.length != headers.length).map (·.2 + 2)⟩

end Finverse.Imports
