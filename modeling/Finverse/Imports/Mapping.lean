import Finverse.Auth.Domain
import Finverse.Ledger.Types

/-! Reading dates and amounts from the columns of a bank export. -/

namespace Finverse.Imports

open Auth (trim)
open Ledger (IsoDate)

inductive AmountConvention
  | signed
  | debitCreditColumns
  | positiveWithDirection
  deriving DecidableEq, Repr

inductive DateOrder
  | dmy
  | mdy
  | ymd
  deriving DecidableEq, Repr

structure ColumnMapping where
  date : String
  description : String
  amount : Option String := none
  debit : Option String := none
  credit : Option String := none
  direction : Option String := none
  convention : AmountConvention
  dateOrder : DateOrder
  deriving DecidableEq, Repr

/-! ### Calendar days -/

def decimal (digits : List Char) : Nat := Nat.ofDigitChars 10 digits 0

/-- `padStart(width, '0')` -/
def padStart (width n : Nat) : List Char :=
  let digits := Nat.toDigits 10 n
  List.replicate (width - digits.length) '0' ++ digits

/-- `Date.UTC` takes a year below 100 for one of the twentieth century. -/
def utcYear (year : Nat) : Nat := if year < 100 then 1900 + year else year

def isLeapYear (year : Nat) : Prop := year % 4 = 0 ∧ (year % 100 ≠ 0 ∨ year % 400 = 0)

instance (year : Nat) : Decidable (isLeapYear year) := inferInstanceAs (Decidable (_ ∧ _))

def daysInMonth (year month : Nat) : Nat :=
  if month = 2 then if isLeapYear year then 29 else 28
  else if month ∈ [4, 6, 9, 11] then 30
  else 31

/-- Parts of a date as `YYYY-MM-DD`, unless the month does not have the day. -/
def build (year month day : Nat) : Option IsoDate :=
  if month < 1 ∨ 12 < month ∨ day < 1 ∨ 31 < day then none
  else if daysInMonth (utcYear year) month < day then none
  else some (String.ofList (padStart 4 year ++ '-' :: padStart 2 month ++ '-' :: padStart 2 day))

/-- Up to `most` digits, and the text after them. -/
def digitsUpTo (most : Nat) (cs : List Char) : List Char × List Char :=
  let digits := (cs.take most).takeWhile Char.isDigit
  (digits, cs.drop digits.length)

/-- Three numbers between separators: `\d{least,most}` first, then `\d{1,2}`, then
`\d{least',most'}`. -/
def threeNumbers (separators : List Char) (least most least' most' : Nat) (cs : List Char) :
    Option (Nat × Nat × Nat) :=
  let (first, rest) := digitsUpTo most cs
  let (second, rest') := digitsUpTo 2 (rest.drop 1)
  let (third, _) := digitsUpTo most' (rest'.drop 1)
  if least ≤ first.length ∧ rest.head?.any (· ∈ separators) ∧ 1 ≤ second.length ∧
      rest'.head?.any (· ∈ separators) ∧ least' ≤ third.length then
    some (decimal first, decimal second, decimal third)
  else none

/-- A two-digit year is one between 1980 and 2079. -/
def fullYear (year : Nat) : Nat :=
  if year < 100 then if year ≤ 79 then year + 2000 else year + 1900 else year

/-- To `YYYY-MM-DD`, unless the value is no date at all. -/
def parseDate (value : String) (order : DateOrder) : Option IsoDate :=
  let text := (trim value).toList
  match threeNumbers ['-', '/'] 4 4 1 2 text with
  | some (year, month, day) => build year month day
  | none =>
    match threeNumbers ['-', '/', '.'] 1 2 2 4 text with
    | some (a, b, year) =>
      if order = .mdy then build (fullYear year) a b else build (fullYear year) b a
    | none => none

/-! ### Amounts -/

/-- Where a character stands last. -/
def lastIndexOf (c : Char) (cs : List Char) : Option Nat :=
  (cs.reverse.idxOf? c).map fun index => cs.length - 1 - index

/-- The first comma becomes a point. -/
def commaToPoint : List Char → List Char
  | [] => []
  | c :: cs => if c = ',' then '.' :: cs else c :: commaToPoint cs

def isLineBreak (c : Char) : Bool := c ∈ ['\n', '\r', '\u2028', '\u2029']

/-- `/^\(.*\)$/` -/
def inParentheses (text : List Char) : Bool :=
  2 ≤ text.length && text.head? == some '(' && text.getLast? == some ')' &&
    !text.any isLineBreak

/-- The digits of an amount with a decimal point, whatever separators it is written with. -/
def withPoint (text : List Char) : List Char :=
  match lastIndexOf ',' text, lastIndexOf '.' text with
  | some lastComma, some lastDot =>
    -- Whichever separator comes last is the decimal point.
    if lastComma > lastDot then commaToPoint (text.filter (· ≠ '.')) else text.filter (· ≠ ',')
  | some lastComma, none =>
    -- `1,234` is thousands; `1,23` is a decimal comma.
    if text.length - lastComma - 1 = 3 then text.filter (· ≠ ',') else commaToPoint text
  | none, _ => text

/-- A money string as signed minor units. `numberToMinor` is what the floating-point arithmetic of
the runtime makes of a decimal number in a currency; it has no answer for text that is no finite
number. -/
def parseAmount (numberToMinor : String → String → Option Int) (value currency : String) :
    Option Int :=
  let text := (trim value).toList
  let accounting := inParentheses text
  let text := if accounting then (text.drop 1).dropLast else text
  let text := text.filter fun c => c.isDigit || c ∈ ['.', ',', '-', '+']
  let negative := accounting != (text.head? == some '-')
  let text := if text.head?.any (· ∈ ['-', '+']) then text.drop 1 else text
  if text = [] then none
  else (numberToMinor (String.ofList (withPoint text)) currency).map fun minor =>
    if negative then -minor else minor

end Finverse.Imports
