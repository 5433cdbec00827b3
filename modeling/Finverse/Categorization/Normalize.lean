import Finverse.Auth.Domain

/-! What is left of a bank descriptor once it is reduced to something stable. -/

namespace Finverse.Categorization

open Auth (isJsSpace)

/-- Payment-processor and channel prefixes that carry no merchant information. -/
def PREFIXES : List String :=
  ["sq *", "sq*", "tst*", "tst *", "paypal *", "pp*", "pp *", "sp *", "sp*", "pos debit",
    "pos purchase", "debit card purchase", "card purchase", "recurring payment",
    "preauthorized debit", "point of sale", "purchase authorized on", "checkcard",
    "visa purchase", "ach debit", "ach credit", "direct debit", "web payment"]

/-- The codes of US states and Canadian provinces. -/
def REGIONS : List String :=
  ["al", "ak", "az", "ar", "ca", "co", "ct", "de", "fl", "ga", "hi", "id", "il", "in", "ia", "ks",
    "ky", "la", "me", "md", "ma", "mi", "mn", "ms", "mo", "mt", "ne", "nv", "nh", "nj", "nm", "ny",
    "nc", "nd", "oh", "ok", "or", "pa", "ri", "sc", "sd", "tn", "tx", "ut", "vt", "va", "wa", "wv",
    "wi", "wy", "ab", "bc", "mb", "nb", "nl", "ns", "on", "pe", "qc", "sk"]

/-! ### Patterns

A pattern gives the length of its match at some place, or 0, from the character before the place
and the characters after it. -/

/-- Replaces every match by a blank. The second number counts what is left of a match. -/
def blankMatches (pattern : Option Char → List Char → Nat) :
    Option Char → Nat → List Char → List Char
  | _, _, [] => []
  | _, rest + 1, c :: cs => blankMatches pattern (some c) rest cs
  | before, 0, c :: cs =>
    match pattern before (c :: cs) with
    | 0 => c :: blankMatches pattern (some c) 0 cs
    | rest + 1 => ' ' :: blankMatches pattern (some c) rest cs

def blanked (pattern : Option Char → List Char → Nat) (cs : List Char) : List Char :=
  blankMatches pattern none 0 cs

def isWord (c : Char) : Bool := c.isAlphanum || c == '_'

/-- How many characters of a class come next. -/
def run (inClass : Char → Bool) (cs : List Char) : Nat := (cs.takeWhile inClass).length

/-- After `n` characters, of which the last is a digit, a word ends. -/
def wordEnds (cs : List Char) (n : Nat) : Bool := !(cs.drop n).head?.any isWord

/-- `[x#*]{2,}\d+` -/
def cardTail (_ : Option Char) (cs : List Char) : Nat :=
  let marks := run (fun c => c ∈ ['x', '#', '*']) cs
  let digits := run Char.isDigit (cs.drop marks)
  if 2 ≤ marks ∧ 1 ≤ digits then marks + digits else 0

/-- `\b\d{1,2}\/\d{1,2}(?:\/\d{2,4})?\b` -/
def slashDate (before : Option Char) (cs : List Char) : Nat :=
  let first := run Char.isDigit cs
  let second := run Char.isDigit (cs.drop (first + 1))
  let short := first + 1 + second
  let third := run Char.isDigit (cs.drop (short + 1))
  let long := short + 1 + third
  if before.any isWord ∨ ¬(1 ≤ first ∧ first ≤ 2) ∨ cs[first]? ≠ some '/' ∨
      ¬(1 ≤ second ∧ second ≤ 2) then 0
  else if cs[short]? = some '/' ∧ 2 ≤ third ∧ third ≤ 4 ∧ wordEnds cs long then long
  else if wordEnds cs short then short
  else 0

/-- `\b\d{4}-\d{2}-\d{2}\b` -/
def isoDate (before : Option Char) (cs : List Char) : Nat :=
  if before.any isWord ∨ run Char.isDigit cs ≠ 4 ∨ cs[4]? ≠ some '-' ∨
      run Char.isDigit (cs.drop 5) ≠ 2 ∨ cs[7]? ≠ some '-' ∨
      run Char.isDigit (cs.drop 8) ≠ 2 ∨ ¬wordEnds cs 10 then 0
  else 10

/-- `\b\d{2,}\b` -/
def storeNumber (before : Option Char) (cs : List Char) : Nat :=
  let digits := run Char.isDigit cs
  if before.any isWord ∨ digits < 2 ∨ ¬wordEnds cs digits then 0 else digits

/-- Any number of characters of a class. -/
def anyOf (inClass : Char → Bool) (_ : Option Char) (cs : List Char) : Nat := run inClass cs

/-! ### The reduction -/

def trimmed (cs : List Char) : List Char :=
  ((cs.dropWhile isJsSpace).reverse.dropWhile isJsSpace).reverse

/-- Only one prefix is stripped. -/
def withoutPrefix (cs : List Char) : List Char :=
  match PREFIXES.find? fun p => p.toList.isPrefixOf cs with
  | some p => trimmed (cs.drop p.toList.length)
  | none => cs

/-- What comes after a star is a reference, unless there is nothing before it. -/
def withoutReference (cs : List Char) : List Char :=
  match cs.idxOf? '*' with
  | some (star + 1) => trimmed (cs.take (star + 1))
  | _ => cs

/-- A region at the end, and the blanks before it, are dropped. -/
def withoutRegion (cs : List Char) : List Char :=
  let tail := cs.reverse
  let body := tail.drop 2
  if (tail.take 2).reverse ∈ REGIONS.map String.toList ∧ body.head?.any isJsSpace then
    (body.dropWhile isJsSpace).reverse
  else cs

def normalizeChars (cs : List Char) : List Char :=
  let cs := withoutReference (withoutPrefix (trimmed cs))
  let cs := blanked isoDate (blanked slashDate (blanked cardTail cs))
  let cs := blanked (anyOf fun c => c ∈ ['#', '*', '_', '|', '\\', '/']) cs
  let cs := blanked (anyOf fun c => c ∈ ['.', ',', ';', ':']) cs
  let cs := trimmed (blanked (anyOf isJsSpace) cs)
  let cs := trimmed (blanked (anyOf isJsSpace) (blanked storeNumber cs))
  trimmed (withoutRegion cs)

def normalizeDescriptor (toLowerCase : String → String) (raw : String) : String :=
  String.ofList (normalizeChars (toLowerCase raw).toList)

end Finverse.Categorization
