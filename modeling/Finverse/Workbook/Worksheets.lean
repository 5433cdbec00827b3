import Finverse.Workbook.Cells

/-! Well-formed rows of a worksheet, and what the reader finds in their texts. -/

namespace Finverse.Workbook

open Categorization (isWord)
open Pattern
open Statements.Text (TextPattern boundary exactly)

/-! ### Attributes -/

/-- At least one character, all of one kind. -/
structure Chars (kind : Char → Bool) where
  text : List Char
  nonempty : text ≠ []
  all : ∀ c ∈ text, kind c = true

/-- The sign between a name and its value, and the quote that the value stands in. -/
structure Assign where
  before : List Char
  after : List Char
  quote : Char
  blank : ∀ c ∈ before ++ after, isXmlBlank c = true
  quotes : quote = '"' ∨ quote = '\''

namespace Assign

def written (assign : Assign) : List Char := assign.before ++ '=' :: (assign.after ++ [assign.quote])

/-- Without blanks, and with the double quote. -/
def Plain (assign : Assign) : Prop := assign.before = [] ∧ assign.after = [] ∧ assign.quote = '"'

instance (assign : Assign) : Decidable assign.Plain :=
  inferInstanceAs (Decidable (_ ∧ _ ∧ _))

end Assign

/-- The attributes that no code here reads. -/
inductive OtherName
  | style
  | cellMetadata
  | valueMetadata
  | phonetic

def OtherName.text : OtherName → List Char
  | style => ['s']
  | cellMetadata => ['c', 'm']
  | valueMetadata => ['v', 'm']
  | phonetic => ['p', 'h']

inductive Setting
  | reference (letters : Chars Char.isUpper) (digits : Chars Char.isDigit)
  | type (name : Chars Char.isAlphanum)
  | other (name : OtherName) (value : Chars Char.isAlphanum)

namespace Setting

def name : Setting → List Char
  | reference .. => ['r']
  | type _ => ['t']
  | other name _ => name.text

def value : Setting → List Char
  | reference letters digits => letters.text ++ digits.text
  | type name => name.text
  | other _ value => value.text

end Setting

structure Attribute where
  gap : Chars isXmlBlank
  setting : Setting
  assign : Assign

namespace Attribute

def written (a : Attribute) : List Char :=
  a.gap.text ++ (a.setting.name ++ (a.assign.written ++ (a.setting.value ++ [a.assign.quote])))

def reference? (a : Attribute) : Option (List Char) :=
  match a.setting with
  | .reference letters _ => some letters.text
  | _ => none

def type? (a : Attribute) : Option (List Char) :=
  match a.setting with
  | .type name => some name.text
  | _ => none

/-- The reference, if it is written as the pattern expects it. -/
def readReference? (a : Attribute) : Option (List Char) := if a.assign.Plain then a.reference? else none

def readType? (a : Attribute) : Option (List Char) := if a.assign.Plain then a.type? else none

end Attribute

/-! ### Cells -/

/-- A cell: its attributes, what stands before its end tag if it has one, and the blanks in its tag
and after it. -/
structure Cell where
  attributes : List Attribute
  blanks : List Char
  content : Option (List Char)
  gap : List Char
  blank : ∀ c ∈ blanks ++ gap, isXmlBlank c = true
  closed : ∀ text ∈ content, NoStart (closeTag cellName) text ∧ NoStart (closeTag rowName) text

namespace Cell

def reference? (cell : Cell) : Option (List Char) := cell.attributes.findSome? Attribute.reference?

def type? (cell : Cell) : Option (List Char) := cell.attributes.findSome? Attribute.type?

/-- What follows the tag. -/
def inner (cell : Cell) : List Char := cell.content.getD [] ++ closeTag cellName

def tag (cell : Cell) : List Char := cell.attributes.flatMap Attribute.written ++ cell.blanks

/-- The column of the cell: that of its reference, or the next one. -/
def column (next : Nat) (cell : Cell) : Nat := (cell.reference?.map columnNumber).getD next

end Cell

/-- The columns of the cells of a row. -/
def columnsFrom : Nat → List Cell → List Nat
  | _, [] => []
  | next, cell :: cells => cell.column next :: columnsFrom (cell.column next + 1) cells

/-! ### Attributes in a search -/

section Searching

variable {letter : Char} {value : TextPattern} {before u rest text : List Char}

theorem run_attribute_none {c : Cursor Char} {k : Cursor Char → Option (Cursor Char)}
    (h : ¬[letter, '=', '"'] <+: c.ahead) : (attributePattern letter value).run c k = none := by
  show (boundary.run c fun c => (literal (· == ·) [letter, '=', '"']).run c _) = none
  rw [show boundary = edge isWord from rfl, run, run_literal_none h]
  exact ite_self _

theorem groupFrom_skip (h : NoStart [letter, '=', '"'] u) :
    groupFrom (attributePattern letter value) before (u ++ rest) =
      groupFrom (attributePattern letter value) (u.reverse ++ before) rest := by
  rw [groupFrom, execFrom_skip, groupFrom]
  intro a x b split
  rw [matchHere, run_attribute_none (h a x b rest split)]
  rfl

/-- The search does not see what is behind a place without a word. -/
theorem groupFrom_blind {r : TextPattern} (blind : r.Blind before) : groupFrom r before text = groupFrom r [] text := by
  have groups (before : List Char) : groupFrom r before text =
      ((r.execFrom before text).map (·.stop.groups)).bind (·.lookup 1) := by
    rw [groupFrom, Option.bind_map]
    rfl
  have same : (r.execFrom ([] ++ before) text).map (·.stop.groups) = (r.execFrom [] text).map (·.stop.groups) :=
    execFrom_push blind
  rw [groups, groups, ← same, List.nil_append]

theorem blind_attribute (hvalue : value.Blind before) (h : before.head?.any isWord = false) :
    (attributePattern letter value).Blind before := ⟨h, ⟨trivial, trivial, trivial⟩, hvalue, trivial⟩

theorem groupFrom_pass (h : NoStart [letter, '=', '"'] u) (hvalue : value.Blind (u.reverse ++ before))
    (last : u.getLast?.any isWord = false) (nonempty : u ≠ []) :
    groupFrom (attributePattern letter value) before (u ++ rest) =
      groupFrom (attributePattern letter value) [] rest := by
  rw [groupFrom_skip h]
  apply groupFrom_blind
  apply blind_attribute hvalue
  cases hu : u.reverse with
  | nil => exact absurd (List.reverse_eq_nil_iff.mp hu) nonempty
  | cons x more => simpa [List.getLast?_eq_head?_reverse, hu] using last

theorem isXmlBlank_notWord {c : Char} (h : isXmlBlank c = true) : isWord c = false := by
  simp only [isXmlBlank, Bool.or_eq_true, decide_eq_true_eq] at h
  rcases h with ((rfl | rfl) | rfl) | rfl <;> decide

/-- A letter that the patterns look for. -/
def Searched (letter : Char) : Prop := letter = 'r' ∨ letter = 't'

theorem Searched.isWord (h : Searched letter) : isWord letter = true := by
  rcases h with rfl | rfl <;> decide

theorem not_mem_signs (h : Searched letter) (signs : ∀ c ∈ u, isWord c = false) : letter ∉ u := by
  intro stored
  have notWord := signs letter stored
  rw [h.isWord] at notWord
  cases notWord

theorem not_mem_blanks (h : Searched letter) (blank : ∀ c ∈ u, isXmlBlank c = true) : letter ∉ u :=
  not_mem_signs h fun c stored => isXmlBlank_notWord (blank c stored)

theorem not_mem_assign (h : Searched letter) (assign : Assign) : letter ∉ assign.written := by
  have blank := not_mem_blanks h assign.blank
  have quote : letter ≠ assign.quote := by
    rcases assign.quotes with hq | hq <;> rcases h with rfl | rfl <;> simp [hq]
  have equals : letter ≠ '=' := by
    rcases h with rfl | rfl <;> decide
  simp only [List.mem_append, not_or] at blank
  simp [Assign.written, blank, quote, equals]

theorem other_name (h : Searched letter) (name : OtherName) : name.text ≠ [letter] := by
  rcases h with rfl | rfl <;> cases name <;> decide

theorem not_mem_name (h : Searched letter) (setting : Setting) (other : setting.name ≠ [letter]) :
    letter ∉ setting.name := by
  have quiet (name : OtherName) : letter ∉ name.text := by
    rcases h with rfl | rfl <;> cases name <;> decide
  cases setting with
  | reference letters digits =>
    rcases h with rfl | rfl
    · exact absurd rfl other
    · exact show 't' ∉ ['r'] by decide
  | type name =>
    rcases h with rfl | rfl
    · exact show 'r' ∉ ['t'] by decide
    · exact absurd rfl other
  | other name value => exact quiet name

/-- Without a blank, and with the double quote: only so the pattern finds its signs. -/
theorem plain_of_start {assign : Assign} (h : ['=', '"'] <+: assign.written ++ rest) : assign.Plain := by
  obtain ⟨before, after, quote, blank, quotes⟩ := assign
  simp only [Assign.written] at h
  cases before with
  | cons c before =>
    obtain ⟨rfl, -⟩ := List.cons_prefix_cons.mp h
    exact absurd (blank '=' (by simp)) (by decide)
  | nil =>
    obtain ⟨-, following⟩ := List.cons_prefix_cons.mp h
    cases after with
    | cons c after =>
      obtain ⟨rfl, -⟩ := List.cons_prefix_cons.mp following
      exact absurd (blank '"' (by simp)) (by decide)
    | nil =>
      obtain ⟨rfl, -⟩ := List.cons_prefix_cons.mp following
      exact ⟨rfl, rfl, rfl⟩

theorem noStart_name (h : Searched letter) (a : Attribute) (unread : a.setting.name ≠ [letter] ∨ ¬a.assign.Plain) :
    NoStart [letter, '=', '"'] (a.setting.name ++ a.assign.written) := by
  have behind : NoStart [letter, '=', '"'] a.assign.written := noStart_of_not_mem (not_mem_assign h _)
  by_cases other : a.setting.name = [letter]
  · have odd := unread.resolve_left (fun differ => differ other)
    rw [other]
    intro passed x more tail split hprefix
    cases passed with
    | nil =>
      obtain ⟨rfl, rfl⟩ := List.cons.inj split
      obtain ⟨-, following⟩ := List.cons_prefix_cons.mp hprefix
      exact odd (plain_of_start following)
    | cons y passed =>
      obtain ⟨rfl, hsplit⟩ := List.cons.inj split
      exact behind passed x more tail hsplit hprefix
  · exact (noStart_of_not_mem (not_mem_name h _ other)).append behind

theorem value_alphanum (setting : Setting) : ∀ c ∈ setting.value, c.isAlphanum = true := by
  cases setting with
  | reference letters digits =>
    intro c stored
    rcases List.mem_append.mp stored with stored | stored
    · have alpha : c.isAlpha = true := Bool.or_eq_true_iff.mpr (.inl (letters.all c stored))
      exact Bool.or_eq_true_iff.mpr (.inl alpha)
    · exact Bool.or_eq_true_iff.mpr (.inr (digits.all c stored))
  | type name => exact name.all
  | other name value => exact value.all

theorem noStart_value (h : Searched letter) (a : Attribute) :
    NoStart [letter, '=', '"'] (a.setting.value ++ [a.assign.quote]) := by
  apply noStart_of_second
  · intro stored
    rcases List.mem_append.mp stored with stored | stored
    · exact absurd (value_alphanum _ _ stored) (by decide)
    · have quote := List.mem_singleton.mp stored
      rcases a.assign.quotes with hq | hq <;> rw [hq] at quote <;> exact absurd quote (by decide)
  · rcases a.assign.quotes with hq | hq <;> rcases h with rfl | rfl <;> rw [hq] <;> decide

/-- An attribute that the pattern does not read is passed over. -/
theorem noStart_attribute (h : Searched letter) (a : Attribute)
    (unread : a.setting.name ≠ [letter] ∨ ¬a.assign.Plain) : NoStart [letter, '=', '"'] a.written := by
  have gap : NoStart [letter, '=', '"'] a.gap.text := noStart_of_not_mem (not_mem_blanks h a.gap.all)
  have whole := gap.append ((noStart_name h a unread).append (noStart_value h a))
  rwa [List.append_assoc] at whole

theorem quote_last (a : Attribute) : a.written.getLast?.any isWord = false := by
  have last : a.written.getLast? = some a.assign.quote := by
    simp [Attribute.written, List.getLast?_append]
  rw [last]
  rcases a.assign.quotes with hq | hq <;> rw [hq] <;> decide

/-- The pattern of a value reads `text` from `written`, if the quote comes after it. -/
def ReadsValue (value : TextPattern) (written text : List Char) : Prop :=
  ∀ (c : Cursor Char) (rest : List Char), c.ahead = written ++ '"' :: rest →
    ∃ stop, (value.run c fun c => (literal (· == ·) ['"']).run c some) = some stop ∧
      stop.groups.lookup 1 = some text

theorem run_quote {c : Cursor Char} (hahead : c.ahead = '"' :: rest) :
    (literal (· == ·) ['"']).run c (some : Cursor Char → Option (Cursor Char)) = some (c.skip ['"'] rest) :=
  run_literal hahead

theorem closed_lookup (c : Cursor Char) (text rest : List Char) (index : Nat) :
    ((c.skip text rest).close c index).groups.lookup index = some text := by
  simp [Cursor.close]

theorem not_upper_of_digit {c : Char} (h : c.isDigit = true) : c.isUpper = false := by
  change (c.val ≥ '0'.val && c.val ≤ '9'.val) = true at h
  change decide (c.val ≥ 'A'.val ∧ c.val ≤ 'Z'.val) = false
  simp only [Bool.and_eq_true, decide_eq_true_eq, decide_eq_false_iff_not,
    ge_iff_le, UInt32.le_iff_toNat_le] at h ⊢
  have : '9'.val.toNat = 57 := rfl
  have : 'A'.val.toNat = 65 := rfl
  omega

theorem readsValue_reference (letters : Chars Char.isUpper) (digits : Chars Char.isDigit) :
    ReadsValue (.seq (group 1 (many Char.isUpper 1 none)) (many Char.isDigit 1 none))
      (letters.text ++ digits.text) letters.text := by
  intro c rest hahead
  have split : c.ahead = letters.text ++ (digits.text ++ '"' :: rest) := by
    rw [hahead, List.append_assoc]
  have enough {kind : Char → Bool} (chars : Chars kind) : 1 ≤ chars.text.length :=
    List.length_pos_iff.mpr chars.nonempty
  have lettersStop : ∀ x ∈ (digits.text ++ '"' :: rest).head?, x.isUpper = false := by
    cases hdigits : digits.text with
    | nil => exact absurd hdigits digits.nonempty
    | cons d more =>
      have hd : d.isDigit = true := digits.all d (by simp [hdigits])
      simpa using not_upper_of_digit hd
  refine ⟨_, run_many_longest split letters.all (enough letters) (by simp) lettersStop
    (run_many_longest rfl digits.all (enough digits) (by simp) (by simp) (run_quote rfl)), ?_⟩
  exact closed_lookup c letters.text (digits.text ++ '"' :: rest) 1

theorem readsValue_type (name : Chars Char.isAlphanum) :
    ReadsValue (group 1 (many (fun c => c ≠ '"' && c ≠ ' ') 1 none)) name.text name.text := by
  intro c rest hahead
  have enough : 1 ≤ name.text.length := List.length_pos_iff.mpr name.nonempty
  have plain : ∀ x ∈ name.text, (decide (x ≠ '"') && decide (x ≠ ' ')) = true := by
    intro x stored
    have hx := name.all x stored
    simp only [Bool.and_eq_true, decide_eq_true_eq]
    constructor <;> rintro rfl <;> cases hx
  refine ⟨_, run_many_longest hahead plain enough (by simp) (by simp) (run_quote rfl), ?_⟩
  exact closed_lookup c name.text ('"' :: rest) 1

theorem groupFrom_hit {written : List Char} (h : Searched letter) (hvalue : ReadsValue value written text)
    (behind : before.head?.any isWord = false) :
    groupFrom (attributePattern letter value) before
      (letter :: '=' :: '"' :: (written ++ '"' :: rest)) = some text := by
  let start : Cursor Char := ⟨before, letter :: '=' :: '"' :: (written ++ '"' :: rest), []⟩
  have edge : start.before.head?.any isWord ≠ start.ahead.head?.any isWord := by
    show before.head?.any isWord ≠ isWord letter
    rw [behind, h.isWord]
    decide
  obtain ⟨stop, hstop, hlookup⟩ := hvalue (start.skip [letter, '=', '"'] (written ++ '"' :: rest)) rest rfl
  have hrun : (attributePattern letter value).run start some = some stop := by
    show (boundary.run start fun c => (literal (· == ·) [letter, '=', '"']).run c fun c =>
      value.run c fun c => (literal (· == ·) ['"']).run c some) = some stop
    have signs : start.ahead = [letter, '=', '"'] ++ (written ++ '"' :: rest) := rfl
    rw [run_boundary edge, run_literal signs]
    exact hstop
  rw [groupFrom, execFrom_here (matchHere_of_run hrun)]
  exact hlookup

/-- What the pattern makes of an attribute in front of anything else. -/
def Reads (letter : Char) (value : TextPattern) (read : Attribute → Option (List Char)) : Prop :=
  ∀ (a : Attribute) (before rest : List Char),
    groupFrom (attributePattern letter value) before (a.written ++ rest) =
      (read a).or (groupFrom (attributePattern letter value) [] rest)

theorem reads_of_values {read : Attribute → Option (List Char)} (h : Searched letter)
    (blind : ∀ before, value.Blind before)
    (some_ : ∀ a text, read a = some text →
      a.setting.name = [letter] ∧ a.assign.Plain ∧ ReadsValue value a.setting.value text)
    (none_ : ∀ a, read a = none → a.setting.name ≠ [letter] ∨ ¬a.assign.Plain) :
    Reads letter value read := by
  intro a before rest
  cases hread : read a with
  | none =>
    have nonempty : a.written ≠ [] := by simp [Attribute.written]
    rw [groupFrom_pass (noStart_attribute h a (none_ a hread)) (blind _) (quote_last a) nonempty]
    rfl
  | some text =>
    obtain ⟨name, plain, reads⟩ := some_ a text hread
    obtain ⟨hbefore, hafter, hquote⟩ := plain
    have written : a.written ++ rest =
        a.gap.text ++ letter :: '=' :: '"' :: (a.setting.value ++ '"' :: rest) := by
      simp [Attribute.written, Assign.written, name, hbefore, hafter, hquote]
    have behind : (a.gap.text.reverse ++ before).head?.any isWord = false := by
      cases hgap : a.gap.text.reverse with
      | nil => exact absurd (List.reverse_eq_nil_iff.mp hgap) a.gap.nonempty
      | cons c more =>
        have stored : c ∈ a.gap.text := List.mem_reverse.mp (by simp [hgap])
        simpa using isXmlBlank_notWord (a.gap.all c stored)
    rw [written, groupFrom_skip (noStart_of_not_mem (not_mem_blanks h a.gap.all)), groupFrom_hit h reads behind]
    rfl

theorem reads_reference : Reads 'r' (.seq (group 1 (many Char.isUpper 1 none)) (many Char.isDigit 1 none))
    Attribute.readReference? := by
  have blind (before : List Char) :
      Blind before (.seq (group 1 (many Char.isUpper 1 none)) (many Char.isDigit 1 none)) := ⟨trivial, trivial⟩
  apply reads_of_values (.inl rfl) blind
  · intro a text hread
    obtain ⟨plain, hread⟩ := Option.ite_none_right_eq_some.mp hread
    cases hsetting : a.setting with
    | reference letters digits =>
      obtain rfl : letters.text = text := by simpa [Attribute.reference?, hsetting] using hread
      exact ⟨rfl, plain, readsValue_reference letters digits⟩
    | type name => simp [Attribute.reference?, hsetting] at hread
    | other name value => simp [Attribute.reference?, hsetting] at hread
  · intro a hread
    by_cases plain : a.assign.Plain
    · left
      rw [Attribute.readReference?, if_pos plain] at hread
      cases hsetting : a.setting with
      | reference letters digits => simp [Attribute.reference?, hsetting] at hread
      | type name => exact show ['t'] ≠ ['r'] by decide
      | other name value => exact other_name (.inl rfl) name
    · exact .inr plain

theorem reads_type : Reads 't' (group 1 (many (fun c => c ≠ '"' && c ≠ ' ') 1 none)) Attribute.readType? := by
  have blind (before : List Char) :
      Blind before (group 1 (many (fun c => c ≠ '"' && c ≠ ' ') 1 none)) := trivial
  apply reads_of_values (.inr rfl) blind
  · intro a text hread
    obtain ⟨plain, hread⟩ := Option.ite_none_right_eq_some.mp hread
    cases hsetting : a.setting with
    | reference letters digits => simp [Attribute.type?, hsetting] at hread
    | type name =>
      obtain rfl : name.text = text := by simpa [Attribute.type?, hsetting] using hread
      exact ⟨rfl, plain, readsValue_type name⟩
    | other name value => simp [Attribute.type?, hsetting] at hread
  · intro a hread
    by_cases plain : a.assign.Plain
    · left
      rw [Attribute.readType?, if_pos plain] at hread
      cases hsetting : a.setting with
      | reference letters digits => exact show ['r'] ≠ ['t'] by decide
      | type name => simp [Attribute.type?, hsetting] at hread
      | other name value => exact other_name (.inr rfl) name
    · exact .inr plain

end Searching

/-! ### Cells in a search -/

section Cells

variable {letter : Char} {value : TextPattern} {read : Attribute → Option (List Char)}
  {before u rest : List Char}

theorem isXmlBlank_noBracket {c : Char} (h : isXmlBlank c = true) : c ≠ '<' ∧ c ≠ '>' := by
  constructor <;> rintro rfl <;> cases h

theorem isAlphanum_noBracket {c : Char} (h : c.isAlphanum = true) : c ≠ '<' ∧ c ≠ '>' := by
  constructor <;> rintro rfl <;> cases h

theorem noBracket_name (setting : Setting) : ∀ c ∈ setting.name, c ≠ '<' ∧ c ≠ '>' := by
  have quiet (name : OtherName) : ∀ c ∈ name.text, c ≠ '<' ∧ c ≠ '>' := by
    cases name <;> simp [OtherName.text]
  cases setting with
  | reference letters digits => exact show ∀ c ∈ ['r'], c ≠ '<' ∧ c ≠ '>' by simp
  | type name => exact show ∀ c ∈ ['t'], c ≠ '<' ∧ c ≠ '>' by simp
  | other name value => exact quiet name

theorem noBracket_attribute (a : Attribute) : ∀ c ∈ a.written, c ≠ '<' ∧ c ≠ '>' := by
  have quote : a.assign.quote ≠ '<' ∧ a.assign.quote ≠ '>' := by
    rcases a.assign.quotes with hq | hq <;> rw [hq] <;> decide
  intro c stored
  simp only [Attribute.written, Assign.written, List.mem_append, List.mem_cons, List.not_mem_nil, or_false] at stored
  rcases stored with gap | name | (before | rfl | after | rfl) | value | rfl
  · exact isXmlBlank_noBracket (a.gap.all c gap)
  · exact noBracket_name _ c name
  · exact isXmlBlank_noBracket (a.assign.blank c (List.mem_append_left _ before))
  · decide
  · exact isXmlBlank_noBracket (a.assign.blank c (List.mem_append_right _ after))
  · exact quote
  · exact isAlphanum_noBracket (value_alphanum _ c value)
  · exact quote

namespace Cell

theorem noBracket_tag (cell : Cell) : ∀ c ∈ cell.tag, c ≠ '<' ∧ c ≠ '>' := by
  intro c stored
  rcases List.mem_append.mp stored with stored | stored
  · obtain ⟨a, -, stored⟩ := List.mem_flatMap.mp stored
    exact noBracket_attribute a c stored
  · exact isXmlBlank_noBracket (cell.blank c (List.mem_append_left _ stored))

theorem tagRest (cell : Cell) : TagRest cell.tag := by
  refine ⟨?_, fun stored => (cell.noBracket_tag _ stored).1 rfl, fun stored => (cell.noBracket_tag _ stored).2 rfl⟩
  have blanks : ∀ c ∈ cell.blanks, isWord c = false :=
    fun c stored => isXmlBlank_notWord (cell.blank c (List.mem_append_left _ stored))
  rw [tag]
  cases cell.attributes with
  | nil => exact fun c stored => blanks c (List.mem_of_mem_head? stored)
  | cons a more =>
    intro c stored
    cases hgap : a.gap.text with
    | nil => exact absurd hgap a.gap.nonempty
    | cons d gap =>
      obtain rfl : d = c := by simpa [Attribute.written, hgap] using stored
      exact isXmlBlank_notWord (a.gap.all d (by simp [hgap]))

def element (cell : Cell) : Element cellName where
  tag := cell.tag
  content := cell.content
  gap := cell.gap
  rest := cell.tagRest
  closed := fun text stored => (cell.closed text stored).1
  blank := fun c stored => cell.blank c (List.mem_append_right _ stored)

end Cell

theorem notWord_last (signs : ∀ c ∈ u, isWord c = false) : u.getLast?.any isWord = false := by
  cases hlast : u.getLast? with
  | none => rfl
  | some c => exact signs c (List.mem_of_getLast? hlast)

/-- The attributes of a cell, and the signs after them. -/
theorem groupFrom_attributes (h : Searched letter) (reads : Reads letter value read)
    (hvalue : ∀ before, value.Blind before) (attributes : List Attribute)
    (signs : ∀ c ∈ u, isWord c = false) (nonempty : u ≠ []) :
    groupFrom (attributePattern letter value) before (attributes.flatMap Attribute.written ++ (u ++ rest)) =
      (attributes.findSome? read).or (groupFrom (attributePattern letter value) [] rest) := by
  have past (before : List Char) : groupFrom (attributePattern letter value) before (u ++ rest) =
      groupFrom (attributePattern letter value) [] rest :=
    groupFrom_pass (noStart_of_not_mem (not_mem_signs h signs)) (hvalue _) (notWord_last signs) nonempty
  induction attributes generalizing before with
  | nil => exact past before
  | cons a attributes ih =>
    rw [List.flatMap_cons, List.append_assoc, reads a, ih, List.findSome?_cons]
    cases read a <;> rfl

theorem groupFrom_name (h : Searched letter) :
    groupFrom (attributePattern letter value) before (['<', 'c'] ++ rest) =
      groupFrom (attributePattern letter value) ('c' :: '<' :: before) rest := by
  apply groupFrom_skip
  apply noStart_of_not_mem
  rcases h with rfl | rfl <;> decide

/-- The signs around the blanks of a cell. -/
theorem signs_cell (cell : Cell) {signs gap : List Char} (hsigns : ∀ c ∈ signs, isWord c = false)
    (hgap : gap ⊆ cell.gap) : ∀ c ∈ cell.blanks ++ (signs ++ gap), isWord c = false := by
  intro c stored
  rcases List.mem_append.mp stored with stored | stored
  · exact isXmlBlank_notWord (cell.blank c (List.mem_append_left _ stored))
  · rcases List.mem_append.mp stored with stored | stored
    · exact hsigns c stored
    · exact isXmlBlank_notWord (cell.blank c (List.mem_append_right _ (hgap stored)))

theorem groupFrom_hollow (h : Searched letter) (reads : Reads letter value read)
    (hvalue : ∀ before, value.Blind before) (cell : Cell) (empty : cell.content = none) :
    groupFrom (attributePattern letter value) before (cell.element.written ++ rest) =
      (cell.attributes.findSome? read).or (groupFrom (attributePattern letter value) [] rest) := by
  have written : cell.element.written ++ rest =
      ['<', 'c'] ++ (cell.attributes.flatMap Attribute.written ++
        ((cell.blanks ++ (['/', '>'] ++ cell.gap)) ++ rest)) := by
    simp [Element.written, Element.text, Cell.element, empty, openTag, tagStart, cellName, Cell.tag]
  have signs : ∀ c ∈ ['/', '>'], isWord c = false := by
    simp only [List.mem_cons, List.not_mem_nil, or_false, forall_eq_or_imp, forall_eq]
    decide
  rw [written, groupFrom_name h]
  exact groupFrom_attributes h reads hvalue _ (signs_cell cell signs (List.Subset.refl _)) (by simp)

theorem groupFrom_filled (h : Searched letter) (reads : Reads letter value read)
    (hvalue : ∀ before, value.Blind before) (cell : Cell) (filled : cell.content.isSome) :
    groupFrom (attributePattern letter value) before cell.element.text =
      (cell.attributes.findSome? read).or (groupFrom (attributePattern letter value) [] cell.inner) := by
  obtain ⟨text, htext⟩ := Option.isSome_iff_exists.mp filled
  have written : cell.element.text =
      ['<', 'c'] ++ (cell.attributes.flatMap Attribute.written ++ ((cell.blanks ++ (['>'] ++ [])) ++ cell.inner)) := by
    simp [Element.text, Cell.element, htext, openTag, tagStart, cellName, Cell.tag, Cell.inner]
  have signs : ∀ c ∈ ['>'], isWord c = false := by
    simp only [List.mem_singleton, forall_eq]
    decide
  rw [written, groupFrom_name h]
  exact groupFrom_attributes h reads hvalue _ (signs_cell cell signs (List.nil_subset _)) (by simp)

/-- The attributes of the cells of a run, one after another. -/
def Run.attributes (run : Run Cell) : List Attribute := (run.hollow ++ [run.last]).flatMap Cell.attributes

/-- In a run the first attribute that the pattern reads is found, and then the content is searched. -/
theorem groupFrom_run (h : Searched letter) (reads : Reads letter value read)
    (hvalue : ∀ before, value.Blind before) (run : Run Cell) (empty : ∀ cell ∈ run.hollow, cell.content = none)
    (filled : run.last.content.isSome) :
    groupFrom (attributePattern letter value) before (Element.runText Cell.element run) =
      (run.attributes.findSome? read).or (groupFrom (attributePattern letter value) [] run.last.inner) := by
  obtain ⟨hollow, last⟩ := run
  simp only [Element.runText, Run.attributes]
  induction hollow generalizing before with
  | nil => simpa using groupFrom_filled h reads hvalue last filled
  | cons cell hollow ih =>
    rw [List.forall_mem_cons] at empty
    rw [List.flatMap_cons, List.append_assoc, groupFrom_hollow h reads hvalue cell empty.1, ih empty.2 filled,
      List.cons_append, List.flatMap_cons, List.findSome?_append, Option.or_assoc]

/-- What stands before the content of the last cell of a run. -/
def Run.opening (run : Run Cell) : List Char :=
  run.hollow.flatMap (fun cell => cell.element.written) ++ openTag cellName run.last.tag

theorem runText_eq (run : Run Cell) (filled : run.last.content.isSome) :
    Element.runText Cell.element run = run.opening ++ run.last.inner := by
  obtain ⟨text, htext⟩ := Option.isSome_iff_exists.mp filled
  have last : run.last.element.text = openTag cellName run.last.tag ++ run.last.inner := by
    simp [Element.text, Cell.element, htext, Cell.inner]
  rw [Element.runText, last, Run.opening, List.append_assoc]

/-- Another element does not start in the tags of cells. -/
theorem noStart_opening (run : Run Cell) (empty : ∀ cell ∈ run.hollow, cell.content = none) {second : Char}
    {more : List Char} (other : second ≠ 'c') (bracket : second ≠ '<') :
    NoStart ('<' :: second :: more) run.opening := by
  have name : second ∉ cellName.text.head? := by
    simpa [cellName] using other.symm
  refine (noStart_flatMap ?_).append (noStart_openTag name bracket run.last.tagRest.noBracket.1)
  intro cell stored
  have written : cell.element.written = openTag cellName (cell.tag ++ ['/']) ++ cell.gap := by
    simp [Element.written, Element.text, Cell.element, empty cell stored]
  rw [written]
  exact (noStart_openTag name bracket cell.tagRest.slashed.noBracket.1).append
    (noStart_of_not_mem (noBracket_gap cell.element))

theorem groupFrom_element {start : List Char} {more : TextPattern} (quiet : NoStart start u)
    (blind : ∀ before, more.Blind before) :
    groupFrom (.seq (literal (· == ·) start) more) [] (u ++ rest) =
      groupFrom (.seq (literal (· == ·) start) more) [] rest := by
  have skip : groupFrom (.seq (literal (· == ·) start) more) [] (u ++ rest) =
      groupFrom (.seq (literal (· == ·) start) more) (u.reverse ++ []) rest := by
    rw [groupFrom, execFrom_skip, groupFrom]
    intro a x b split
    have none_run : (Pattern.seq (literal (· == ·) start) more).run ⟨a.reverse ++ [], x :: (b ++ rest), []⟩
        (some : Cursor Char → Option (Cursor Char)) = none := run_literal_none (quiet a x b rest split)
    rw [matchHere, none_run]
    rfl
  rw [skip]
  exact groupFrom_blind ⟨blind_literal _ _, blind _⟩

/-- The value of a run is read from the content of its last cell. -/
theorem rawValue_run (run : Run Cell) (empty : ∀ cell ∈ run.hollow, cell.content = none)
    (filled : run.last.content.isSome) : rawValue (Element.runText Cell.element run) = rawValue run.last.inner := by
  have value : firstGroup valuePattern (run.opening ++ run.last.inner) = firstGroup valuePattern run.last.inner :=
    groupFrom_element (noStart_opening run empty (by decide) (by decide) : NoStart ['<', 'v', '>'] run.opening)
      fun _ => ⟨trivial, blind_literal _ _⟩
  have text : firstGroup textPattern (run.opening ++ run.last.inner) = firstGroup textPattern run.last.inner :=
    groupFrom_element (noStart_opening run empty (by decide) (by decide) : NoStart ['<', 't', '>'] run.opening)
      fun _ => ⟨trivial, blind_literal _ _⟩
  rw [runText_eq run filled, rawValue, value, text, rawValue]

end Cells

end Finverse.Workbook
