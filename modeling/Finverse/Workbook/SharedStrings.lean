import Finverse.Framework.Alignment
import Finverse.Statements.Drafts
import Finverse.Workbook.Xml

/-! The table of shared strings of a workbook. -/

namespace Finverse.Workbook

open Auth (isJsSpace)
open Statements.Text (TextPattern exactly)

section Patterns

open Pattern

def sharedText : TextPattern :=
  Pattern.all [exactly "<t", opt (Pattern.all [one isJsSpace, many (· ≠ '>') 0 none]), exactly ">",
    group 1 (few (fun _ => true) 0), exactly "</t>"]

end Patterns

def rawText (found : Pattern.Found Char) : List Char := (found.group? 1).getD []

def parseSharedStrings (part : Option String) : List String :=
  match part with
  | none => []
  | some xml => (sharedText.matchAll xml.toList).map fun found => String.ofList (decodeXml (rawText found))

/-! ### Well-formed parts -/

/-- No text element begins or ends in it. -/
def quietMarkup : List Char → Bool
  | [] => true
  | c :: rest =>
    (if c = '<' then
      match rest with
      | [] => false
      | d :: more => d ≠ 't' && (d ≠ '/' || more.head?.any (· ≠ 't'))
    else true) && quietMarkup rest

/-- Markup around the text elements. -/
structure Markup where
  text : List Char
  quiet : quietMarkup text = true

/-- The attributes of a text element. -/
structure Attributes where
  text : List Char
  blank : ∀ c ∈ text.head?, isJsSpace c = true
  inside : '<' ∉ text ∧ '>' ∉ text

inductive Piece
  | markup (markup : Markup)
  | filled (attributes : Attributes) (content : List Glyph)
  | hollow (attributes : Attributes)

def startTag (attributes : Attributes) : List Char := '<' :: 't' :: (attributes.text ++ ['>'])

def endTag : List Char := ['<', '/', 't', '>']

namespace Piece

def written : Piece → List Char
  | markup m => m.text
  | filled attributes content => startTag attributes ++ (Workbook.written content ++ endTag)
  | hollow attributes => '<' :: 't' :: (attributes.text ++ ['/', '>'])

/-- The text it adds to its item. -/
def text : Piece → List Char
  | filled _ content => textOf content
  | _ => []

end Piece

def piecesWritten (pieces : List Piece) : List Char := pieces.flatMap Piece.written

/-- A string item: plain, empty, or of several runs. -/
abbrev StringItem := List Piece

def StringItem.text (item : StringItem) : List Char := item.flatMap Piece.text

/-- A part with a table of shared strings. -/
structure SharedStrings where
  opening : Markup
  items : List StringItem
  closing : Markup

namespace SharedStrings

def pieces (part : SharedStrings) : List Piece :=
  .markup part.opening :: (part.items.flatten ++ [.markup part.closing])

def written (part : SharedStrings) : String := String.ofList (piecesWritten part.pieces)

end SharedStrings

/-- The contents of the elements that have an end tag. -/
def contents (pieces : List Piece) : List (List Glyph) :=
  pieces.filterMap fun
    | .filled _ content => some content
    | _ => none

def StringItem.texts (item : StringItem) : List (List Char) := (contents item).map textOf

/-- What is found in the pieces. An element without content passes for a start tag, if it has
attributes, and then goes on to the end of the next one with content. -/
def entries : Option (List Char) → List Piece → List (List Char)
  | _, [] => []
  | none, .filled _ content :: pieces => written content :: entries none pieces
  | some passed, .filled attributes content :: pieces =>
    (passed ++ startTag attributes ++ written content) :: entries none pieces
  | none, .hollow attributes :: pieces =>
    entries (if attributes.text = [] then none else some []) pieces
  | some passed, .hollow attributes :: pieces =>
    entries (some (passed ++ (Piece.hollow attributes).written)) pieces
  | none, .markup _ :: pieces => entries none pieces
  | some passed, .markup m :: pieces => entries (some (passed ++ m.text)) pieces

/-! ### Inside the pattern -/

section Steps

open Pattern

variable {c : Cursor Char} {more : List Char} {k : Cursor Char → Option (Cursor Char)}

def attributesPattern : TextPattern := Pattern.all [one isJsSpace, many (· ≠ '>') 0 none]

/-- After the start tag. -/
def afterTag : TextPattern := Pattern.all [group 1 (few (fun _ => true) 0), exactly "</t>"]

def afterName : TextPattern := .seq (opt attributesPattern) (.seq (exactly ">") afterTag)

theorem run_name (hahead : c.ahead = ['<', 't'] ++ more) :
    sharedText.run c k = afterName.run (c.skip ['<', 't'] more) k := run_literal hahead

theorem run_afterName_eq : afterName.run c k =
    ((attributesPattern.run c fun c => (exactly ">").run c fun c => afterTag.run c k) <|>
      (exactly ">").run c fun c => afterTag.run c k) := rfl

theorem run_bracket (hahead : c.ahead = '>' :: more) :
    ((exactly ">").run c fun c => afterTag.run c k) = afterTag.run (c.skip ['>'] more) k :=
  run_literal hahead

theorem run_bracket_none (h : c.ahead.head? ≠ some '>') :
    ((exactly ">").run c fun c => afterTag.run c k) = none := by
  apply run_literal_none
  rintro ⟨rest, hrest⟩
  rw [← hrest] at h
  simp at h

theorem run_attributes_eq : attributesPattern.run c k =
    (one isJsSpace).run c fun c => (many (· ≠ '>') 0 none).run c k := rfl

theorem run_attributes_none {x : Char} (hahead : c.ahead = x :: more) (hx : isJsSpace x = false) :
    attributesPattern.run c k = none := by
  rw [run_attributes_eq]
  exact run_one_none (by simpa [hahead] using hx)

theorem run_afterName_slash (hahead : c.ahead = '/' :: more) : afterName.run c k = none := by
  rw [run_afterName_eq, run_attributes_none hahead (by decide), run_bracket_none (by simp [hahead])]
  rfl

/-- There is one way over the attributes. -/
theorem run_afterName (attributes : Attributes) (hahead : c.ahead = attributes.text ++ '>' :: more) :
    afterName.run c k = afterTag.run (c.skip (attributes.text ++ ['>']) more) k := by
  obtain ⟨text, blank, inside⟩ := attributes
  dsimp only at hahead ⊢
  rw [run_afterName_eq]
  cases text with
  | nil =>
    rw [run_attributes_none hahead (by decide), run_bracket hahead]
    rfl
  | cons s text =>
    have hs := blank s rfl
    have noTag : ∀ x ∈ text, decide (x ≠ '>') = true := by
      intro x hx
      rw [decide_eq_true_eq]
      rintro rfl
      exact inside.2 (by simp [hx])
    have first : (attributesPattern.run c fun c => (exactly ">").run c fun c => afterTag.run c k) =
        afterTag.run (c.skip ((s :: text) ++ ['>']) more) k := by
      rw [run_attributes_eq, run_one hahead hs, run_many_all rfl noTag (by simp), run_bracket rfl]
      · congr 1
        simp [Cursor.skip, Cursor.advance]
      · intro c' x rest hrest hx
        apply run_bracket_none
        rw [hrest]
        simpa using hx
    have last : ((exactly ">").run c fun c => afterTag.run c k) = none := by
      apply run_bracket_none
      rw [hahead]
      simp only [List.cons_append, List.head?_cons, ne_eq, Option.some.injEq]
      rintro rfl
      exact inside.2 (by simp)
    rw [first, last]
    cases afterTag.run (c.skip ((s :: text) ++ ['>']) more) k <;> rfl

end Steps

/-! ### What the pattern passes over -/

section Quiet

variable {u v before : List Char}

/-- No text element ends in it, whatever comes after it. -/
def Unclosing (u : List Char) : Prop :=
  ∀ passed x more tail, u = passed ++ x :: more → ¬endTag <+: x :: (more ++ tail)

/-- The pattern does not match in it, whatever comes before and after it. -/
def Passed (u : List Char) : Prop :=
  ∀ passed x more tail before, u = passed ++ x :: more →
    sharedText.matchHere before (x :: (more ++ tail)) = none

theorem append_cases {passed more : List Char} {x : Char} (h : u ++ v = passed ++ x :: more) :
    (∃ more', u = passed ++ x :: more' ∧ more = more' ++ v) ∨
      ∃ passed', passed = u ++ passed' ∧ v = passed' ++ x :: more := by
  rcases List.append_eq_append_iff.mp h with ⟨passed', rfl, hv⟩ | ⟨rest, rfl, hrest⟩
  · exact .inr ⟨passed', rfl, hv⟩
  · cases rest with
    | nil => exact .inr ⟨[], by simp, by simpa using hrest.symm⟩
    | cons y rest =>
      obtain ⟨rfl, rfl⟩ := List.cons.inj hrest
      exact .inl ⟨rest, rfl, rfl⟩

theorem Unclosing.append (hu : Unclosing u) (hv : Unclosing v) : Unclosing (u ++ v) := by
  intro passed x more tail split
  rcases append_cases split with ⟨more', hsplit, rfl⟩ | ⟨passed', -, hsplit⟩
  · rw [List.append_assoc]
    exact hu passed x more' (v ++ tail) hsplit
  · exact hv passed' x more tail hsplit

theorem Passed.append (hu : Passed u) (hv : Passed v) : Passed (u ++ v) := by
  intro passed x more tail before split
  rcases append_cases split with ⟨more', hsplit, rfl⟩ | ⟨passed', -, hsplit⟩
  · rw [List.append_assoc]
    exact hu passed x more' (v ++ tail) before hsplit
  · exact hv passed' x more tail before hsplit

theorem unclosing_of_noBracket (h : '<' ∉ u) : Unclosing u := by
  rintro passed x more tail rfl hprefix
  obtain ⟨rfl, -⟩ := List.cons_prefix_cons.mp hprefix
  simp at h

theorem matchHere_none (h : ¬['<', 't'] <+: u) : sharedText.matchHere before u = none := by
  have none_run : sharedText.run ⟨before, u, []⟩ (some : Cursor Char → Option (Cursor Char)) = none :=
    Pattern.run_literal_none h
  rw [Pattern.matchHere, none_run]
  rfl

theorem quietMarkup_split {passed more : List Char} (h : quietMarkup (passed ++ '<' :: more) = true) :
    ∃ d rest, more = d :: rest ∧ d ≠ 't' ∧ (d = '/' → ∃ e rest', rest = e :: rest' ∧ e ≠ 't') := by
  induction passed with
  | nil =>
    cases more with
    | nil => simp [quietMarkup] at h
    | cons d more =>
      simp only [List.nil_append, quietMarkup, if_true, Bool.and_eq_true, Bool.or_eq_true,
        decide_eq_true_eq] at h
      refine ⟨d, more, rfl, h.1.1, ?_⟩
      rintro rfl
      have head := h.1.2.resolve_left (by simp)
      cases more with
      | nil => simp at head
      | cons e rest => exact ⟨e, rest, rfl, by simpa using head⟩
  | cons c passed ih =>
    simp only [List.cons_append, quietMarkup, Bool.and_eq_true] at h
    exact ih h.2

theorem unclosing_markup (m : Markup) : Unclosing m.text := by
  intro passed x more tail split hprefix
  obtain ⟨rfl, second⟩ := List.cons_prefix_cons.mp hprefix
  obtain ⟨d, rest, rfl, -, slash⟩ := quietMarkup_split (split ▸ m.quiet)
  obtain ⟨rfl, third⟩ := List.cons_prefix_cons.mp second
  obtain ⟨e, rest', rfl, he⟩ := slash rfl
  exact he (List.cons_prefix_cons.mp third).1.symm

theorem passed_markup (m : Markup) : Passed m.text := by
  intro passed x more tail before split
  apply matchHere_none
  intro hprefix
  obtain ⟨rfl, second⟩ := List.cons_prefix_cons.mp hprefix
  obtain ⟨d, rest, rfl, hd, -⟩ := quietMarkup_split (split ▸ m.quiet)
  exact hd (List.cons_prefix_cons.mp second).1.symm

/-- A tag of a text element ends no other one. -/
theorem unclosing_tag (h : '<' ∉ u) : Unclosing ('<' :: 't' :: u) := by
  have opening : Unclosing ['<', 't'] := by
    intro passed x more tail split hprefix
    cases passed with
    | nil =>
      obtain ⟨rfl, rfl⟩ : '<' = x ∧ ['t'] = more := List.cons.inj split
      simp [endTag] at hprefix
    | cons y passed =>
      obtain ⟨rfl, rest⟩ : '<' = y ∧ ['t'] = passed ++ x :: more := List.cons.inj split
      exact unclosing_of_noBracket (by decide) passed x more tail rest hprefix
  exact opening.append (unclosing_of_noBracket h)

/-- Without attributes an element without content does not look like a start tag. -/
theorem passed_bare : Passed ['<', 't', '/', '>'] := by
  have bare (tail before : List Char) :
      sharedText.matchHere before ('<' :: (['t', '/', '>'] ++ tail)) = none := by
    have none_run : sharedText.run ⟨before, '<' :: (['t', '/', '>'] ++ tail), []⟩
        (some : Cursor Char → Option (Cursor Char)) = none :=
      (run_name rfl).trans (run_afterName_slash rfl)
    rw [Pattern.matchHere, none_run]
    rfl
  intro passed x more tail before split
  cases passed with
  | nil =>
    obtain ⟨rfl, rfl⟩ : '<' = x ∧ ['t', '/', '>'] = more := List.cons.inj split
    exact bare tail before
  | cons y passed =>
    obtain ⟨rfl, rest⟩ : '<' = y ∧ ['t', '/', '>'] = passed ++ x :: more := List.cons.inj split
    apply matchHere_none
    intro hprefix
    obtain ⟨rfl, -⟩ := List.cons_prefix_cons.mp hprefix
    exact absurd (by rw [rest]; simp) (show '<' ∉ ['t', '/', '>'] by decide)

end Quiet

/-! ### What the pattern matches -/

section Matching

open Pattern

variable {c : Cursor Char} {a more content rest : List Char}

theorem run_startTag (attributes : Attributes) (hahead : c.ahead = startTag attributes ++ more) :
    sharedText.run c (some : Cursor Char → Option (Cursor Char)) =
      afterTag.run (c.skip (startTag attributes) more) some := by
  have start : c.ahead = ['<', 't'] ++ (attributes.text ++ '>' :: more) := by
    simpa [startTag] using hahead
  rw [run_name start, run_afterName attributes rfl]
  congr 1
  simp [Cursor.skip, startTag]

theorem run_afterTag (hahead : c.ahead = content ++ (endTag ++ rest)) (unclosing : Unclosing content) :
    afterTag.run c (some : Cursor Char → Option (Cursor Char)) =
      some (((c.skip content (endTag ++ rest)).close c 1).skip endTag rest) := by
  have closing {c' : Cursor Char} {rest : List Char} (h : c'.ahead = endTag ++ rest) :
      (exactly "</t>").run c' (some : Cursor Char → Option (Cursor Char)) = some (c'.skip endTag rest) :=
    run_literal h
  refine run_few_first hahead (by simp) ?_ (closing rfl)
  intro passed x more' split
  exact run_literal_none (unclosing passed x more' (endTag ++ rest) split)

/-- An element is matched up to the first end tag. -/
theorem element_found (attributes : Attributes) (before rest : List Char) (unclosing : Unclosing content) :
    ∃ found, sharedText.matchHere before (startTag attributes ++ (content ++ (endTag ++ rest))) = some found ∧
      rawText found = content ∧ found.text ≠ [] ∧ found.stop.ahead = rest := by
  let start : Cursor Char := ⟨before, startTag attributes ++ (content ++ (endTag ++ rest)), []⟩
  let opened := start.skip (startTag attributes) (content ++ (endTag ++ rest))
  let stop := ((opened.skip content (endTag ++ rest)).close opened 1).skip endTag rest
  have hrun : sharedText.run start some = some stop :=
    (run_startTag attributes rfl).trans (run_afterTag rfl unclosing)
  refine ⟨⟨start, stop⟩, matchHere_of_run hrun, ?_, ?_, rfl⟩
  · show ([(1, (opened.skip content (endTag ++ rest)).since opened)].lookup 1).getD [] = content
    rw [Cursor.since_skip]
    rfl
  · have all : (Found.mk start stop).text = startTag attributes ++ (content ++ endTag) := by
      apply Found.text_eq
      simp [stop, opened, Cursor.skip, Cursor.close]
    rw [all]
    simp [startTag]

end Matching

/-! ### The pieces of a part -/

section Pieces

variable {pieces : List Piece} {before passed : List Char} {fuel : Nat}

/-- The element has an end tag. -/
def Piece.Filled : Piece → Prop
  | .filled .. => True
  | _ => False

/-- An element without content, taken for a start tag. -/
def slashed (attributes : Attributes) (nonempty : attributes.text ≠ []) : Attributes where
  text := attributes.text ++ ['/']
  blank := by
    intro c hc
    cases htext : attributes.text with
    | nil => exact absurd htext nonempty
    | cons d text =>
      rw [htext] at hc
      exact attributes.blank c (by rw [htext]; exact hc)
  inside := by simpa using attributes.inside

theorem startTag_slashed (attributes : Attributes) (nonempty : attributes.text ≠ []) :
    startTag (slashed attributes nonempty) = (Piece.hollow attributes).written := by
  simp [startTag, slashed, Piece.written]

theorem unclosing_startTag (attributes : Attributes) : Unclosing (startTag attributes) :=
  unclosing_tag (by simpa using attributes.inside.1)

theorem unclosing_pieces (h : ∀ piece ∈ pieces, ¬piece.Filled) : Unclosing (piecesWritten pieces) := by
  induction pieces with
  | nil => exact unclosing_of_noBracket (by simp [piecesWritten])
  | cons piece pieces ih =>
    rw [List.forall_mem_cons] at h
    rw [piecesWritten, List.flatMap_cons]
    apply Unclosing.append _ (ih h.2)
    cases piece with
    | markup m => exact unclosing_markup m
    | filled attributes content => exact absurd trivial h.1
    | hollow attributes => exact unclosing_tag (by simpa using attributes.inside.1)

theorem split_filled (pieces : List Piece) : (∀ piece ∈ pieces, ¬piece.Filled) ∨
    ∃ first attributes content rest, pieces = first ++ .filled attributes content :: rest ∧
      ∀ piece ∈ first, ¬piece.Filled := by
  induction pieces with
  | nil => exact .inl (by simp)
  | cons piece pieces ih =>
    by_cases hpiece : piece.Filled
    · cases piece with
      | filled attributes content => exact .inr ⟨[], attributes, content, pieces, rfl, by simp⟩
      | markup m => exact absurd hpiece id
      | hollow attributes => exact absurd hpiece id
    · rcases ih with none_filled | ⟨first, attributes, content, rest, rfl, hfirst⟩
      · exact .inl (List.forall_mem_cons.mpr ⟨hpiece, none_filled⟩)
      · exact .inr ⟨piece :: first, attributes, content, rest, rfl, List.forall_mem_cons.mpr ⟨hpiece, hfirst⟩⟩

theorem entries_some (first rest : List Piece) (h : ∀ piece ∈ first, ¬piece.Filled) :
    entries (some passed) (first ++ rest) = entries (some (passed ++ piecesWritten first)) rest := by
  induction first generalizing passed with
  | nil => simp [piecesWritten]
  | cons piece first ih =>
    rw [List.forall_mem_cons] at h
    have tail : entries (some (passed ++ piece.written)) (first ++ rest) =
        entries (some (passed ++ piece.written ++ piecesWritten first)) rest := ih h.2
    have glue : passed ++ piecesWritten (piece :: first) = passed ++ piece.written ++ piecesWritten first := by
      simp [piecesWritten]
    rw [glue, ← tail]
    cases piece with
    | markup m => rfl
    | filled attributes content => exact absurd trivial h.1
    | hollow attributes => rfl

theorem entries_some_none (h : ∀ piece ∈ pieces, ¬piece.Filled) : entries (some passed) pieces = [] := by
  have all : entries (some passed) (pieces ++ []) = entries (some (passed ++ piecesWritten pieces)) [] :=
    entries_some pieces [] h
  rw [List.append_nil] at all
  rw [all]
  rfl

theorem entries_none (h : ∀ piece ∈ pieces, ¬piece.Filled) : entries none pieces = [] := by
  induction pieces with
  | nil => rfl
  | cons piece pieces ih =>
    rw [List.forall_mem_cons] at h
    cases piece with
    | markup m => exact ih h.2
    | filled attributes content => exact absurd trivial h.1
    | hollow attributes =>
      rw [entries]
      split
      · exact ih h.2
      · exact entries_some_none h.2

/-- Nothing is found before an end tag. -/
theorem execFrom_unclosing {text : List Char} (unclosing : Unclosing text) :
    sharedText.execFrom before text = none := by
  by_contra some_
  obtain ⟨found, hfound⟩ := Option.ne_none_iff_exists'.mp some_
  obtain ⟨passed, rest, rfl, start, leads⟩ := Pattern.execFrom_eq_some hfound
  obtain ⟨c₁, name, c₂, attributes, c₃, bracket, c₄, content, closing⟩ := leads
  obtain ⟨t₁, h₁, -⟩ := name.spans
  obtain ⟨t₂, h₂, -⟩ := attributes.spans
  obtain ⟨t₃, h₃, -⟩ := bracket.spans
  obtain ⟨t₄, h₄, -⟩ := content.spans
  obtain ⟨tail, htail, -⟩ := Pattern.leads_literal closing
  have split : passed ++ rest = (passed ++ t₁ ++ t₂ ++ t₃ ++ t₄) ++ '<' :: (['/', 't', '>'] ++ tail) := by
    have h₅ : c₄.ahead = '<' :: (['/', 't', '>'] ++ tail) := htail
    rw [start] at h₁
    simp only at h₁
    rw [h₁, h₂, h₃, h₄, h₅]
    simp
  refine unclosing _ _ _ [] split ?_
  exact ⟨tail, by simp [endTag]⟩

/-- The matches of a part, as far as its pieces tell. -/
theorem matches_entries (enough : (piecesWritten pieces).length < fuel) :
    (sharedText.allFrom fuel before (piecesWritten pieces)).map rawText = entries none pieces := by
  induction hlength : pieces.length using Nat.strong_induction_on generalizing pieces before fuel with
  | _ n ih =>
    subst hlength
    obtain ⟨fuel, rfl⟩ : ∃ more, fuel = more + 1 := ⟨fuel - 1, by omega⟩
    -- An element and what comes after it.
    have element (attributes : Attributes) (content : List Char) (rest : List Piece)
        (unclosing : Unclosing content) (shorter : rest.length < pieces.length)
        (same : piecesWritten pieces = startTag attributes ++ (content ++ (endTag ++ piecesWritten rest))) :
        (sharedText.allFrom (fuel + 1) before (piecesWritten pieces)).map rawText =
          content :: entries none rest := by
      obtain ⟨found, here, raw, nonempty, after⟩ :=
        element_found attributes before (piecesWritten rest) unclosing
      have enough' : (piecesWritten rest).length < fuel := by
        rw [same] at enough
        simp only [List.length_append, endTag, List.length_cons] at enough
        omega
      rw [same, Pattern.allFrom_cons (Pattern.execFrom_here here) nonempty, List.map_cons, raw, after,
        ih rest.length shorter enough' rfl]
    -- A piece that the pattern passes over.
    have skipping (text : List Char) (rest : List Piece) (passed : Passed text)
        (shorter : rest.length < pieces.length) (same : piecesWritten pieces = text ++ piecesWritten rest) :
        (sharedText.allFrom (fuel + 1) before (piecesWritten pieces)).map rawText = entries none rest := by
      have skip : sharedText.execFrom before (text ++ piecesWritten rest) =
          sharedText.execFrom (text.reverse ++ before) (piecesWritten rest) :=
        Pattern.execFrom_skip fun a x b split => passed a x b (piecesWritten rest) _ split
      have step : sharedText.allFrom (fuel + 1) before (text ++ piecesWritten rest) =
          sharedText.allFrom (fuel + 1) (text.reverse ++ before) (piecesWritten rest) := by
        rw [Pattern.allFrom, skip, Pattern.allFrom]
      rw [same, List.length_append] at enough
      rw [same, step, ih rest.length shorter (by omega) rfl]
    cases pieces with
    | nil =>
      rw [Pattern.allFrom_none (execFrom_unclosing (unclosing_of_noBracket (by simp [piecesWritten])))]
      rfl
    | cons piece pieces =>
      cases piece with
      | markup m => exact skipping m.text pieces (passed_markup m) (by simp) rfl
      | filled attributes content =>
        exact element attributes (written content) pieces (unclosing_of_noBracket written_noBracket) (by simp)
          (by simp [piecesWritten, Piece.written])
      | hollow attributes =>
        rw [entries]
        split
        · rename_i bare
          exact skipping ['<', 't', '/', '>'] pieces passed_bare (by simp)
            (by simp [piecesWritten, Piece.written, bare])
        · rename_i nonempty
          rcases split_filled pieces with none_filled | ⟨first, attributes', content, rest, rfl, hfirst⟩
          · have unclosing : Unclosing (piecesWritten (.hollow attributes :: pieces)) :=
              unclosing_pieces (List.forall_mem_cons.mpr ⟨id, none_filled⟩)
            rw [Pattern.allFrom_none (execFrom_unclosing unclosing), entries_some_none none_filled]
            rfl
          · rw [entries_some first _ hfirst, List.nil_append]
            refine element (slashed attributes nonempty)
              (piecesWritten first ++ startTag attributes' ++ written content) rest ?_ ?_ ?_
            · exact ((unclosing_pieces hfirst).append (unclosing_startTag attributes')).append
                (unclosing_of_noBracket written_noBracket)
            · simp
              omega
            · rw [startTag_slashed]
              simp [piecesWritten, Piece.written]

end Pieces

/-! ### What is found -/

section Found

variable {pieces : List Piece}

/-- After an element that has attributes and no content, none has an end tag. -/
def HollowLast : List Piece → Prop
  | [] => True
  | .hollow attributes :: pieces =>
    (attributes.text ≠ [] → ∀ piece ∈ pieces, ¬piece.Filled) ∧ HollowLast pieces
  | _ :: pieces => HollowLast pieces

/-- Every character is written in a way that the decoder knows. -/
def AllKnown (pieces : List Piece) : Prop := ∀ content ∈ contents pieces, ∀ glyph ∈ content, glyph.Known

theorem contents_cons (piece : Piece) (pieces : List Piece) :
    contents (piece :: pieces) = contents [piece] ++ contents pieces := by
  cases piece <;> rfl

theorem contents_nil_of_hollow (h : ∀ piece ∈ pieces, ¬piece.Filled) : contents pieces = [] := by
  rw [contents, List.filterMap_eq_nil_iff]
  intro piece stored
  cases piece with
  | filled attributes content => exact absurd trivial (h _ stored)
  | markup m => rfl
  | hollow attributes => rfl

def totalLength (texts : List (List Char)) : Nat := texts.flatten.length

theorem totalLength_cons (text : List Char) (texts : List (List Char)) :
    totalLength (text :: texts) = text.length + totalLength texts := by
  simp [totalLength]

/-- What is found is at least as long as the texts, and longer if anything is wrong. -/
theorem entries_length (carry : Option (List Char)) (pieces : List Piece) :
    totalLength ((contents pieces).map textOf) ≤ totalLength ((entries carry pieces).map decodeXml) ∧
      (totalLength ((entries carry pieces).map decodeXml) ≤ totalLength ((contents pieces).map textOf) →
        (carry.isSome → ∀ piece ∈ pieces, ¬piece.Filled) ∧ AllKnown pieces ∧ HollowLast pieces) := by
  induction pieces generalizing carry with
  | nil => cases carry <;> simp [contents, entries, AllKnown, HollowLast]
  | cons piece pieces ih =>
    cases piece with
    | markup m =>
      cases carry with
      | none =>
        obtain ⟨least, clean⟩ := ih none
        refine ⟨least, fun most => ?_⟩
        obtain ⟨-, known, last⟩ := clean most
        exact ⟨by simp, known, last⟩
      | some passed =>
        obtain ⟨least, clean⟩ := ih (some (passed ++ m.text))
        refine ⟨least, fun most => ?_⟩
        obtain ⟨quiet, known, last⟩ := clean most
        exact ⟨fun _ => List.forall_mem_cons.mpr ⟨id, quiet rfl⟩, known, last⟩
    | hollow attributes =>
      cases carry with
      | none =>
        obtain ⟨least, clean⟩ := ih (if attributes.text = [] then none else some [])
        refine ⟨least, fun most => ?_⟩
        obtain ⟨quiet, known, last⟩ := clean most
        refine ⟨by simp, known, fun nonempty => quiet ?_, last⟩
        rw [if_neg nonempty]
        rfl
      | some passed =>
        obtain ⟨least, clean⟩ := ih (some (passed ++ (Piece.hollow attributes).written))
        refine ⟨least, fun most => ?_⟩
        obtain ⟨quiet, known, last⟩ := clean most
        exact ⟨fun _ => List.forall_mem_cons.mpr ⟨id, quiet rfl⟩, known, fun _ => quiet rfl, last⟩
    | filled attributes content =>
      obtain ⟨least, clean⟩ := ih none
      have decoded := decodeXml_length content
      cases carry with
      | none =>
        simp only [contents, List.filterMap_cons, entries, List.map_cons, totalLength_cons] at least clean ⊢
        refine ⟨by omega, fun most => ?_⟩
        obtain ⟨-, known, last⟩ := clean (by omega)
        refine ⟨by simp, ?_, last⟩
        intro content' stored glyph hglyph
        rcases List.mem_cons.mp stored with rfl | stored
        · by_contra unknown
          have longer := decodeXml_longer ⟨glyph, hglyph, unknown⟩
          omega
        · exact known content' stored glyph hglyph
      | some passed =>
        have tag : passed ++ startTag attributes ++ written content =
            (passed ++ '<' :: 't' :: attributes.text) ++ '>' :: written content := by
          simp [startTag]
        simp only [contents, List.filterMap_cons, entries, List.map_cons, totalLength_cons] at least ⊢
        rw [tag, decodeXml_tag, List.length_append, List.length_cons]
        exact ⟨by omega, fun most => by omega⟩

/-- Nothing being wrong, what is found is the texts. -/
theorem entries_clean (known : AllKnown pieces) (last : HollowLast pieces) :
    (entries none pieces).map decodeXml = (contents pieces).map textOf := by
  induction pieces with
  | nil => rfl
  | cons piece pieces ih =>
    cases piece with
    | markup m => exact ih known last
    | filled attributes content =>
      have first : decodeXml (written content) = textOf content :=
        decodeXml_known (known content (by simp [contents]))
      have rest : AllKnown pieces := fun content' stored => known content' (by
        rw [contents_cons]
        exact List.mem_append_right _ stored)
      show decodeXml (written content) :: (entries none pieces).map decodeXml = _
      rw [first, ih rest last]
      rfl
    | hollow attributes =>
      rw [entries]
      split
      · exact ih known last.2
      · rename_i nonempty
        rw [entries_some_none (last.1 nonempty), contents, List.filterMap_cons, ← contents,
          contents_nil_of_hollow (last.1 nonempty)]
        rfl

end Found

/-! ### The table -/

section Table

variable {part : SharedStrings}

/-- The decoder finds the texts of the items in their places: no element without content but with
attributes stands before one with an end tag, no character is written as a number, and each element
that has a text has as many elements with end tags before it as its item has items before it. -/
structure Readable (part : SharedStrings) : Prop where
  last : HollowLast part.pieces
  known : AllKnown part.pieces
  aligned : Aligned (part.items.map StringItem.texts)

theorem text_eq (item : StringItem) : item.text = item.texts.flatten := by
  rw [StringItem.text, StringItem.texts, contents]
  induction item with
  | nil => rfl
  | cons piece item ih => cases piece <;> simp [Piece.text, ih]

theorem contents_append (a b : List Piece) : contents (a ++ b) = contents a ++ contents b :=
  List.filterMap_append ..

theorem contents_pieces (part : SharedStrings) :
    (contents part.pieces).map textOf = (part.items.map StringItem.texts).flatten := by
  have inner : (contents part.pieces) = contents part.items.flatten := by
    rw [SharedStrings.pieces, contents_cons, contents_append]
    simp [contents]
  rw [inner]
  generalize part.items = items
  induction items with
  | nil => rfl
  | cons item items ih =>
    rw [List.flatten_cons, contents_append, List.map_append, ih]
    rfl

theorem parseSharedStrings_written (part : SharedStrings) : parseSharedStrings (some part.written) =
    ((entries none part.pieces).map decodeXml).map String.ofList := by
  have all : (sharedText.allFrom ((piecesWritten part.pieces).length + 1) []
      (piecesWritten part.pieces)).map rawText = entries none part.pieces :=
    matches_entries (Nat.lt_succ_self _)
  rw [← all, List.map_map, List.map_map, parseSharedStrings, SharedStrings.written, String.toList_ofList]
  rfl

end Table

/-- The table has the full text of each item in its place exactly if the part is readable. -/
theorem parseSharedStrings_iff (part : SharedStrings) :
    parseSharedStrings (some part.written) = part.items.map (fun item => String.ofList item.text) ↔
      Readable part := by
  have texts : part.items.map (fun item => String.ofList item.text) =
      ((part.items.map StringItem.texts).map List.flatten).map String.ofList := by
    rw [List.map_map, List.map_map]
    exact List.map_congr_left fun item _ => congrArg String.ofList (text_eq item)
  have strings : Function.Injective (List.map String.ofList) :=
    List.map_injective_iff.mpr fun _ _ same => String.ofList_injective same
  rw [parseSharedStrings_written, texts, strings.eq_iff]
  constructor
  · intro same
    have most : totalLength ((entries none part.pieces).map decodeXml) ≤
        totalLength ((contents part.pieces).map textOf) := by
      rw [same, contents_pieces, totalLength, totalLength, List.flatten_flatten]
    obtain ⟨-, known, last⟩ := (entries_length none part.pieces).2 most
    rw [entries_clean known last, contents_pieces] at same
    exact ⟨last, known, Aligned.of_eq same⟩
  · intro readable
    rw [entries_clean readable.known readable.last, contents_pieces]
    exact readable.aligned.eq

def bareAttributes : Attributes := ⟨[], by simp, by simp⟩

def letterElement (c : Char) (h : c ≠ '<' ∧ c ≠ '&') : Piece := .filled bareAttributes [.plain c h]

/-- Three items, of which the second is in two runs. -/
def richStrings : SharedStrings where
  opening := ⟨"<sst>".toList, by decide⟩
  items :=
    [[.markup ⟨"<si>".toList, by decide⟩, letterElement 'A' (by decide), .markup ⟨"</si>".toList, by decide⟩],
      [.markup ⟨"<si><r>".toList, by decide⟩, letterElement 'B' (by decide),
        .markup ⟨"</r><r>".toList, by decide⟩, letterElement 'C' (by decide),
        .markup ⟨"</r></si>".toList, by decide⟩],
      [.markup ⟨"<si>".toList, by decide⟩, letterElement 'D' (by decide), .markup ⟨"</si>".toList, by decide⟩]]
  closing := ⟨"</sst>".toList, by decide⟩

/-- The second run takes the place of the third item. -/
theorem parseSharedStrings_rich :
    richStrings.written =
        "<sst><si><t>A</t></si><si><r><t>B</t></r><r><t>C</t></r></si><si><t>D</t></si></sst>" ∧
      richStrings.items.map (fun item => String.ofList item.text) = ["A", "BC", "D"] ∧
      parseSharedStrings (some richStrings.written) = ["A", "B", "C", "D"] ∧
      parseSharedStrings (some richStrings.written) ≠
        richStrings.items.map fun item => String.ofList item.text := by
  have text : richStrings.written =
      "<sst><si><t>A</t></si><si><r><t>B</t></r><r><t>C</t></r></si><si><t>D</t></si></sst>" := by
    decide +kernel
  have items : richStrings.items.map (fun item => String.ofList item.text) = ["A", "BC", "D"] := by
    decide +kernel
  have table : parseSharedStrings (some richStrings.written) = ["A", "B", "C", "D"] := by
    rw [parseSharedStrings_written]
    decide +kernel
  refine ⟨text, items, table, ?_⟩
  rw [table, items]
  decide

end Finverse.Workbook
