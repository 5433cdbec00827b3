import Finverse.Statements.Drafts

/-! Elements cut out of a text by their tags. -/

namespace Finverse.Workbook

open Categorization (isWord)
open Pattern
open Statements.Text (TextPattern boundary exactly)

/-- The name of an element. -/
structure TagName where
  text : List Char
  nonempty : text ≠ []
  word : ∀ c ∈ text, isWord c = true

def tagStart (name : TagName) : List Char := '<' :: name.text

def openTag (name : TagName) (tag : List Char) : List Char := tagStart name ++ (tag ++ ['>'])

def closeTag (name : TagName) : List Char := '<' :: '/' :: (name.text ++ ['>'])

/-- `<name\b[^>]*>[\s\S]*?</name>` -/
def elementPattern (name : TagName) : TextPattern :=
  Pattern.all [literal (· == ·) (tagStart name), boundary, many (· ≠ '>') 0 none, exactly ">",
    few (fun _ => true) 0, literal (· == ·) (closeTag name)]

def isXmlBlank (c : Char) : Bool := c = ' ' || c = '\t' || c = '\n' || c = '\r'

/-- What a tag may have after its name. -/
structure TagRest (tag : List Char) : Prop where
  named : ∀ c ∈ tag.head?, isWord c = false
  noBracket : '<' ∉ tag ∧ '>' ∉ tag

/-- An element: what its tag has after the name, what stands before its end tag if it has one, and
the blanks after it. -/
structure Element (name : TagName) where
  tag : List Char
  content : Option (List Char)
  gap : List Char
  rest : TagRest tag
  closed : ∀ text ∈ content, NoStart (closeTag name) text
  blank : ∀ c ∈ gap, isXmlBlank c = true

namespace Element

variable {name : TagName}

def text (element : Element name) : List Char :=
  match element.content with
  | some content => openTag name element.tag ++ (content ++ closeTag name)
  | none => openTag name (element.tag ++ ['/'])

def written (element : Element name) : List Char := element.text ++ element.gap

end Element

/-! ### Runs -/

/-- Elements without an end tag, and the one with an end tag after them. -/
structure Run (α : Type) where
  hollow : List α
  last : α

/-- The runs of a list of elements; those without an end tag at its end belong to none. -/
def runs {α : Type} (filled : α → Bool) : List α → List α → List (Run α)
  | _, [] => []
  | hollow, element :: elements =>
    if filled element then ⟨hollow, element⟩ :: runs filled [] elements
    else runs filled (hollow ++ [element]) elements

section Runs

variable {α : Type} {filled : α → Bool} {hollow elements : List α}

theorem mem_runs {run : Run α} (quiet : ∀ a ∈ hollow, filled a = false) (h : run ∈ runs filled hollow elements) :
    (∀ a ∈ run.hollow, filled a = false) ∧ filled run.last = true := by
  induction elements generalizing hollow with
  | nil => cases h
  | cons a elements ih =>
    rw [runs] at h
    split at h
    · rename_i ha
      rcases List.mem_cons.mp h with rfl | h
      · exact ⟨quiet, ha⟩
      · exact ih (by simp) h
    · rename_i ha
      refine ih ?_ h
      intro b stored
      rcases List.mem_append.mp stored with stored | stored
      · exact quiet b stored
      · obtain rfl := List.mem_singleton.mp stored
        simpa using ha

theorem runs_last (hollow elements : List α) : (runs filled hollow elements).map Run.last = elements.filter filled := by
  induction elements generalizing hollow with
  | nil => rfl
  | cons a elements ih =>
    rw [runs]
    split
    · rename_i ha
      rw [List.map_cons, ih, List.filter_cons_of_pos ha]
    · rename_i ha
      rw [ih, List.filter_cons_of_neg ha]

end Runs

namespace Element

variable {name : TagName} {α : Type}

/-- The text of a run, up to its end tag. -/
def runText (element : α → Element name) (run : Run α) : List Char :=
  run.hollow.flatMap (fun a => (element a).written) ++ (element run.last).text

def isFilled (element : Element name) : Bool := element.content.isSome

end Element

/-! ### Tags -/

section Tags

variable {name : TagName} {c c' : Cursor Char} {u v tag content rest : List Char}

/-- No tag of the element stands in it, whatever comes after it. -/
def Untagged (name : TagName) (u : List Char) : Prop :=
  ∀ c, isWord c = false → NoStart (tagStart name ++ [c]) u

theorem Untagged.append (hu : Untagged name u) (hv : Untagged name v) : Untagged name (u ++ v) :=
  fun c hc => (hu c hc).append (hv c hc)

theorem untagged_of_noBracket (h : '<' ∉ u) : Untagged name u := fun _ _ => noStart_of_not_mem h

theorem untagged_of_startsIn (h : startsIn (tagStart name) u = false) : Untagged name u :=
  fun c _ => (noStart_of_startsIn h).longer [c]

theorem not_blank_bracket (h : ∀ c ∈ u, isXmlBlank c = true) : '<' ∉ u := by
  intro stored
  have := h _ stored
  simp [isXmlBlank] at this

/-- After the name, the place is behind a word. -/
theorem head_word (name : TagName) : ((tagStart name).reverse ++ u).head?.any isWord = true := by
  have ne := List.reverse_ne_nil_iff.mpr name.nonempty
  obtain ⟨last, front, hlast⟩ := List.exists_cons_of_ne_nil ne
  have stored : last ∈ name.text := List.mem_reverse.mp (by simp [hlast])
  simp [tagStart, hlast, name.word last stored]

/-- The pattern begins at a tag. -/
theorem leads_start (h : (elementPattern name).Leads c c') :
    ∃ x, isWord x = false ∧ tagStart name ++ [x] <+: c.ahead := by
  obtain ⟨c₁, start, c₂, ⟨differ, rfl⟩, c₃, ⟨text, rest, hahead, -, -, -, rfl⟩, c₄, bracket, -⟩ := h
  obtain ⟨more, hstart, rfl⟩ := leads_literal start
  obtain ⟨after, hafter, -⟩ := leads_literal bracket
  have hmore : more = text ++ '>' :: after := by
    have hrest : rest = '>' :: after := hafter
    rw [← hrest]
    exact hahead
  have next : more.head?.any isWord = false := by
    have behind : ((tagStart name).reverse ++ c.before).head?.any isWord = true := head_word name
    exact Bool.eq_false_iff.mpr fun ahead => differ (behind.trans ahead.symm)
  obtain ⟨x, tail, hx⟩ : ∃ x tail, more = x :: tail := by
    cases text with
    | nil => exact ⟨_, _, hmore⟩
    | cons x text => exact ⟨_, _, hmore⟩
  refine ⟨x, by simpa [hx] using next, tail, ?_⟩
  rw [hstart, hx, List.append_assoc]
  rfl

/-- The pattern ends after an end tag. -/
theorem leads_close (h : (elementPattern name).Leads c c') :
    ∃ passed rest, c.ahead = passed ++ (closeTag name ++ rest) := by
  obtain ⟨c₁, start, c₂, edge, c₃, tag, c₄, bracket, c₅, content, closing⟩ := h
  obtain ⟨t₁, h₁, -⟩ := start.spans
  obtain ⟨t₂, h₂, -⟩ := edge.spans
  obtain ⟨t₃, h₃, -⟩ := tag.spans
  obtain ⟨t₄, h₄, -⟩ := bracket.spans
  obtain ⟨t₅, h₅, -⟩ := content.spans
  obtain ⟨rest, hclose, -⟩ := leads_literal closing
  exact ⟨t₁ ++ t₂ ++ t₃ ++ t₄ ++ t₅, rest, by rw [h₁, h₂, h₃, h₄, h₅, hclose]; simp⟩

theorem matchHere_untagged (h : Untagged name u) {passed more before : List Char} {x : Char}
    (split : u = passed ++ x :: more) :
    (elementPattern name).matchHere before (x :: (more ++ rest)) = none := by
  by_contra found
  obtain ⟨stop, hstop⟩ := Option.ne_none_iff_exists'.mp found
  rw [matchHere, Option.map_eq_some_iff] at hstop
  obtain ⟨c', hrun, -⟩ := hstop
  obtain ⟨c'', leads, -⟩ := run_eq_some hrun
  obtain ⟨y, hy, hprefix⟩ := leads_start leads
  exact h y hy passed x more rest split hprefix

theorem execFrom_untagged {before : List Char} (h : Untagged name u) :
    (elementPattern name).execFrom before (u ++ rest) =
      (elementPattern name).execFrom (u.reverse ++ before) rest :=
  execFrom_skip fun _ _ _ split => matchHere_untagged h split

theorem execFrom_unclosed {before : List Char} (h : NoStart (closeTag name) u) :
    (elementPattern name).execFrom before u = none := by
  by_contra found
  obtain ⟨stop, hstop⟩ := Option.ne_none_iff_exists'.mp found
  obtain ⟨passed, rest, rfl, start, leads⟩ := execFrom_eq_some hstop
  obtain ⟨more, tail, hclose⟩ := leads_close leads
  rw [start] at hclose
  simp only at hclose
  refine h (passed ++ more) '<' ('/' :: (name.text ++ ['>']) ++ tail) [] ?_ ⟨tail, ?_⟩
  · rw [hclose]
    simp [closeTag]
  · simp [closeTag]

theorem run_boundary {k : Cursor Char → Option (Cursor Char)}
    (h : c.before.head?.any isWord ≠ c.ahead.head?.any isWord) : boundary.run c k = k c := if_pos h

theorem run_close {k : Cursor Char → Option (Cursor Char)} (hahead : c.ahead = '>' :: rest) :
    (exactly ">").run c k = k (c.skip ['>'] rest) := run_literal hahead

theorem run_close_none {k : Cursor Char → Option (Cursor Char)} (h : c.ahead.head? ≠ some '>') :
    (exactly ">").run c k = none := by
  apply run_literal_none
  rintro ⟨more, hmore⟩
  rw [← hmore] at h
  simp at h

/-- The pattern has one way over a tag, and then goes on to the first end tag. -/
theorem run_element (hahead : c.ahead = openTag name tag ++ (content ++ (closeTag name ++ rest)))
    (htag : TagRest tag) (closed : NoStart (closeTag name) content) :
    (elementPattern name).run c some =
      some (c.skip (openTag name tag ++ (content ++ closeTag name)) rest) := by
  let inner := content ++ (closeTag name ++ rest)
  let named := c.skip (tagStart name) (tag ++ '>' :: inner)
  let opened := (named.skip tag ('>' :: inner)).skip ['>'] inner
  have start : c.ahead = tagStart name ++ (tag ++ '>' :: inner) := by
    rw [hahead, openTag]
    simp [inner]
  have edge : named.before.head?.any isWord ≠ named.ahead.head?.any isWord := by
    have behind : named.before.head?.any isWord = true := head_word name
    have ahead : named.ahead.head?.any isWord = false := by
      show (tag ++ '>' :: inner).head?.any isWord = false
      cases htext : tag with
      | nil => rfl
      | cons x tag => simpa [htext] using htag.named
    rw [behind, ahead]
    decide
  have bracketless : ∀ x ∈ tag, decide (x ≠ '>') = true := by
    intro x hx
    rw [decide_eq_true_eq]
    rintro rfl
    exact htag.noBracket.2 hx
  have closing : (literal (· == ·) (closeTag name)).run (opened.skip content (closeTag name ++ rest))
      (some : Cursor Char → Option (Cursor Char)) =
        some ((opened.skip content (closeTag name ++ rest)).skip (closeTag name) rest) :=
    run_literal rfl
  have inside : (few (fun _ => true) 0).run opened (fun c => (literal (· == ·) (closeTag name)).run c some) =
      some ((opened.skip content (closeTag name ++ rest)).skip (closeTag name) rest) :=
    run_few_first rfl (by simp)
      (fun passed x more split => run_literal_none (closed passed x more (closeTag name ++ rest) split)) closing
  show (literal (· == ·) (tagStart name)).run c (fun c => boundary.run c fun c =>
    (many (· ≠ '>') 0 none).run c fun c => (exactly ">").run c fun c =>
      (few (fun _ => true) 0).run c fun c => (literal (· == ·) (closeTag name)).run c some) = _
  rw [run_literal start, run_boundary edge, run_many_all rfl bracketless (by simp), run_close rfl]
  · rw [inside]
    simp [opened, named, Cursor.skip, openTag]
  · intro c' x more hmore hx
    apply run_close_none
    rw [hmore]
    simpa using hx

end Tags

/-! ### What is found -/

section Found

variable {name : TagName} {α : Type} {element : α → Element name} {a : α} {hollow items : List α}
  {tag after before : List Char} {fuel : Nat}

/-- What begins with another sign than the name does not start in a tag. -/
theorem noStart_openTag {second : Char} {more : List Char} (other : second ∉ name.text.head?)
    (bracket : second ≠ '<') (htag : '<' ∉ tag) : NoStart ('<' :: second :: more) (openTag name tag) := by
  obtain ⟨first, text, hname⟩ := List.exists_cons_of_ne_nil name.nonempty
  have notBracket : first ≠ '<' := by
    rintro rfl
    exact absurd (name.word '<' (by simp [hname])) (by decide)
  have notSecond : second ≠ first := by
    rintro rfl
    exact other (by simp [hname])
  have start : NoStart ('<' :: second :: more) (['<'] ++ [first]) :=
    noStart_of_second (by simp [notSecond, bracket]) notBracket
  have name_word : '<' ∉ text := by
    intro stored
    exact absurd (name.word '<' (by simp [hname, stored])) (by decide)
  have split : openTag name tag = (['<'] ++ [first]) ++ (text ++ (tag ++ ['>'])) := by
    simp [openTag, tagStart, hname]
  rw [split]
  refine start.append (noStart_of_not_mem ?_)
  simp [name_word, htag]

/-- No end tag starts in a tag. -/
theorem noStart_closeTag (name other : TagName) (tag : List Char) (htag : TagRest tag) :
    NoStart (closeTag other) (openTag name tag) := by
  refine noStart_openTag ?_ (by decide) htag.noBracket.1
  intro stored
  exact absurd (name.word '/' (List.mem_of_mem_head? stored)) (by decide)

theorem TagRest.slashed (htag : TagRest tag) : TagRest (tag ++ ['/']) := by
  refine ⟨?_, ?_⟩
  · cases tag with
    | nil =>
      intro c stored
      obtain rfl : '/' = c := by simpa using stored
      decide
    | cons c tag => exact htag.named
  · simp [htag.noBracket]

theorem noBracket_gap (e : Element name) : '<' ∉ e.gap := not_blank_bracket e.blank

/-- An element without an end tag ends no other. -/
theorem noStart_hollow (e : Element name) (h : e.isFilled = false) : NoStart (closeTag name) e.written := by
  have content : e.content = none := by simpa [Element.isFilled] using h
  rw [Element.written, Element.text, content]
  exact (noStart_closeTag name name _ e.rest.slashed).append (noStart_of_not_mem (noBracket_gap e))

/-- A run looks like one element. -/
theorem runText_element (run : Run α) (quiet : ∀ a ∈ run.hollow, (element a).isFilled = false)
    (filled : (element run.last).isFilled = true) :
    ∃ tag content, Element.runText element run = openTag name tag ++ (content ++ closeTag name) ∧
      TagRest tag ∧ NoStart (closeTag name) content := by
  obtain ⟨text, htext⟩ := Option.isSome_iff_exists.mp filled
  have closed := (element run.last).closed text htext
  have last : (element run.last).text = openTag name (element run.last).tag ++ (text ++ closeTag name) := by
    rw [Element.text, htext]
  cases hhollow : run.hollow with
  | nil => exact ⟨_, text, by simp [Element.runText, hhollow, last], (element run.last).rest, closed⟩
  | cons a more =>
    rw [hhollow, List.forall_mem_cons] at quiet
    have content : (element a).content = none := by simpa [Element.isFilled] using quiet.1
    have first : (element a).text = openTag name ((element a).tag ++ ['/']) := by rw [Element.text, content]
    refine ⟨_, (element a).gap ++ (more.flatMap (fun a => (element a).written) ++
      (openTag name (element run.last).tag ++ text)), ?_, (element a).rest.slashed, ?_⟩
    · simp [Element.runText, hhollow, Element.written, first, last]
    · refine (noStart_of_not_mem (noBracket_gap _)).append ((noStart_flatMap ?_).append ?_)
      · exact fun a stored => noStart_hollow _ (quiet.2 a stored)
      · exact (noStart_closeTag name name _ (element run.last).rest).append closed

/-- A run is found as one match. -/
theorem run_found (run : Run α) (quiet : ∀ a ∈ run.hollow, (element a).isFilled = false)
    (filled : (element run.last).isFilled = true) (before rest : List Char) :
    ∃ found, (elementPattern name).execFrom before (Element.runText element run ++ rest) = some found ∧
      found.text = Element.runText element run ∧ found.stop.ahead = rest ∧ found.text ≠ [] := by
  obtain ⟨tag, content, htext, htag, closed⟩ := runText_element run quiet filled
  let start : Cursor Char := ⟨before, Element.runText element run ++ rest, []⟩
  have hrun : (elementPattern name).run start some =
      some (start.skip (openTag name tag ++ (content ++ closeTag name)) rest) := by
    apply run_element ?_ htag closed
    show Element.runText element run ++ rest = _
    rw [htext]
    simp
  have whole : (Found.mk start (start.skip (openTag name tag ++ (content ++ closeTag name)) rest)).text =
      Element.runText element run := by
    rw [htext]
    exact Found.text_eq rfl
  refine ⟨_, execFrom_here (matchHere_of_run hrun), whole, rfl, ?_⟩
  rw [whole, htext]
  simp [openTag, tagStart]

theorem allFrom_untagged {u rest : List Char} (h : Untagged name u) :
    (elementPattern name).allFrom fuel before (u ++ rest) =
      (elementPattern name).allFrom fuel (u.reverse ++ before) rest := by
  cases fuel with
  | zero => rfl
  | succ fuel => rw [allFrom, execFrom_untagged h, allFrom]

/-- The matches are the runs. -/
theorem allFrom_runs (quiet : ∀ a ∈ hollow, (element a).isFilled = false)
    (unclosed : NoStart (closeTag name) after)
    (enough : ((hollow ++ items).flatMap (fun a => (element a).written) ++ after).length < fuel) :
    ((elementPattern name).allFrom fuel before
        ((hollow ++ items).flatMap (fun a => (element a).written) ++ after)).map Found.text =
      (runs (fun a => (element a).isFilled) hollow items).map (Element.runText element) := by
  induction items generalizing hollow before fuel with
  | nil =>
    have nothing : NoStart (closeTag name)
        ((hollow ++ []).flatMap (fun a => (element a).written) ++ after) := by
      rw [List.append_nil]
      exact (noStart_flatMap fun a stored => noStart_hollow _ (quiet a stored)).append unclosed
    rw [allFrom_none (execFrom_unclosed nothing)]
    rfl
  | cons a items ih =>
    rw [runs]
    split
    · rename_i filled
      obtain ⟨fuel, rfl⟩ : ∃ more, fuel = more + 1 := ⟨fuel - 1, by omega⟩
      let rest := (element a).gap ++ (items.flatMap (fun a => (element a).written) ++ after)
      have split : (hollow ++ a :: items).flatMap (fun a => (element a).written) ++ after =
          Element.runText element ⟨hollow, a⟩ ++ rest := by
        simp [Element.runText, Element.written, rest]
      obtain ⟨found, here, text, ahead, nonempty⟩ := run_found ⟨hollow, a⟩ quiet filled before rest
      have shorter : (([] ++ items).flatMap (fun a => (element a).written) ++ after).length < fuel := by
        have positive : 0 < (Element.runText element ⟨hollow, a⟩).length := by
          rw [← text]
          exact List.length_pos_iff.mpr nonempty
        rw [split, List.length_append] at enough
        simp only [rest, List.length_append, List.nil_append] at enough ⊢
        omega
      rw [split, allFrom_cons here nonempty, List.map_cons, List.map_cons, text, ahead,
        allFrom_untagged (untagged_of_noBracket (noBracket_gap (element a)))]
      exact congrArg _ (ih (by simp) shorter)
    · rename_i empty
      have quiet' : ∀ b ∈ hollow ++ [a], (element b).isFilled = false := by
        intro b stored
        rcases List.mem_append.mp stored with stored | stored
        · exact quiet b stored
        · obtain rfl := List.mem_singleton.mp stored
          simpa using empty
      have same : hollow ++ a :: items = (hollow ++ [a]) ++ items := by simp
      rw [same] at enough ⊢
      exact ih quiet' enough

/-- The texts of the matches are the texts of the runs, in a text that has the elements between two
others without such elements. -/
theorem matchAll_runs {opening : List Char} (open_ : Untagged name opening)
    (unclosed : NoStart (closeTag name) after) :
    ((elementPattern name).matchAll
        (opening ++ (items.flatMap (fun a => (element a).written) ++ after))).map Found.text =
      (runs (fun a => (element a).isFilled) [] items).map (Element.runText element) := by
  rw [matchAll, allFrom_untagged open_]
  refine allFrom_runs (fun a stored => absurd stored List.not_mem_nil) unclosed ?_
  simp only [List.nil_append, List.length_append]
  omega

end Found

end Finverse.Workbook
