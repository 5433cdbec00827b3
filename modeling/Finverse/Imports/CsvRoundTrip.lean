import Finverse.Imports.CsvParse
import Finverse.Imports.TransactionsCsv
import Mathlib.Data.List.TakeWhile

/-! Text whose fields are all written in quotes, and what the parser reads back. -/

namespace Finverse.Imports

open Auth (trim)

inductive LineEnding
  | lf
  | crlf
  | cr
  deriving DecidableEq, Repr

def LineEnding.chars : LineEnding → List Char
  | .lf => ['\n']
  | .crlf => ['\r', '\n']
  | .cr => ['\r']

def encodeRow (delimiter : Char) (cells : List String) : List Char :=
  [delimiter].intercalate (cells.map enclosed)

/-- Lines, of which the last may be ended or not. -/
def joined (ending : LineEnding) (ended : Bool) (lines : List (List Char)) : List Char :=
  ending.chars.intercalate lines ++ if ended then ending.chars else []

/-- A table with every field in quotes. -/
def encodeTable (delimiter : Char) (ending : LineEnding) (ended : Bool)
    (rows : List (List String)) : String :=
  String.ofList (joined ending ended (rows.map (encodeRow delimiter)))

/-! ### Fields -/

section Fields

variable {delimiter : Char} {current rest : List Char}

/-- What follows a field is no quote. -/
def Unquoted (rest : List Char) : Prop := rest.head? ≠ some '"'

theorem splitFrom_open :
    splitFrom delimiter current false ('"' :: rest) = splitFrom delimiter current true rest := by
  simp [splitFrom]

theorem splitFrom_close (h : Unquoted rest) :
    splitFrom delimiter current true ('"' :: rest) = splitFrom delimiter current false rest := by
  cases rest with
  | nil => simp [splitFrom]
  | cons c rest =>
    have hc : c ≠ '"' := by simpa [Unquoted] using h
    rw [splitFrom]
    · simp
    · intro rest' _ _ heq
      exact hc (List.cons.inj heq).1

theorem splitFrom_inside {c : Char} (hc : c ≠ '"') :
    splitFrom delimiter current true (c :: rest) =
      splitFrom delimiter (current ++ [c]) true rest := by
  rw [splitFrom]
  · simp [hc]
  · intro rest' _ heq
    exact absurd heq hc

theorem splitFrom_delimiter (hd : delimiter ≠ '"') :
    splitFrom delimiter current false (delimiter :: rest) =
      current :: splitFrom delimiter [] false rest := by
  rw [splitFrom]
  · simp [hd]
  · simp

/-- The content of a field, up to its closing quote. -/
theorem splitFrom_doubled (content : List Char) (h : Unquoted rest) :
    splitFrom delimiter current true (doubled content ++ '"' :: rest) =
      splitFrom delimiter (current ++ content) false rest := by
  induction content generalizing current with
  | nil => simpa [doubled] using splitFrom_close h
  | cons c content ih =>
    by_cases hc : c = '"'
    · subst hc
      have step : doubled ('"' :: content) ++ '"' :: rest =
          '"' :: '"' :: (doubled content ++ '"' :: rest) := by simp [doubled]
      rw [step, splitFrom, ih]
      simp
    · have step : doubled (c :: content) ++ '"' :: rest = c :: (doubled content ++ '"' :: rest) := by
        simp [doubled, hc]
      rw [step, splitFrom_inside hc, ih]
      simp

theorem splitFrom_enclosed (field : String) (h : Unquoted rest) :
    splitFrom delimiter [] false (enclosed field ++ rest) =
      splitFrom delimiter field.toList false rest := by
  have step : enclosed field ++ rest = '"' :: (doubled field.toList ++ '"' :: rest) := by
    simp [enclosed]
  rw [step, splitFrom_open, splitFrom_doubled _ h]
  rfl

theorem encodeRow_cons (field next : String) (fields : List String) :
    encodeRow delimiter (field :: next :: fields) =
      enclosed field ++ delimiter :: encodeRow delimiter (next :: fields) := by
  simp [encodeRow, List.intercalate]

/-- A line is split into the fields that were written. -/
theorem splitLine_encodeRow (hd : delimiter ≠ '"') (field : String) (fields : List String) :
    splitLine (encodeRow delimiter (field :: fields)) delimiter =
      (field :: fields).map String.toList := by
  induction fields generalizing field with
  | nil =>
    have single : encodeRow delimiter [field] = enclosed field ++ [] := by
      simp [encodeRow, List.intercalate]
    rw [splitLine, single, splitFrom_enclosed field (by simp [Unquoted]), splitFrom]
    rfl
  | cons next fields ih =>
    have unquoted : Unquoted (delimiter :: encodeRow delimiter (next :: fields)) := by
      simpa [Unquoted] using hd
    rw [splitLine, encodeRow_cons, splitFrom_enclosed field unquoted, splitFrom_delimiter hd]
    exact congrArg (field.toList :: ·) (ih next)

end Fields

/-! ### Records -/

section Records

variable {delimiter : Char} {current rest : List Char}

theorem recordsFrom_open :
    recordsFrom current false ('"' :: rest) = recordsFrom (current ++ ['"']) true rest := by
  simp [recordsFrom]

theorem recordsFrom_close (h : Unquoted rest) :
    recordsFrom current true ('"' :: rest) = recordsFrom (current ++ ['"']) false rest := by
  cases rest with
  | nil => simp [recordsFrom]
  | cons c rest =>
    have hc : c ≠ '"' := by simpa [Unquoted] using h
    rw [recordsFrom]
    · simp
    · intro rest' _ _ heq
      exact hc (List.cons.inj heq).1
    · intro rest' h
      cases h

theorem recordsFrom_inside {c : Char} (hc : c ≠ '"') :
    recordsFrom current true (c :: rest) = recordsFrom (current ++ [c]) true rest := by
  rw [recordsFrom]
  · simp [hc]
  · intro rest' _ heq
    exact absurd heq hc
  · intro rest' h
    cases h

theorem recordsFrom_outside {c : Char} (hc : c ≠ '"') (hn : c ≠ '\n') (hr : c ≠ '\r') :
    recordsFrom current false (c :: rest) = recordsFrom (current ++ [c]) false rest := by
  rw [recordsFrom]
  · simp [hc, hn, hr]
  · simp
  · intro rest' _ heq
    exact absurd heq hr

theorem recordsFrom_doubled (content : List Char) (h : Unquoted rest) :
    recordsFrom current true (doubled content ++ '"' :: rest) =
      recordsFrom (current ++ doubled content ++ ['"']) false rest := by
  induction content generalizing current with
  | nil => simpa [doubled] using recordsFrom_close h
  | cons c content ih =>
    by_cases hc : c = '"'
    · subst hc
      have step : doubled ('"' :: content) = '"' :: '"' :: doubled content := by simp [doubled]
      rw [step, List.cons_append, List.cons_append, recordsFrom, ih]
      simp
    · have step : doubled (c :: content) = c :: doubled content := by simp [doubled, hc]
      rw [step, List.cons_append, recordsFrom_inside hc, ih]
      simp

theorem recordsFrom_enclosed (field : String) (h : Unquoted rest) :
    recordsFrom current false (enclosed field ++ rest) =
      recordsFrom (current ++ enclosed field) false rest := by
  have step : enclosed field ++ rest = '"' :: (doubled field.toList ++ '"' :: rest) := by
    simp [enclosed]
  rw [step, recordsFrom_open, recordsFrom_doubled _ h]
  simp [enclosed]

/-- No line is broken at a delimiter. -/
structure Separates (delimiter : Char) : Prop where
  quote : delimiter ≠ '"'
  newline : delimiter ≠ '\n'
  carriage : delimiter ≠ '\r'

theorem separates_of_candidate (h : delimiter ∈ CANDIDATE_DELIMITERS) : Separates delimiter := by
  simp only [CANDIDATE_DELIMITERS, List.mem_cons, List.not_mem_nil, or_false] at h
  obtain rfl | rfl | rfl | rfl := h <;> exact ⟨by decide, by decide, by decide⟩

theorem recordsFrom_encodeRow (separates : Separates delimiter) (field : String)
    (fields : List String) (h : Unquoted rest) :
    recordsFrom current false (encodeRow delimiter (field :: fields) ++ rest) =
      recordsFrom (current ++ encodeRow delimiter (field :: fields)) false rest := by
  induction fields generalizing field current with
  | nil =>
    have single : encodeRow delimiter [field] = enclosed field := by
      simp [encodeRow, List.intercalate]
    rw [single, recordsFrom_enclosed field h]
  | cons next fields ih =>
    have unquoted : Unquoted (delimiter :: (encodeRow delimiter (next :: fields) ++ rest)) := by
      simpa [Unquoted] using separates.quote
    rw [encodeRow_cons, List.append_assoc, List.cons_append, recordsFrom_enclosed field unquoted,
      recordsFrom_outside separates.quote separates.newline separates.carriage, ih]
    simp

theorem recordsFrom_ending (ending : LineEnding) (h : rest.head? ≠ some '\n') :
    recordsFrom current false (ending.chars ++ rest) = current :: recordsFrom [] false rest := by
  cases ending with
  | lf => simp [LineEnding.chars, recordsFrom]
  | crlf => simp [LineEnding.chars, recordsFrom]
  | cr =>
    cases rest with
    | nil => simp [LineEnding.chars, recordsFrom]
    | cons c rest =>
      have hc : c ≠ '\n' := by simpa using h
      rw [LineEnding.chars, List.singleton_append, recordsFrom]
      · simp
      · simp
      · intro rest' _ _ heq
        exact hc (List.cons.inj heq).1

theorem encodeRow_head (delimiter : Char) (field : String) (fields : List String) :
    ∃ more, encodeRow delimiter (field :: fields) = '"' :: more := by
  cases fields with
  | nil => exact ⟨_, by simp [encodeRow, List.intercalate, enclosed]; rfl⟩
  | cons next fields => exact ⟨_, by rw [encodeRow_cons, enclosed]; rfl⟩

theorem joined_single (ending : LineEnding) (ended : Bool) (line : List Char) :
    joined ending ended [line] = line ++ if ended then ending.chars else [] := by
  simp [joined, List.intercalate]

theorem joined_cons (ending : LineEnding) (ended : Bool) (line next : List Char)
    (lines : List (List Char)) :
    joined ending ended (line :: next :: lines) =
      line ++ (ending.chars ++ joined ending ended (next :: lines)) := by
  simp [joined, List.intercalate]

theorem joined_head (ending : LineEnding) (ended : Bool) (c : Char) (line : List Char)
    (lines : List (List Char)) :
    ∃ more, joined ending ended ((c :: line) :: lines) = c :: more := by
  cases lines with
  | nil => exact ⟨_, joined_single ending ended _⟩
  | cons next lines => exact ⟨_, joined_cons ending ended _ next lines⟩

theorem unquoted_ending (ending : LineEnding) (rest : List Char) :
    Unquoted (ending.chars ++ rest) := by
  cases ending <;> simp [Unquoted, LineEnding.chars]

/-- The records of a table are its lines. -/
theorem toRecords_joined (separates : Separates delimiter) (ending : LineEnding) (ended : Bool)
    {rows : List (List String)} (nonempty : ∀ row ∈ rows, row ≠ []) (hrows : rows ≠ []) :
    toRecords (joined ending ended (rows.map (encodeRow delimiter))) =
      rows.map (encodeRow delimiter) := by
  rw [toRecords]
  induction rows with
  | nil => exact absurd rfl hrows
  | cons row rows ih =>
    obtain ⟨field, fields, rfl⟩ := List.exists_cons_of_ne_nil (nonempty row List.mem_cons_self)
    cases rows with
    | nil =>
      obtain ⟨more, hmore⟩ := encodeRow_head delimiter field fields
      rw [List.map_singleton, joined_single]
      cases ended with
      | true =>
        rw [if_pos rfl, ← List.append_nil ending.chars,
          recordsFrom_encodeRow separates field fields (unquoted_ending ending []),
          recordsFrom_ending ending (by simp), recordsFrom]
        simp
      | false =>
        rw [if_neg (by simp), recordsFrom_encodeRow separates field fields (by simp [Unquoted]),
          recordsFrom]
        simp [hmore]
    | cons next rows =>
      obtain ⟨field', fields', rfl⟩ := List.exists_cons_of_ne_nil
        (nonempty next (List.mem_cons_of_mem _ List.mem_cons_self))
      have following := ih (fun row hrow => nonempty row (List.mem_cons_of_mem _ hrow)) (by simp)
      obtain ⟨more, hmore⟩ := encodeRow_head delimiter field' fields'
      have quoted : (joined ending ended (((field' :: fields') :: rows).map
          (encodeRow delimiter))).head? ≠ some '\n' := by
        obtain ⟨text, htext⟩ := joined_head ending ended '"' more (rows.map (encodeRow delimiter))
        rw [List.map_cons, hmore, htext]
        simp
      rw [List.map_cons] at following quoted ⊢
      rw [List.map_cons, joined_cons,
        recordsFrom_encodeRow separates field fields (unquoted_ending ending _), List.nil_append,
        recordsFrom_ending ending quoted, following]

end Records

/-! ### The delimiter -/

/-- The delimiter occurs inside quotes only. -/
def Hidden (delimiter : Char) : Bool → List Char → Prop
  | _, [] => True
  | inQuotes, c :: text =>
    if c = '"' then Hidden delimiter (!inQuotes) text
    else (c = delimiter → inQuotes = true) ∧ Hidden delimiter inQuotes text

section Hidden

variable {delimiter other : Char} {inQuotes : Bool} {text part : List Char}

theorem Hidden.of_prefix (h : Hidden delimiter inQuotes text) (hp : part <+: text) :
    Hidden delimiter inQuotes part := by
  induction part generalizing text inQuotes with
  | nil => trivial
  | cons c part ih =>
    obtain ⟨rest, rfl⟩ := hp
    rw [List.cons_append, Hidden] at h
    rw [Hidden]
    split
    · rename_i hc
      rw [if_pos hc] at h
      exact ih h (List.prefix_append part rest)
    · rename_i hc
      rw [if_neg hc] at h
      exact ⟨h.1, ih h.2 (List.prefix_append part rest)⟩

/-- A line in which the delimiter is hidden is one field. -/
theorem splitFrom_hidden (current : List Char) (h : Hidden delimiter inQuotes text) :
    (splitFrom delimiter current inQuotes text).length = 1 := by
  induction current, inQuotes, text using splitFrom.induct delimiter with
  | case1 => simp [splitFrom]
  | case2 current rest ih =>
    rw [splitFrom]
    exact ih (by simpa [Hidden] using h)
  | case3 current inQuotes rest notEscaped ih =>
    rw [splitFrom, if_pos rfl]
    · exact ih (by simpa [Hidden] using h)
    · exact notEscaped
  | case4 current inQuotes char rest notEscaped hc hd ih =>
    rw [Hidden, if_neg hc] at h
    simp [h.1 hd.1] at hd
  | case5 current inQuotes char rest notEscaped hc hd ih =>
    rw [Hidden, if_neg hc] at h
    rw [splitFrom, if_neg hc, if_neg hd]
    · exact ih h.2
    · exact notEscaped

theorem splitFrom_pos (current : List Char) (inQuotes : Bool) (text : List Char) :
    0 < (splitFrom delimiter current inQuotes text).length := by
  induction current, inQuotes, text using splitFrom.induct delimiter with
  | case1 => simp [splitFrom]
  | case2 current rest ih => rwa [splitFrom]
  | case3 current inQuotes rest notEscaped ih =>
    rw [splitFrom, if_pos rfl]
    · exact ih
    · exact notEscaped
  | case4 current inQuotes char rest notEscaped hc hd ih =>
    rw [splitFrom, if_neg hc, if_pos hd]
    · exact Nat.succ_pos _
    · exact notEscaped
  | case5 current inQuotes char rest notEscaped hc hd ih =>
    rw [splitFrom, if_neg hc, if_neg hd]
    · exact ih
    · exact notEscaped

theorem hidden_doubled (content : List Char) (h : Hidden delimiter true text) :
    Hidden delimiter true (doubled content ++ text) := by
  induction content with
  | nil => simpa [doubled] using h
  | cons c content ih =>
    by_cases hc : c = '"'
    · subst hc
      simpa [doubled, Hidden] using ih
    · have step : doubled (c :: content) ++ text = c :: (doubled content ++ text) := by
        simp [doubled, hc]
      rw [step, Hidden, if_neg hc]
      exact ⟨fun _ => rfl, ih⟩

theorem hidden_enclosed (field : String) (h : Hidden delimiter false text) :
    Hidden delimiter false (enclosed field ++ text) := by
  have closing : Hidden delimiter true ('"' :: text) := by simpa [Hidden] using h
  have inner := hidden_doubled field.toList closing
  simpa [enclosed, Hidden] using inner

theorem hidden_plain {c : Char} (hq : c ≠ '"') (hc : c ≠ delimiter)
    (h : Hidden delimiter false text) : Hidden delimiter false (c :: text) := by
  rw [Hidden, if_neg hq]
  exact ⟨fun heq => absurd heq hc, h⟩

theorem hidden_encodeRow (separates : Separates delimiter) (hne : delimiter ≠ other)
    (row : List String) (h : Hidden other false text) :
    Hidden other false (encodeRow delimiter row ++ text) := by
  induction row with
  | nil => simpa [encodeRow, List.intercalate] using h
  | cons field fields ih =>
    cases fields with
    | nil => simpa [encodeRow, List.intercalate] using hidden_enclosed field h
    | cons next fields =>
      rw [encodeRow_cons, List.append_assoc, List.cons_append]
      exact hidden_enclosed field (hidden_plain separates.quote hne ih)

theorem hidden_ending (separates : Separates other) (ending : LineEnding)
    (h : Hidden other false text) : Hidden other false (ending.chars ++ text) := by
  have newline := hidden_plain (by decide) separates.newline.symm h
  cases ending with
  | lf => exact newline
  | crlf => exact hidden_plain (by decide) separates.carriage.symm newline
  | cr => exact hidden_plain (by decide) separates.carriage.symm h

theorem hidden_joined (separates : Separates delimiter) (separates' : Separates other)
    (hne : delimiter ≠ other) (ending : LineEnding) (ended : Bool) (rows : List (List String)) :
    Hidden other false (joined ending ended (rows.map (encodeRow delimiter))) := by
  have last : Hidden other false (if ended then ending.chars else []) := by
    cases ended with
    | true =>
      have closing : Hidden other false [] := trivial
      simpa using hidden_ending separates' ending closing
    | false => trivial
  induction rows with
  | nil => simpa [joined, List.intercalate] using last
  | cons row rows ih =>
    cases rows with
    | nil =>
      rw [List.map_singleton, joined_single]
      exact hidden_encodeRow separates hne row last
    | cons next rows =>
      rw [List.map_cons, List.map_cons, joined_cons]
      exact hidden_encodeRow separates hne row (hidden_ending separates' ending ih)

end Hidden

section Detection

variable {delimiter : Char} {text : List Char}

theorem linesFrom_first (current text : List Char) :
    ∃ more tail, linesFrom current text = (current ++ more) :: tail ∧ more <+: text := by
  induction current, text using linesFrom.induct with
  | case1 current => exact ⟨[], [], by simp [linesFrom], List.prefix_refl []⟩
  | case2 current rest ih => exact ⟨[], _, by rw [linesFrom, List.append_nil], List.nil_prefix⟩
  | case3 current rest notEnding ih =>
    refine ⟨[], linesFrom [] rest, ?_, List.nil_prefix⟩
    rw [linesFrom, if_pos rfl, List.append_nil]
    exact notEnding
  | case4 current c rest notEnding hc ih =>
    obtain ⟨more, tail, hlines, hmore⟩ := ih
    refine ⟨c :: more, tail, ?_, List.cons_prefix_cons.mpr ⟨rfl, hmore⟩⟩
    rw [linesFrom, if_neg hc, hlines]
    · simp
    · exact notEnding

/-- The first line goes on over text without line breaks. -/
theorem linesFrom_append (part text current : List Char)
    (flat : ∀ c ∈ part, c ≠ '\n' ∧ c ≠ '\r') :
    linesFrom current (part ++ text) = linesFrom (current ++ part) text := by
  induction part generalizing current with
  | nil => simp
  | cons c part ih =>
    have hc := flat c List.mem_cons_self
    rw [List.cons_append, linesFrom, if_neg hc.1, ih _ fun c h => flat c (List.mem_cons_of_mem _ h)]
    · simp
    · intro rest heq
      exact absurd heq hc.2

/-- The first line of a table holds the first field of the header and what follows it. -/
theorem firstLine (separates : Separates delimiter) (ending : LineEnding) (ended : Bool)
    (field next : String) (fields : List String) (rows : List (List String))
    (flat : ∀ c ∈ field.toList, c ≠ '\n' ∧ c ≠ '\r')
    (htext : text = joined ending ended
      (((field :: next :: fields) :: rows).map (encodeRow delimiter))) :
    ∃ more tail, linesFrom [] text = (enclosed field ++ delimiter :: more) :: tail ∧
      enclosed field ++ delimiter :: more <+: text := by
  have started : ∃ rest, text = enclosed field ++ [delimiter] ++ rest := by
    rw [htext, List.map_cons, encodeRow_cons]
    cases rows with
    | nil => exact ⟨_, by rw [List.map_nil, joined_single]; simp; rfl⟩
    | cons row rows => exact ⟨_, by rw [List.map_cons, joined_cons]; simp; rfl⟩
  obtain ⟨rest, rfl⟩ := started
  have opening : ∀ c ∈ enclosed field ++ [delimiter], c ≠ '\n' ∧ c ≠ '\r' := by
    intro c hc
    simp only [enclosed, doubled, List.cons_append, List.mem_append, List.mem_cons,
      List.mem_flatMap, List.not_mem_nil, or_false] at hc
    rcases hc with rfl | (⟨d, hd, hc⟩ | rfl) | rfl
    · decide
    · split at hc
      · simp only [List.mem_cons, List.not_mem_nil, or_false, or_self] at hc
        subst hc
        decide
      · rw [List.mem_singleton] at hc
        subst hc
        exact flat c hd
    · decide
    · exact ⟨separates.newline, separates.carriage⟩
  obtain ⟨more, tail, hlines, hmore⟩ := linesFrom_first (enclosed field ++ [delimiter]) rest
  refine ⟨more, tail, ?_, ?_⟩
  · rw [linesFrom_append _ _ _ opening, List.nil_append, hlines]
    simp
  · have glued := (List.prefix_append_right_inj (enclosed field ++ [delimiter])).mpr hmore
    simpa using glued

theorem not_isBlank (line : List Char) : isBlank ('"' :: line) = false := by
  rw [isBlank, beq_eq_false_iff_ne]
  intro blank
  have chars := congrArg String.toList blank
  simp only [trim, String.toList_ofList, String.toList_empty, List.reverse_eq_nil_iff,
    List.dropWhile_eq_nil_iff, List.mem_reverse] at chars
  have quote : '"' ∈ ('"' :: line).dropWhile Auth.isJsSpace := by
    rw [List.dropWhile_cons_of_neg (by decide)]
    exact List.mem_cons_self
  exact absurd (chars '"' quote) (by decide)

variable {candidates : List Char} {lines : List (List Char)} {best : Char × Option Nat} {score : Nat}

theorem bestDelimiter_none (none : ∀ c ∈ candidates, delimiterScore lines c = none) :
    bestDelimiter lines candidates best = best := by
  induction candidates with
  | nil => rfl
  | cons c candidates ih =>
    rw [bestDelimiter, none c List.mem_cons_self]
    exact ih fun c h => none c (List.mem_cons_of_mem _ h)

/-- A candidate that alone splits the first line is chosen. -/
theorem bestDelimiter_only (nodup : candidates.Nodup) (hd : delimiter ∈ candidates)
    (scored : delimiterScore lines delimiter = some score)
    (only : ∀ c ∈ candidates, c ≠ delimiter → delimiterScore lines c = none) (b : Char) :
    bestDelimiter lines candidates (b, none) = (delimiter, some score) := by
  induction candidates with
  | nil => simp at hd
  | cons c candidates ih =>
    rw [List.nodup_cons] at nodup
    have later : ∀ c' ∈ candidates, c' ≠ delimiter → delimiterScore lines c' = none :=
      fun c' h => only c' (List.mem_cons_of_mem _ h)
    rw [bestDelimiter]
    by_cases hc : c = delimiter
    · subst hc
      rw [scored]
      refine bestDelimiter_none fun c' h => later c' h ?_
      rintro rfl
      exact nodup.1 h
    · rw [only c List.mem_cons_self hc]
      exact ih nodup.2 ((List.mem_cons.mp hd).resolve_left (Ne.symm hc)) later

theorem detectDelimiter_joined (candidate : delimiter ∈ CANDIDATE_DELIMITERS)
    (ending : LineEnding) (ended : Bool) (field next : String) (fields : List String)
    (rows : List (List String)) (flat : ∀ c ∈ field.toList, c ≠ '\n' ∧ c ≠ '\r') :
    detectDelimiter (joined ending ended
      (((field :: next :: fields) :: rows).map (encodeRow delimiter))) = delimiter := by
  have separates := separates_of_candidate candidate
  obtain ⟨more, tail, hlines, hprefix⟩ :=
    firstLine separates ending ended field next fields rows flat rfl
  generalize htext : joined ending ended
    (((field :: next :: fields) :: rows).map (encodeRow delimiter)) = text at hlines hprefix ⊢
  have kept : ∃ kept, (((linesFrom [] text).filter fun line => !isBlank line).take 10) =
      (enclosed field ++ delimiter :: more) :: kept := by
    have visible : isBlank (enclosed field ++ delimiter :: more) = false := not_isBlank _
    refine ⟨((tail.filter fun line => !isBlank line).take 9), ?_⟩
    rw [hlines, List.filter_cons_of_pos (by simp [visible]), List.take_succ_cons]
  obtain ⟨kept, hkept⟩ := kept
  -- Only the delimiter itself splits the first line.
  have others : ∀ c ∈ CANDIDATE_DELIMITERS, c ≠ delimiter →
      delimiterScore ((enclosed field ++ delimiter :: more) :: kept) c = none := by
    intro c hc hne
    have hidden : Hidden c false (enclosed field ++ delimiter :: more) := by
      refine Hidden.of_prefix ?_ hprefix
      rw [← htext]
      exact hidden_joined separates (separates_of_candidate hc) hne.symm ending ended _
    have one := splitFrom_hidden [] hidden
    simp [delimiterScore, splitLine, one]
  have splits : 2 ≤ (splitLine (enclosed field ++ delimiter :: more) delimiter).length := by
    have unquoted : Unquoted (delimiter :: more) := by simpa [Unquoted] using separates.quote
    have fields_pos : 0 < (splitFrom delimiter [] false more).length := splitFrom_pos _ _ _
    rw [splitLine, splitFrom_enclosed field unquoted, splitFrom_delimiter separates.quote,
      List.length_cons]
    omega
  have scored : (delimiterScore ((enclosed field ++ delimiter :: more) :: kept) delimiter).isSome := by
    simp [delimiterScore]
    omega
  obtain ⟨score, hscore⟩ := Option.isSome_iff_exists.mp scored
  rw [detectDelimiter, hkept, if_neg (by simp),
    bestDelimiter_only (by decide) candidate hscore others]

end Detection

/-! ### The round trip -/

section RoundTrip

variable {delimiter : Char}

theorem fieldsOf_encodeRow (separates : Separates delimiter) {row : List String} (h : row ≠ []) :
    fieldsOf delimiter (encodeRow delimiter row) = row.map trim := by
  obtain ⟨field, fields, rfl⟩ := List.exists_cons_of_ne_nil h
  rw [fieldsOf, splitLine_encodeRow separates.quote, List.map_map]
  refine List.map_congr_left fun field _ => ?_
  simp

/-- A table of at least two columns is read back cell for cell, up to blanks around a cell. -/
theorem parseCsv_encodeTable (candidate : delimiter ∈ CANDIDATE_DELIMITERS) (ending : LineEnding)
    (ended : Bool) (header : List String) (rows : List (List String)) (columns : 2 ≤ header.length)
    (flat : ∀ cell ∈ header, ∀ c ∈ cell.toList, c ≠ '\n' ∧ c ≠ '\r')
    (rectangular : ∀ row ∈ rows, row.length = header.length)
    (few : rows.length ≤ MAX_IMPORT_ROWS) :
    parseCsv (encodeTable delimiter ending ended (header :: rows)) =
      .ok ⟨header.map trim, rows.map (·.map trim), delimiter, []⟩ := by
  have separates := separates_of_candidate candidate
  obtain ⟨field, next, fields, rfl⟩ : ∃ field next fields, header = field :: next :: fields := by
    match header, columns with
    | field :: next :: fields, _ => exact ⟨field, next, fields, rfl⟩
  have nonempty : ∀ row ∈ (field :: next :: fields) :: rows, row ≠ [] := by
    intro row hrow
    rcases List.mem_cons.mp hrow with rfl | hrow
    · simp
    · have hlength := rectangular row hrow
      rintro rfl
      simp at hlength
  generalize htext : joined ending ended
    (((field :: next :: fields) :: rows).map (encodeRow delimiter)) = text
  have cleaned : withoutMark text = text := by
    obtain ⟨more, hmore⟩ := encodeRow_head delimiter field (next :: fields)
    obtain ⟨rest, hrest⟩ := joined_head ending ended '"' more (rows.map (encodeRow delimiter))
    rw [← htext, List.map_cons, hmore, hrest]
    rfl
  have detected : detectDelimiter text = delimiter := by
    rw [← htext]
    exact detectDelimiter_joined candidate ending ended field next fields rows
      (flat field List.mem_cons_self)
  have records : (toRecords text).filter (fun line => !isBlank line) =
      encodeRow delimiter (field :: next :: fields) :: rows.map (encodeRow delimiter) := by
    rw [← htext, toRecords_joined separates ending ended nonempty (by simp), ← List.map_cons]
    refine List.filter_eq_self.mpr fun line hline => ?_
    obtain ⟨row, hrow, rfl⟩ := List.mem_map.mp hline
    obtain ⟨f, fs, rfl⟩ := List.exists_cons_of_ne_nil (nonempty row hrow)
    obtain ⟨more, hmore⟩ := encodeRow_head delimiter f fs
    rw [hmore, not_isBlank]
    rfl
  have bodies : (rows.map (encodeRow delimiter)).map (fieldsOf delimiter) = rows.map (·.map trim) := by
    rw [List.map_map]
    exact List.map_congr_left fun row hrow =>
      fieldsOf_encodeRow separates (nonempty row (List.mem_cons_of_mem _ hrow))
  have even : (rows.map (·.map trim)).zipIdx.filter
      (fun row => row.1.length != ((field :: next :: fields).map trim).length) = [] := by
    rw [List.filter_eq_nil_iff]
    rintro ⟨row, index⟩ hrow
    obtain ⟨original, horiginal, rfl⟩ := List.mem_map.mp (List.fst_mem_of_mem_zipIdx hrow)
    simpa using rectangular original horiginal
  rw [parseCsv, encodeTable, String.toList_ofList, htext, cleaned, records]
  dsimp only
  rw [detected, fieldsOf_encodeRow separates (by simp), if_neg (by simp), List.length_map,
    if_neg (Nat.not_lt.mpr few), bodies, even]
  rfl

end RoundTrip

section Export

variable (numberText : Rat → String)

/-- An export is a table with every field in quotes. -/
theorem transactionsToCsv_eq (transactions : List Ledger.Transaction) :
    transactionsToCsv numberText transactions =
      encodeTable ',' .crlf true
        (csvHeader :: transactions.map fun t => (csvRow t).map (guardedText numberText)) := by
  have row : ∀ values : List CellValue, [','].intercalate (values.map (cell numberText)) =
      encodeRow ',' (values.map (guardedText numberText)) := by
    intro values
    rw [encodeRow, List.map_map]
    rfl
  simp only [transactionsToCsv, row, encodeTable, joined, List.map_cons, List.map_map,
    if_true]
  rfl

theorem csvRow_length (t : Ledger.Transaction) : (csvRow t).length = csvHeader.length := rfl

end Export

/-- A table of at least two columns, written with every field in quotes, is read back cell for cell
up to blanks around a cell, and so is every export. -/
theorem csv_round_trip :
    (∀ (delimiter : Char) (ending : LineEnding) (ended : Bool) (header : List String)
        (rows : List (List String)),
      delimiter ∈ CANDIDATE_DELIMITERS → 2 ≤ header.length →
      (∀ cell ∈ header, ∀ c ∈ cell.toList, c ≠ '\n' ∧ c ≠ '\r') →
      (∀ row ∈ rows, row.length = header.length) → rows.length ≤ MAX_IMPORT_ROWS →
      parseCsv (encodeTable delimiter ending ended (header :: rows)) =
        .ok ⟨header.map trim, rows.map (·.map trim), delimiter, []⟩) ∧
    ∀ (numberText : Rat → String) (transactions : List Ledger.Transaction),
      transactions.length ≤ MAX_IMPORT_ROWS →
      parseCsv (transactionsToCsv numberText transactions) =
        .ok ⟨csvHeader, transactions.map fun t => (csvRow t).map fun value =>
          trim (guardedText numberText value), ',', []⟩ := by
  refine ⟨?_, ?_⟩
  · intro delimiter ending ended header rows candidate columns flat rectangular few
    exact parseCsv_encodeTable candidate ending ended header rows columns flat rectangular few
  · intro numberText transactions few
    have flat : ∀ cell ∈ csvHeader, ∀ c ∈ cell.toList, c ≠ '\n' ∧ c ≠ '\r' := by simp [csvHeader]
    have rectangular : ∀ row ∈ transactions.map fun t => (csvRow t).map (guardedText numberText),
        row.length = csvHeader.length := by
      intro row hrow
      obtain ⟨t, -, rfl⟩ := List.mem_map.mp hrow
      rw [List.length_map, csvRow_length]
    have trimmed : csvHeader.map trim = csvHeader := by decide +kernel
    rw [transactionsToCsv_eq, parseCsv_encodeTable (by decide) .crlf true csvHeader _ (by decide) flat
      rectangular (by simpa using few), trimmed, List.map_map]
    congr 2

/-- A body cell with a delimiter, a quote and a line break in it. -/
theorem csv_round_trip_multiline :
    2 ≤ ["Date", "Memo"].length ∧ [["2026-05-01", "a \"b\",\r\nc"]].length ≤ MAX_IMPORT_ROWS ∧
    parseCsv (encodeTable ',' .lf true [["Date", "Memo"], ["2026-05-01", "a \"b\",\r\nc"]]) =
      .ok ⟨["Date", "Memo"].map trim, [["2026-05-01", "a \"b\",\r\nc"]].map (·.map trim), ',', []⟩ ∧
    parseCsv (transactionsToCsv toString []) = .ok ⟨csvHeader, [], ',', []⟩ :=
  ⟨by decide, by decide,
    csv_round_trip.1 ',' .lf true ["Date", "Memo"] [["2026-05-01", "a \"b\",\r\nc"]] (by decide)
      (by decide) (by simp) (by decide) (by decide),
    csv_round_trip.2 toString [] (by decide)⟩

end Finverse.Imports
