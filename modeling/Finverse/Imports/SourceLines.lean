import Finverse.Categorization.Corrections
import Finverse.Imports.CsvParse
import Finverse.Imports.Review

/-! The lines of a file on which its records start, and the line numbers that are reported of them. -/

namespace Finverse.Imports

/-! ### Lines of a text -/

/-- `\r\n` is one line break. -/
def lineBreaks : List Char → Nat
  | [] => 0
  | c :: cs => (if c = '\n' ∨ c = '\r' ∧ cs.head? ≠ some '\n' then 1 else 0) + lineBreaks cs

/-- No `\r\n` is cut in two. -/
def Joins (a b : List Char) : Prop := a.getLast? = some '\r' → b.head? ≠ some '\n'

theorem lineBreaks_append {a b : List Char} (h : Joins a b) :
    lineBreaks (a ++ b) = lineBreaks a + lineBreaks b := by
  induction a with
  | nil => simp [lineBreaks]
  | cons c a ih =>
    cases a with
    | nil =>
      by_cases carriage : c = '\r'
      · have next : b.head? ≠ some '\n' := h (by simp [carriage])
        simp [lineBreaks, carriage, next]
      · simp [lineBreaks, carriage]
    | cons d a =>
      have rest : Joins (d :: a) b := fun last => h (by simpa using last)
      calc
        lineBreaks (c :: (d :: a ++ b)) =
            (if c = '\n' ∨ c = '\r' ∧ some d ≠ some '\n' then 1 else 0) + lineBreaks (d :: a ++ b) := rfl
        _ = (if c = '\n' ∨ c = '\r' ∧ some d ≠ some '\n' then 1 else 0) +
            (lineBreaks (d :: a) + lineBreaks b) := by rw [ih rest]
        _ = lineBreaks (c :: d :: a) + lineBreaks b := by
          rw [← Nat.add_assoc]
          rfl

/-! ### Records and the text before them -/

/-- The records from here on, each with the text before it, when `behind` is the text before `current`. -/
def placedFrom : List Char → List Char → Bool → List Char → List (List Char × List Char)
  | behind, current, _, [] => if current.length > 0 then [(behind, current)] else []
  | behind, current, true, '"' :: '"' :: rest => placedFrom behind (current ++ ['"', '"']) true rest
  | behind, current, false, '\r' :: '\n' :: rest =>
    (behind, current) :: placedFrom (behind ++ current ++ ['\r', '\n']) [] false rest
  | behind, current, inQuotes, char :: rest =>
    if char = '"' then placedFrom behind (current ++ [char]) (!inQuotes) rest
    else if (char = '\n' ∨ char = '\r') ∧ inQuotes = false then
      (behind, current) :: placedFrom (behind ++ current ++ [char]) [] inQuotes rest
    else placedFrom behind (current ++ [char]) inQuotes rest

attribute [grind =] placedFrom

variable {behind current rest text : List Char} {inQuotes : Bool}

theorem recordsFrom_cons {char : Char}
    (doubled : ∀ rest', inQuotes = true → char = '"' → rest = '"' :: rest' → False)
    (ended : ∀ rest', inQuotes = false → char = '\r' → rest = '\n' :: rest' → False) :
    recordsFrom current inQuotes (char :: rest) =
      if char = '"' then recordsFrom (current ++ [char]) (!inQuotes) rest
      else if (char = '\n' ∨ char = '\r') ∧ inQuotes = false then
        current :: recordsFrom [] inQuotes rest
      else recordsFrom (current ++ [char]) inQuotes rest := by
  rw [recordsFrom]
  · exact doubled
  · exact ended

/-- They are the records that the file is split into. -/
theorem placedFrom_records (behind : List Char) : (placedFrom behind current inQuotes rest).map Prod.snd =
    recordsFrom current inQuotes rest := by
  fun_induction placedFrom behind current inQuotes rest with
  | case1 _ _ _ some_ => rw [recordsFrom, if_pos some_, List.map_cons, List.map_nil]
  | case2 _ _ _ none_ => rw [recordsFrom, if_neg none_, List.map_nil]
  | case3 _ _ _ ih => rw [recordsFrom, ih]
  | case4 _ _ _ ih => rw [recordsFrom, List.map_cons, ih]
  | case5 _ _ _ _ doubled ended ih => rw [recordsFrom_cons doubled ended, if_pos rfl, ih]
  | case6 _ _ _ _ _ doubled ended quote ends ih =>
    rw [recordsFrom_cons doubled ended, if_neg quote, if_pos ends, List.map_cons, ih]
  | case7 _ _ _ _ _ doubled ended quote goes_on ih =>
    rw [recordsFrom_cons doubled ended, if_neg quote, if_neg goes_on, ih]

/-- And each stands in the text behind what comes before it. -/
theorem placedFrom_stands {placed : List Char × List Char}
    (h : placed ∈ placedFrom behind current inQuotes rest) :
    placed.1 ++ placed.2 <+: behind ++ current ++ rest := by
  have here (behind current rest : List Char) : behind ++ current <+: behind ++ current ++ rest :=
    List.prefix_append _ _
  fun_induction placedFrom behind current inQuotes rest with
  | case1 =>
    obtain rfl := List.mem_singleton.mp h
    exact here ..
  | case2 => cases h
  | case3 _ _ _ ih => simpa using ih h
  | case4 _ _ _ ih =>
    rcases List.mem_cons.mp h with rfl | later
    · exact here ..
    · simpa using ih later
  | case5 _ _ _ _ _ _ ih => simpa using ih h
  | case6 _ _ _ _ _ _ _ _ _ ih =>
    rcases List.mem_cons.mp h with rfl | later
    · exact here ..
    · simpa using ih later
  | case7 _ _ _ _ _ _ _ _ _ ih => simpa using ih h

/-- The line breaks before each record, when `n` come before the first. -/
def offsets : Nat → List (List Char) → List Nat
  | _, [] => []
  | n, record :: records => n :: offsets (n + lineBreaks record + 1) records

theorem Joins.start {a b : List Char} {c : Char} (h : Joins a (b ++ c :: rest)) : Joins a (b ++ [c]) := by
  cases b with
  | nil => exact h
  | cons d b => exact h

/-- After a record and the end of its line. -/
theorem lineBreaks_record {ending : List Char} (seam : Joins behind (current ++ ending))
    (ends : Joins current ending) (one : lineBreaks ending = 1) :
    lineBreaks (behind ++ current ++ ending) = lineBreaks behind + lineBreaks current + 1 := by
  rw [List.append_assoc, lineBreaks_append seam, lineBreaks_append ends, one, Nat.add_assoc]

theorem placedFrom_lines (seam : Joins behind (current ++ rest))
    (ends : inQuotes = false → current.getLast? ≠ some '\r') :
    (placedFrom behind current inQuotes rest).map (lineBreaks ·.1) =
      offsets (lineBreaks behind) (recordsFrom current inQuotes rest) := by
  rw [← placedFrom_records behind]
  fun_induction placedFrom behind current inQuotes rest with
  | case1 => rfl
  | case2 => rfl
  | case3 _ _ _ ih => exact ih (by simpa using seam) (by simp)
  | case4 behind current rest ih =>
    have line : lineBreaks (behind ++ current ++ ['\r', '\n']) = lineBreaks behind + lineBreaks current + 1 :=
      lineBreaks_record (by cases current <;> exact seam) (fun _ => by simp) rfl
    rw [List.map_cons, List.map_cons, ih (fun last => by simp at last) (by simp), line]
    rfl
  | case5 _ _ _ _ _ _ ih => exact ih (by simpa using seam) (by simp)
  | case6 behind current inQuotes char rest _ ended quote stops ih =>
    have one : lineBreaks [char] = 1 := by
      rcases stops.1 with rfl | rfl <;> rfl
    have line : lineBreaks (behind ++ current ++ [char]) = lineBreaks behind + lineBreaks current + 1 :=
      lineBreaks_record seam.start (fun last => absurd last (ends stops.2)) one
    have next : Joins (behind ++ current ++ [char]) ([] ++ rest) := by
      intro last newline
      obtain ⟨rest', rfl⟩ : ∃ rest', rest = '\n' :: rest' := by
        cases rest with
        | nil => cases newline
        | cons c rest => exact ⟨rest, by simpa using newline⟩
      exact ended rest' stops.2 (by simpa using last) rfl
    rw [List.map_cons, List.map_cons, ih next (by simp), line]
    rfl
  | case7 _ _ _ _ _ _ _ _ goes_on ih =>
    refine ih (by simpa using seam) fun unquoted last => goes_on ⟨.inr ?_, unquoted⟩
    simpa using last

/-! ### Lines and numbers of records -/

/-- The records that are not blank, each with the line breaks before it. -/
def marked (n : Nat) (records : List (List Char)) : List (Nat × List Char) :=
  ((offsets n records).zip records).filter fun line => !isBlank line.2

variable {n j m : Nat} {records : List (List Char)} {record : List Char}

theorem marked_cons (n : Nat) (record : List Char) (records : List (List Char)) :
    marked n (record :: records) = if isBlank record then marked (n + lineBreaks record + 1) records
      else (n, record) :: marked (n + lineBreaks record + 1) records := by
  rw [marked, offsets, List.zip_cons_cons, List.filter_cons]
  cases isBlank record <;> rfl

/-- The record with the number `j` stands behind `j` others and any blank ones, and behind their lines. -/
theorem getElem?_marked : (marked n records)[j]? = some (m, record) ↔
    ∃ earlier later, records = earlier ++ record :: later ∧ isBlank record = false ∧
      (earlier.filter (!isBlank ·)).length = j ∧ m = n + earlier.length + (earlier.map lineBreaks).sum := by
  induction records generalizing n j with
  | nil => simp [marked, offsets]
  | cons first records ih =>
    rw [marked_cons]
    by_cases blank : isBlank first = true
    · rw [if_pos blank, ih]
      constructor
      · rintro ⟨earlier, later, rfl, some_, rfl, rfl⟩
        refine ⟨first :: earlier, later, rfl, some_, by simp [blank], ?_⟩
        simp only [List.length_cons, List.map_cons, List.sum_cons]
        omega
      · rintro ⟨earlier, later, split, some_, rfl, rfl⟩
        cases earlier with
        | nil =>
          obtain ⟨rfl, rfl⟩ := List.cons.inj split
          exact absurd blank (by simp [some_])
        | cons first' earlier =>
          obtain ⟨rfl, rfl⟩ := List.cons.inj split
          refine ⟨earlier, later, rfl, some_, by simp [blank], ?_⟩
          simp only [List.length_cons, List.map_cons, List.sum_cons]
          omega
    · rw [if_neg blank]
      have kept : isBlank first = false := by simpa using blank
      cases j with
      | zero =>
        rw [List.getElem?_cons_zero]
        constructor
        · intro same
          obtain ⟨rfl, rfl⟩ := Prod.mk.inj (Option.some.inj same)
          exact ⟨[], records, rfl, kept, rfl, rfl⟩
        · rintro ⟨earlier, later, split, -, none_before, rfl⟩
          cases earlier with
          | nil =>
            obtain ⟨rfl, rfl⟩ := List.cons.inj split
            rfl
          | cons first' earlier =>
            obtain ⟨rfl, rfl⟩ := List.cons.inj split
            simp [kept] at none_before
      | succ j =>
        rw [List.getElem?_cons_succ, ih]
        constructor
        · rintro ⟨earlier, later, rfl, some_, rfl, rfl⟩
          refine ⟨first :: earlier, later, rfl, some_, by simp [kept], ?_⟩
          simp only [List.length_cons, List.map_cons, List.sum_cons]
          omega
        · rintro ⟨earlier, later, split, some_, before, rfl⟩
          cases earlier with
          | nil => cases before
          | cons first' earlier =>
            obtain ⟨rfl, rfl⟩ := List.cons.inj split
            refine ⟨earlier, later, rfl, some_, by simpa [kept] using before, ?_⟩
            simp only [List.length_cons, List.map_cons, List.sum_cons]
            omega

/-- No row of the file comes behind a blank record, or behind one of several lines. -/
def Plain (records : List (List Char)) : Prop :=
  ∀ earlier record later, records = earlier ++ record :: later → isBlank record = false →
    (∃ header ∈ earlier, isBlank header = false) →
      ∀ other ∈ earlier, isBlank other = false ∧ lineBreaks other = 0

/-- The rows stand on the lines that are counted from the header on, if and only if the file is plain. -/
theorem marked_numbered_iff : ((marked 0 records).tail.map fun line => line.1 + 1) =
    List.range' 2 (marked 0 records).tail.length ↔ Plain records := by
  have numbered : ((marked 0 records).tail.map fun line => line.1 + 1) =
      List.range' 2 (marked 0 records).tail.length ↔
        ∀ j m record, (marked 0 records)[j + 1]? = some (m, record) → m = j + 1 := by
    constructor
    · intro same j m record stored
      have here := congrArg (·[j]?) same
      rw [← List.getElem?_tail] at stored
      have small : j < (marked 0 records).tail.length := (List.getElem?_eq_some_iff.mp stored).1
      simp only [List.getElem?_map, stored, Option.map_some, List.getElem?_range' small] at here
      have equal := Option.some.inj here
      omega
    · intro each
      apply List.ext_getElem
      · simp
      · intro j small _
        rw [List.length_map] at small
        have stored : (marked 0 records)[j + 1]? = some (marked 0 records).tail[j] := by
          rw [← List.getElem?_tail, List.getElem?_eq_getElem small]
        have equal : (marked 0 records).tail[j].1 = j + 1 := each j _ _ stored
        simp only [List.getElem_map, List.getElem_range']
        omega
  rw [numbered]
  constructor
  · rintro each earlier record later split some_ ⟨header, stored, kept⟩ other listed
    have positive : 0 < (earlier.filter (!isBlank ·)).length :=
      List.length_pos_of_mem (List.mem_filter.mpr ⟨stored, by simp [kept]⟩)
    obtain ⟨j, number⟩ : ∃ j, (earlier.filter (!isBlank ·)).length = j + 1 :=
      ⟨_, (Nat.succ_pred_eq_of_pos positive).symm⟩
    have line := each j _ record (getElem?_marked.mpr ⟨earlier, later, split, some_, number, rfl⟩)
    have most := List.length_filter_le (!isBlank ·) earlier
    have whole : (earlier.filter (!isBlank ·)).length = earlier.length := by omega
    have breaks : (earlier.map lineBreaks).sum = 0 := by omega
    have all := List.length_filter_eq_length_iff.mp whole other listed
    rw [List.sum_eq_zero_iff_forall_eq_nat] at breaks
    exact ⟨by simpa using all, breaks _ (List.mem_map_of_mem listed)⟩
  · intro plain j m record stored
    obtain ⟨earlier, later, split, some_, number, rfl⟩ := getElem?_marked.mp stored
    have first : ∃ header ∈ earlier, isBlank header = false := by
      have positive : 0 < (earlier.filter (!isBlank ·)).length := number ▸ Nat.succ_pos j
      obtain ⟨header, listed⟩ := List.exists_mem_of_length_pos positive
      obtain ⟨stored, kept⟩ := List.mem_filter.mp listed
      exact ⟨header, stored, by simpa using kept⟩
    have others := plain earlier record later split some_ first
    have whole : (earlier.filter (!isBlank ·)).length = earlier.length :=
      List.length_filter_eq_length_iff.mpr fun other listed => by simp [(others other listed).1]
    have breaks : (earlier.map lineBreaks).sum = 0 := by
      rw [List.sum_eq_zero_iff_forall_eq_nat]
      intro k listed
      obtain ⟨other, stored, rfl⟩ := List.mem_map.mp listed
      exact (others other stored).2
    omega

/-! ### The report -/

/-- The records of a file that are not blank, each with the line on which it starts. -/
def recordLines (text : String) : List (Nat × List Char) :=
  ((placedFrom [] [] false (withoutMark text.toList)).filter (!isBlank ·.2)).map fun placed =>
    (lineBreaks placed.1 + 1, placed.2)

/-- The lines on which the rows behind the header start. -/
def bodyLines (text : String) : List Nat := (recordLines text).tail.map Prod.fst

theorem recordLines_eq (text : String) : recordLines text =
    (marked 0 (toRecords (withoutMark text.toList))).map fun line => (line.1 + 1, line.2) := by
  have lines : (placedFrom [] [] false (withoutMark text.toList)).map (lineBreaks ·.1) =
      offsets 0 (toRecords (withoutMark text.toList)) := placedFrom_lines (by simp [Joins]) (by simp)
  have records : (placedFrom [] [] false (withoutMark text.toList)).map Prod.snd =
      toRecords (withoutMark text.toList) := placedFrom_records []
  rw [marked, ← lines, ← records, List.zip_map', List.filter_map, List.map_map]
  rfl

theorem map_snd_marked (n : Nat) (records : List (List Char)) :
    (marked n records).map Prod.snd = records.filter fun record => !isBlank record := by
  induction records generalizing n with
  | nil => rfl
  | cons record records ih =>
    rw [marked_cons, List.filter_cons]
    by_cases blank : isBlank record = true
    · rw [if_pos blank, ih, if_neg (by simp [blank])]
    · rw [if_neg blank, List.map_cons, ih, if_pos (by simpa using blank)]

variable {parsed : ParsedCsv}

theorem parseCsv_ok {text : String} (accepted : parseCsv text = .ok parsed) : ∃ first body,
    (toRecords (withoutMark text.toList)).filter (fun line => !isBlank line) = first :: body ∧
      parsed.rows = body.map (fieldsOf parsed.delimiter) ∧
      parsed.raggedLines = (parsed.rows.zipIdx.filter fun row =>
        row.1.length != parsed.headers.length).map (·.2 + 2) := by
  rw [parseCsv] at accepted
  split at accepted
  · cases accepted
  · rename_i first body split_
    dsimp only at accepted
    split at accepted
    · cases accepted
    split at accepted
    · cases accepted
    · obtain rfl := Except.ok.inj accepted
      exact ⟨first, body, split_, rfl, rfl⟩

theorem reviewFrom_lines (R : ReviewContext) (input : ReviewInput) (accepted : List Ledger.Transaction)
    (line : Nat) (rows : List (List String)) :
    (reviewFrom R input accepted line rows).map (·.line) = List.range' line rows.length := by
  induction rows generalizing accepted line with
  | nil => rfl
  | cons raw rows ih =>
    rw [reviewFrom]
    split
    · rw [List.map_cons, ih]
      rfl
    · split
      · rw [List.map_cons, ih]
        rfl
      · rw [List.map_cons, ih]
        rfl

/-- The numbers that are reported of a file are those of the lines on which its records start. -/
structure Physical (R : ReviewContext) (input : ReviewInput) (text : String) (parsed : ParsedCsv) : Prop where
  reviewed : (reviewImport R input).rows.map (·.line) = bodyLines text
  ragged : parsed.raggedLines = ((parsed.rows.zip (bodyLines text)).filter fun row =>
    row.1.length != parsed.headers.length).map Prod.snd

/-- The reported lines are those of the file, if and only if no row comes behind a blank record or behind
one of several lines. -/
theorem lines_physical_iff (R : ReviewContext) (input : ReviewInput) (text : String) (parsed : ParsedCsv)
    (accepted : parseCsv text = .ok parsed) (rows : input.rows = parsed.rows) :
    Physical R input text parsed ↔ Plain (toRecords (withoutMark text.toList)) := by
  obtain ⟨first, body, split, body_, ragged⟩ := parseCsv_ok accepted
  have length : (marked 0 (toRecords (withoutMark text.toList))).tail.length = parsed.rows.length := by
    have kept := congrArg List.length (map_snd_marked 0 (toRecords (withoutMark text.toList)))
    rw [split, List.length_map, List.length_cons] at kept
    rw [List.length_tail, kept, body_, List.length_map, Nat.add_sub_cancel]
  have lines : bodyLines text =
      (marked 0 (toRecords (withoutMark text.toList))).tail.map fun line => line.1 + 1 := by
    rw [bodyLines, recordLines_eq, ← List.map_tail, List.map_map]
    rfl
  rw [← marked_numbered_iff, ← lines, length]
  constructor
  · intro physical
    have reviewed := physical.reviewed
    rw [reviewImport, reviewFrom_lines, rows] at reviewed
    exact reviewed.symm
  · intro same
    constructor
    · rw [reviewImport, reviewFrom_lines, rows, same]
    · have shifted : parsed.rows.zipIdx.map (Prod.map id (· + 2)) = parsed.rows.zipIdx (2 + 0) :=
        List.map_snd_add_zipIdx_eq_zipIdx
      rw [Nat.add_zero] at shifted
      rw [ragged, same, ← List.zipIdx_eq_zip_range', ← shifted, List.filter_map, List.map_map]
      rfl

/-- A file with an empty line below its header. -/
def spaced : String := "Date,Description,Amount\n\n2026-05-01,Cafe,-4.50\n"

/-- The same file without the empty line. -/
def dense : String := "Date,Description,Amount\n2026-05-01,Cafe,-4.50\n"

def onePayment : ParsedCsv :=
  ⟨["Date", "Description", "Amount"], [["2026-05-01", "Cafe", "-4.50"]], ',', []⟩

theorem parseCsv_payment : parseCsv spaced = .ok onePayment ∧ parseCsv dense = .ok onePayment := by
  decide +kernel

def signedMapping : ColumnMapping :=
  { date := "Date", description := "Description", amount := some "Amount", convention := .signed,
    dateOrder := .ymd }

def plainReview : ReviewContext := ⟨Categorization.ascii, fun text _ => some (decimal text.toList)⟩

def paymentInput : ReviewInput := ⟨onePayment.headers, onePayment.rows, signedMapping, [], "USD", []⟩

/-- The payment stands on the third line, and is reported on the second. -/
theorem spaced_lines : ¬∀ R input text parsed, parseCsv text = .ok parsed → input.rows = parsed.rows →
    Physical R input text parsed := by
  intro physical
  have lines := (physical plainReview paymentInput spaced onePayment parseCsv_payment.1 rfl).reviewed
  have third : bodyLines spaced = [3] := by decide +kernel
  rw [reviewImport, reviewFrom_lines, third] at lines
  exact absurd lines (by decide)

theorem dense_lines : Physical plainReview paymentInput dense onePayment :=
  (lines_physical_iff plainReview paymentInput dense onePayment parseCsv_payment.2 rfl).mpr
    (marked_numbered_iff.mp (by decide +kernel))

end Finverse.Imports
