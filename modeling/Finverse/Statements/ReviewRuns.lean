import Finverse.Framework.Steps
import Finverse.Statements.RowReview

/-! Runs of edits, decisions, splits and merges, and the rows that come from ones still to be
reviewed. -/

namespace Finverse.Statements

open Interleave Ledger

/-! ### Calls -/

inductive RowCall
  | edit (rowId : String) (input : EditStatementRowInput)
  | decide (rowIds : Option (List Scalar)) (decision : Option Scalar)
  | split (rowId : String) (parts : Option (List (Option SplitPart)))
  | merge (rowIds : Option (List Scalar))

/-- The rows that the new rows of a call come from. -/
def RowCall.sources (rows : List StatementRowRecord) : RowCall → List StatementRowRecord
  | .edit .. | .decide .. => []
  | .split rowId _ => (Table.lookup StatementRowRecord.id rowId rows).toList
  | .merge input =>
    ((rowIdsOf input 2 10).map fun ids => rows.filter fun row => row.id ∈ ids).getD []

/-- The rows that the user includes by a call. -/
def RowCall.included : RowCall → List String
  | .edit rowId input =>
    if input.decision.bind Scalar.decision = some .include then [rowId] else []
  | .decide input decision =>
    if decision.bind Scalar.decision = some .include then (rowIdsOf input 1 10000).getD [] else []
  | .split .. | .merge .. => []

/-- A merge is of rows that sum to an amount of the sign of the first of them. -/
def RowCall.Signed (rows : List StatementRowRecord) (call : RowCall) : Prop :=
  match call with
  | .merge _ => Mergeable (call.sources rows)
  | _ => True

/-- Statements under review. The ids are history: they are of rows that come from one that still
needed review, and that the user has not included since. -/
structure RowReview where
  imports : Imports
  unreviewed : List String := []

section Calls

variable (P : Primitives) (A : Adapter) (userId importId : String)

/-- A call as it is served, and the rows that it answers with. -/
def RowCall.request (call : RowCall × Draw) : Service (List StatementRowRecord) :=
  match call.1 with
  | .edit rowId input => do
    let row ← editRow P userId importId rowId input call.2
    return [row]
  | .decide rowIds decision => decideRows userId importId rowIds decision call.2
  | .split rowId parts => splitRow P userId importId rowId parts call.2
  | .merge rowIds => do
    let row ← mergeRows P userId importId rowIds call.2
    return [row]

/-- A call in the history of a review. What comes from a row nobody reviewed was not reviewed. -/
def RowReview.step (call : RowCall × Draw) (r : RowReview) : RowReview :=
  match A.run (RowCall.request P userId importId call) r.imports with
  | (.error _, imports) => { r with imports }
  | (.ok rows, imports) =>
    let kept := r.unreviewed.filter fun id => id ∉ call.1.included
    let derived := (call.1.sources (A.read r.imports userId importId)).any fun source =>
      source.decision = .needsReview || source.id ∈ r.unreviewed
    { imports, unreviewed := if derived then kept ++ rowIds rows else kept }

/-- Every row is consistent, and no included row comes from one nobody reviewed. -/
def RowReview.InOrder (r : RowReview) : Prop :=
  ∀ row ∈ r.imports.rowsOf userId importId,
    Consistent P row ∧ (row.decision = .include → row.id ∉ r.unreviewed)

/-- No row that needs review is split or merged, and merges keep the sign. -/
def RowCall.Careful (call : RowCall × Draw) (r : RowReview) : Prop :=
  let read := A.read r.imports userId importId
  ∀ rows, (A.run (RowCall.request P userId importId call) r.imports).1 = .ok rows →
    (∀ source ∈ call.1.sources read, source.decision ≠ .needsReview) ∧ call.1.Signed read

end Calls

/-! ### What a call does to the rows -/

section Outcomes

variable {P : Primitives} {A : Adapter} {w w' : Imports} {userId importId : String} {draw : Draw}

theorem rowIds_map {rows : List StatementRowRecord} {f : StatementRowRecord → StatementRowRecord}
    (keeps : ∀ row, (f row).id = row.id) : rowIds (rows.map f) = rowIds rows := by
  rw [rowIds, List.map_map, rowIds]
  exact List.map_congr_left fun row _ => keeps row

/-- What a call that succeeds makes of the rows of a statement. -/
structure Outcome (P : Primitives) (A : Adapter) (userId importId : String) (call : RowCall)
    (w : Imports) (answer : List StatementRowRecord) (w' : Imports) : Prop where
  keyed : A.Keyed (w'.rowsOf userId importId)
  consistent : (∀ row ∈ w.rowsOf userId importId, Consistent P row) →
    ((∀ row ∈ w'.rowsOf userId importId, Consistent P row) ↔
      call.Signed (A.read w userId importId))
  included : call.sources (A.read w userId importId) ≠ [] →
    ∃ row ∈ answer, row ∈ w'.rowsOf userId importId ∧ row.decision = .include

theorem edit_outcome {rowId : String} {input : EditStatementRowInput} {result : StatementRowRecord}
    (keyed : A.Keyed (w.rowsOf userId importId))
    (ok : A.run (editRow P userId importId rowId input draw) w = (.ok result, w')) :
    Outcome P A userId importId (.edit rowId input) w [result] w' := by
  obtain ⟨s, current, row, patch, found, ready, read, stored, planned, replied, after⟩ :=
    editRow_ok ok
  have before := rowsOf_find found
  rw [before] at keyed
  have same := lookup_read found (by simp [ready]) keyed read
  obtain rfl : current = row := Option.some.inj (same.symm.trans stored)
  have ids : rowIds (Table.modify StatementRowRecord.id rowId (fun _ => result) s.rows) =
      rowIds s.rows := by
    apply Table.map_key_modify
    intro row looked
    obtain rfl : current = row := Option.some.inj (stored.symm.trans looked)
    rw [replied]
    rfl
  refine ⟨?_, ?_, by simp [RowCall.sources]⟩
  · rw [after, Adapter.Keyed, ids]
    exact keyed
  · intro consistent
    rw [before] at consistent
    refine ⟨fun _ => trivial, fun _ row written => ?_⟩
    rw [after] at written
    rcases Table.mem_modify written with old | ⟨_, _, _, rfl⟩
    · exact consistent row old
    · rw [replied]
      exact consistent_edited (consistent current (Table.lookup_mem stored)) planned

theorem decide_outcome {input : Option (List Scalar)} {given : Option Scalar}
    {result : List StatementRowRecord} (keyed : A.Keyed (w.rowsOf userId importId))
    (ok : A.run (decideRows userId importId input given draw) w = (.ok result, w')) :
    Outcome P A userId importId (.decide input given) w result w' := by
  obtain ⟨s, ids, decision, found, ready, -, -, after⟩ := decideRows_ok ok
  have before := rowsOf_find found
  rw [before] at keyed
  refine ⟨?_, ?_, by simp [RowCall.sources]⟩
  · rw [after, Adapter.Keyed, rowIds_map fun row => by split <;> rfl]
    exact keyed
  · intro consistent
    rw [before] at consistent
    refine ⟨fun _ => trivial, fun _ row written => ?_⟩
    rw [after] at written
    obtain ⟨old, stored, rfl⟩ := List.mem_map.mp written
    split
    · exact consistent_decided.mpr (consistent old stored)
    · exact consistent old stored

theorem planSplit_new {current : StatementRowRecord} {parts : Option (List (Option SplitPart))}
    {now : Instant} {new : List StatementRowRecord} (ok : planSplit P current parts now = .ok new) :
    new ≠ [] ∧ ∀ row ∈ new, Consistent P row ∧ row.decision = .include := by
  obtain ⟨parts, given, ok⟩ := bind_ok ok
  obtain ⟨rows, numbered, ok⟩ := bind_ok ok
  obtain ⟨_, -, ok⟩ := bind_ok ok
  obtain rfl := Except.ok.inj ok
  have several := (Option.filter_eq_some_iff.mp (orThrow_ok given)).2
  constructor
  · cases parts with
    | nil => simp at several
    | cons part parts =>
      obtain ⟨part, -, numbered⟩ := bind_ok numbered
      obtain ⟨amount, -, numbered⟩ := bind_ok numbered
      obtain ⟨rest, -, numbered⟩ := bind_ok numbered
      obtain rfl := Except.ok.inj numbered
      simp
  · intro row stored
    exact ⟨splitParts_consistent numbered row stored, ((splitParts_rows numbered).1 row stored).1⟩

theorem split_outcome {rowId : String} {parts : Option (List (Option SplitPart))}
    {result : List StatementRowRecord}
    (ok : A.run (splitRow P userId importId rowId parts draw) w = (.ok result, w')) :
    Outcome P A userId importId (.split rowId parts) w result w' := by
  obtain ⟨s, current, found, ready, read, planned, fresh, after⟩ := splitRow_ok ok
  obtain ⟨some_new, new⟩ := planSplit_new planned
  have before := rowsOf_find found
  refine ⟨?_, ?_, ?_⟩
  · rw [after]
    exact Adapter.Keyed.append found (Table.map_key_modify fun _ _ => rfl) fresh
  · intro consistent
    rw [before] at consistent
    refine ⟨fun _ => trivial, fun _ row written => ?_⟩
    rw [after] at written
    rcases List.mem_append.mp written with kept | added
    · rcases Table.mem_modify kept with stored | ⟨old, stored, -, rfl⟩
      · exact consistent row stored
      · exact consistent_superseded.mpr (consistent old stored)
    · exact (new row added).1
  · intro _
    obtain ⟨row, added⟩ := List.exists_mem_of_ne_nil result some_new
    rw [after]
    exact ⟨row, added, List.mem_append_right _ added, (new row added).2⟩

theorem merge_outcome {input : Option (List Scalar)} {result : StatementRowRecord}
    (ok : A.run (mergeRows P userId importId input draw) w = (.ok result, w')) :
    Outcome P A userId importId (.merge input) w [result] w' := by
  obtain ⟨s, ids, found, ready, given, planned, fresh, after⟩ := mergeRows_ok ok
  obtain ⟨first, rest, wanted, worth, rfl⟩ := planMerge_ok planned
  have before := rowsOf_find found
  have sources : (RowCall.merge input).sources (A.read w userId importId) = first :: rest := by
    simp [RowCall.sources, given, wanted]
  refine ⟨?_, ?_, ?_⟩
  · rw [after]
    exact Adapter.Keyed.append found (rowIds_map fun row => by split <;> rfl) fresh
  · intro consistent
    rw [before] at consistent
    have stored : first ∈ s.rows := by
      have read : first ∈ A.read w userId importId := by
        apply List.mem_of_mem_filter
        rw [wanted]
        exact List.mem_cons_self
      exact (read_perm found (by simp [ready])).subset read
    have merged : Consistent P (mergedRow P first (first :: rest) draw) ↔ Mergeable (first :: rest) :=
      consistent_mergedRow (consistent first stored) (worth first List.mem_cons_self)
    rw [RowCall.Signed, sources, ← merged, after]
    constructor
    · intro all
      exact all _ (by simp)
    · intro new row written
      rcases List.mem_append.mp written with kept | added
      · obtain ⟨old, stored, rfl⟩ := List.mem_map.mp kept
        split
        · exact consistent_superseded.mpr (consistent old stored)
        · exact consistent old stored
      · rw [List.mem_singleton.mp added]
        exact new
  · intro _
    rw [after]
    exact ⟨_, List.mem_singleton_self _, by simp, rfl⟩

end Outcomes

/-! ### Runs -/

section Runs

variable {P : Primitives} {A : Adapter} {userId importId : String} {r : RowReview}
  {call : RowCall × Draw} {w w' imports : Imports} {rows : List StatementRowRecord} {e : HttpError}

theorem request_outcome (keyed : A.Keyed (w.rowsOf userId importId))
    (ok : A.run (RowCall.request P userId importId call) w = (.ok rows, w')) :
    Outcome P A userId importId call.1 w rows w' := by
  obtain ⟨call, draw⟩ := call
  cases call with
  | edit rowId input =>
    obtain ⟨row, w₁, edited, ok⟩ := Adapter.run_bind_ok ok
    obtain ⟨answered, rfl⟩ := Prod.mk.inj ok
    obtain rfl := Except.ok.inj answered
    exact edit_outcome keyed edited
  | decide rowIds decision => exact decide_outcome keyed ok
  | split rowId parts => exact split_outcome ok
  | merge rowIds =>
    obtain ⟨row, w₁, merged, ok⟩ := Adapter.run_bind_ok ok
    obtain ⟨answered, rfl⟩ := Prod.mk.inj ok
    obtain rfl := Except.ok.inj answered
    exact merge_outcome merged

theorem request_error
    (failed : A.run (RowCall.request P userId importId call) w = (.error e, w')) :
    w.Unchanged w' := by
  obtain ⟨call, draw⟩ := call
  cases call with
  | edit rowId input =>
    rcases Adapter.run_bind_error failed with stopped | ⟨row, w₁, -, returned⟩
    · exact editRow_error stopped
    · cases returned
  | decide rowIds decision => exact decideRows_error failed
  | split rowId parts => exact splitRow_error failed
  | merge rowIds =>
    rcases Adapter.run_bind_error failed with stopped | ⟨row, w₁, -, returned⟩
    · exact mergeRows_error stopped
    · cases returned

/-- A call that succeeds where every row was reviewed. -/
theorem step_ok (reviewed : r.unreviewed = [])
    (ran : A.run (RowCall.request P userId importId call) r.imports = (.ok rows, imports)) :
    RowReview.step P A userId importId call r =
      { imports
        unreviewed :=
          if ∃ source ∈ call.1.sources (A.read r.imports userId importId),
            source.decision = .needsReview then rowIds rows else [] } := by
  rw [RowReview.step, ran]
  simp [reviewed]

/-- No row comes from one that needed a review, and ids differ where they must. -/
structure RowReview.Settled (A : Adapter) (userId importId : String) (r : RowReview) : Prop where
  keyed : A.Keyed (r.imports.rowsOf userId importId)
  reviewed : r.unreviewed = []

/-- Where every row was reviewed, a call keeps the rows in order exactly when it is careful. -/
theorem RowReview.Settled.step_inOrder_iff (settled : r.Settled A userId importId)
    (inOrder : r.InOrder P userId importId) :
    (RowReview.step P A userId importId call r).InOrder P userId importId ↔
      RowCall.Careful P A userId importId call r := by
  rcases ran : A.run (RowCall.request P userId importId call) r.imports with ⟨e | rows, imports⟩
  · have same : imports.rowsOf userId importId = r.imports.rowsOf userId importId :=
      (request_error ran).rowsOf
    have kept : (RowReview.step P A userId importId call r).InOrder P userId importId := by
      rw [RowReview.step, ran]
      intro row stored
      rw [same] at stored
      exact inOrder row stored
    have careful : RowCall.Careful P A userId importId call r := by
      intro rows ok
      rw [ran] at ok
      cases ok
    exact iff_of_true kept careful
  · have outcome := request_outcome settled.keyed ran
    have signed := outcome.consistent fun row stored => (inOrder row stored).1
    have careful : RowCall.Careful P A userId importId call r ↔
        (∀ source ∈ call.1.sources (A.read r.imports userId importId),
          source.decision ≠ .needsReview) ∧ call.1.Signed (A.read r.imports userId importId) := by
      simp [RowCall.Careful, ran]
    rw [careful, step_ok settled.reviewed ran, ← signed]
    by_cases waiting : ∃ source ∈ call.1.sources (A.read r.imports userId importId),
        source.decision = .needsReview
    · -- The new rows are included at once.
      obtain ⟨source, taken, waits⟩ := waiting
      obtain ⟨row, answered, stored, included⟩ := outcome.included (List.ne_nil_of_mem taken)
      constructor
      · intro broken
        rw [if_pos ⟨source, taken, waits⟩] at broken
        exact absurd (List.mem_map_of_mem answered) ((broken row stored).2 included)
      · intro careful
        exact absurd waits (careful.1 source taken)
    · rw [if_neg waiting]
      push Not at waiting
      have reviewed : (RowReview.mk imports []).InOrder P userId importId ↔
          ∀ row ∈ imports.rowsOf userId importId, Consistent P row := by
        simp [RowReview.InOrder]
      rw [reviewed]
      exact (and_iff_right waiting).symm

/-- A careful call leaves every row reviewed. -/
theorem RowReview.Settled.step (settled : r.Settled A userId importId)
    (careful : RowCall.Careful P A userId importId call r) :
    (RowReview.step P A userId importId call r).Settled A userId importId := by
  rcases ran : A.run (RowCall.request P userId importId call) r.imports with ⟨e | rows, imports⟩
  · rw [RowReview.step, ran]
    refine ⟨?_, settled.reviewed⟩
    rw [Adapter.Keyed, (request_error ran).rowsOf]
    exact settled.keyed
  · rw [step_ok settled.reviewed ran]
    refine ⟨(request_outcome settled.keyed ran).keyed, if_neg ?_⟩
    rintro ⟨source, taken, waits⟩
    exact (careful rows (by rw [ran])).1 source taken waits

/-- Edits, decisions, splits and merges keep the rows of a statement in order exactly when they were
in order, no row is split or merged that needs review, and every merge keeps the sign. -/
theorem rows_inOrder_iff (P : Primitives) (A : Adapter) (userId importId : String)
    (calls : List (RowCall × Draw)) (w : Imports) (keyed : A.Keyed (w.rowsOf userId importId)) :
    Steps.Always (RowReview.step P A userId importId) (RowReview.InOrder P userId importId) calls ⟨w, []⟩ ↔
      (∀ row ∈ w.rowsOf userId importId, Consistent P row) ∧
        Steps.Each (RowReview.step P A userId importId) (RowCall.Careful P A userId importId) calls
          ⟨w, []⟩ := by
  have start : (RowReview.mk w []).InOrder P userId importId ↔
      ∀ row ∈ w.rowsOf userId importId, Consistent P row := by
    simp [RowReview.InOrder]
  rw [← start]
  have settled : (RowReview.mk w []).Settled A userId importId := ⟨keyed, rfl⟩
  exact Steps.always_iff (fun _ _ settled _ careful => settled.step careful)
    (fun _ _ settled inOrder => settled.step_inOrder_iff inOrder) calls settled

end Runs

/-! ### Rows that nobody reviewed -/

/-- A purchase that is perhaps in the account already. -/
def doubtful : StatementRowRecord :=
  { purchase with flags := ["possible_duplicate"], decision := .needsReview }

/-- The shop pays back more than the purchase. -/
def payback : StatementRowRecord :=
  withFingerprint plain { purchase with
    id := "stmt_row_2", sourceLine := 2, amount := some 5000, direction := .credit }

def includeIt : RowCall × Draw :=
  (.decide (some [.string "stmt_row_1"]) (some (.string "include")), ⟨"u1", 1⟩)

def halve : RowCall × Draw :=
  (.split "stmt_row_1" (some [half "bread", half "cheese"]), ⟨"u2", 2⟩)

def mergeBoth : RowCall × Draw :=
  (.merge (some [.string "stmt_row_1", .string "stmt_row_2"]), ⟨"u3", 3⟩)

theorem consistent_doubtful : Consistent plain doubtful where
  signed := by
    intro amount known
    obtain rfl : -2000 = amount := Option.some.inj known
    decide
  fingerprinted := by decide +kernel

theorem consistent_payback : Consistent plain payback where
  signed := by
    intro amount known
    obtain rfl : 5000 = amount := Option.some.inj known
    decide
  fingerprinted := rfl

theorem included_before_split :
    Steps.Always (RowReview.step plain .postgres "sam" "stmt") (RowReview.InOrder plain "sam" "stmt")
      [includeIt, halve] ⟨uploaded .postgres [doubtful], []⟩ := by
  have stored : (uploaded .postgres [doubtful]).rowsOf "sam" "stmt" = [doubtful] := by decide +kernel
  apply (rows_inOrder_iff plain .postgres "sam" "stmt" [includeIt, halve] _
    (fun _ => by decide +kernel)).mpr
  refine ⟨?_, ?_, ?_, trivial⟩
  · rw [stored]
    simpa using consistent_doubtful
  · exact fun _ _ => ⟨by simp [includeIt, RowCall.sources], trivial⟩
  · exact fun _ _ => ⟨by decide +kernel, trivial⟩

theorem unreviewed_and_missigned :
    (∀ row ∈ [doubtful, payback], Consistent plain row) ∧
      ¬Steps.Always (RowReview.step plain .memory "sam" "stmt") (RowReview.InOrder plain "sam" "stmt")
        [halve] ⟨uploaded .memory [doubtful], []⟩ ∧
      ¬Steps.Always (RowReview.step plain .memory "sam" "stmt") (RowReview.InOrder plain "sam" "stmt")
        [includeIt, mergeBoth] ⟨uploaded .memory [doubtful, payback], []⟩ := by
  refine ⟨?_, ?_, ?_⟩
  · simpa using ⟨consistent_doubtful, consistent_payback⟩
  · rintro ⟨-, inOrder⟩
    have part : ∃ row ∈ (RowReview.step plain .memory "sam" "stmt" halve
        ⟨uploaded .memory [doubtful], []⟩).imports.rowsOf "sam" "stmt",
        row.decision = .include ∧ row.id ∈ (RowReview.step plain .memory "sam" "stmt" halve
          ⟨uploaded .memory [doubtful], []⟩).unreviewed := by decide +kernel
    obtain ⟨row, stored, included, unreviewed⟩ := part
    exact (inOrder row stored).2 included unreviewed
  · rintro ⟨-, -, inOrder⟩
    have merged : ∃ row ∈ (RowReview.step plain .memory "sam" "stmt" mergeBoth
        (RowReview.step plain .memory "sam" "stmt" includeIt
          ⟨uploaded .memory [doubtful, payback], []⟩)).imports.rowsOf "sam" "stmt",
        row.amount = some 3000 ∧ row.direction = .debit := by decide +kernel
    obtain ⟨row, stored, worth, debit⟩ := merged
    exact absurd (((inOrder row stored).1.signed 3000 worth).2.mp debit) (by decide)

end Finverse.Statements
