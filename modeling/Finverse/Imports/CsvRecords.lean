import Finverse.Imports.CsvRoundTrip

/-! The records of a text, and what blanks around them and carriage returns do to them. -/

namespace Finverse.Imports

open Auth (isJsSpace trim)

/-! ### Blanks -/

section Blanks

variable {a b s : List Char} {text : String}

def Blank (s : List Char) : Prop := ∀ c ∈ s, isJsSpace c = true

theorem blank_append : Blank (a ++ b) ↔ Blank a ∧ Blank b := by
  simp only [Blank, List.mem_append]
  exact ⟨fun h => ⟨fun c hc => h c (.inl hc), fun c hc => h c (.inr hc)⟩,
    fun h c hc => hc.elim (h.1 c) (h.2 c)⟩

theorem trim_blank_left (blank : Blank a) : trim (String.ofList (a ++ s)) = trim (String.ofList s) := by
  simp only [trim, String.toList_ofList]
  rw [List.dropWhile_append_of_pos blank]

theorem trim_blank_right (blank : Blank b) : trim (String.ofList (s ++ b)) = trim (String.ofList s) := by
  simp only [trim, String.toList_ofList, List.dropWhile_append]
  split
  · rename_i empty
    have whole : s.dropWhile isJsSpace = [] := List.isEmpty_iff.mp empty
    rw [whole, List.dropWhile_eq_nil_iff.mpr blank]
  · have blank' : ∀ c ∈ b.reverse, isJsSpace c = true := fun c hc => blank c (List.mem_reverse.mp hc)
    rw [List.reverse_append, List.dropWhile_append_of_pos blank']

/-- What a reader sees of a text. -/
def visible (s : List Char) : Nat := s.countP (!isJsSpace ·)

@[simp] theorem visible_append : visible (a ++ b) = visible a + visible b := List.countP_append

theorem visible_dropWhile (s : List Char) : visible (s.dropWhile isJsSpace) = visible s := by
  induction s with
  | nil => rfl
  | cons c s ih =>
    by_cases hc : isJsSpace c = true
    · rw [List.dropWhile_cons_of_pos hc, ih, visible, visible, List.countP_cons_of_neg (by simp [hc])]
    · rw [List.dropWhile_cons_of_neg hc]

theorem visible_reverse (s : List Char) : visible s.reverse = visible s := List.countP_reverse

theorem visible_trim (text : String) : visible (trim text).toList = visible text.toList := by
  simp only [trim, String.toList_ofList]
  rw [visible_reverse, visible_dropWhile, visible_reverse, visible_dropWhile]

theorem visible_eq_zero_iff : visible s = 0 ↔ Blank s := by
  simp [visible, Blank, List.countP_eq_zero]

theorem isBlank_iff : isBlank s = true ↔ Blank s := by
  constructor
  · intro blank
    apply visible_eq_zero_iff.mp
    calc visible s = visible (String.ofList s).toList := by rw [String.toList_ofList]
      _ = visible (trim (String.ofList s)).toList := (visible_trim _).symm
      _ = 0 := by
        rw [beq_iff_eq.mp blank]
        rfl
  · intro blank
    rw [isBlank, trim, String.toList_ofList, List.dropWhile_eq_nil_iff.mpr blank]
    rfl

theorem isBlank_eq_false_iff : isBlank s = false ↔ ¬Blank s := by
  rw [← isBlank_iff, Bool.not_eq_true]

end Blanks

/-! ### Quotes -/

section Quotes

variable {delimiter : Char} {inQuotes : Bool} {x y s : List Char}

/-- Whether a text that starts outside or inside quotes ends inside them. -/
def inside : Bool → List Char → Bool
  | inQuotes, [] => inQuotes
  | inQuotes, c :: text => inside (if c = '"' then !inQuotes else inQuotes) text

theorem inside_append : inside inQuotes (x ++ y) = inside (inside inQuotes x) y := by
  induction x generalizing inQuotes with
  | nil => rfl
  | cons c x ih => exact ih

theorem inside_unquoted (h : '"' ∉ s) : inside inQuotes s = inQuotes := by
  induction s with
  | nil => rfl
  | cons c s ih =>
    rw [List.mem_cons, not_or] at h
    rw [inside, if_neg (Ne.symm h.1), ih h.2]

theorem hidden_append : Hidden delimiter inQuotes (x ++ y) ↔
    Hidden delimiter inQuotes x ∧ Hidden delimiter (inside inQuotes x) y := by
  induction x generalizing inQuotes with
  | nil => simp [Hidden, inside]
  | cons c x ih =>
    simp only [List.cons_append, Hidden, inside]
    split
    · rw [ih]
    · rw [ih, and_assoc]

theorem hidden_of_not_mem (h : delimiter ∉ s) : Hidden delimiter inQuotes s := by
  induction s generalizing inQuotes with
  | nil => trivial
  | cons c s ih =>
    rw [List.mem_cons, not_or] at h
    rw [Hidden]
    split
    · exact ih h.2
    · exact ⟨fun same => absurd same.symm h.1, ih h.2⟩

/-- A text hides a symbol in its quotes, or there is a first place where it does not. -/
theorem hidden_or_cut (delimiter : Char) (hq : delimiter ≠ '"') (inQuotes : Bool) (s : List Char) :
    Hidden delimiter inQuotes s ∨ ∃ x y, s = x ++ delimiter :: y ∧ Hidden delimiter inQuotes x ∧
      inside inQuotes x = false := by
  induction s generalizing inQuotes with
  | nil => exact .inl trivial
  | cons c s ih =>
    by_cases here : c = delimiter ∧ inQuotes = false
    · obtain ⟨rfl, rfl⟩ := here
      exact .inr ⟨[], s, rfl, trivial, rfl⟩
    · have step : c ≠ '"' → c = delimiter → inQuotes = true := by
        intro _ same
        by_contra outside
        exact here ⟨same, by simpa using outside⟩
      rcases ih (if c = '"' then !inQuotes else inQuotes) with whole | ⟨x, y, rfl, before, closed⟩
      · left
        rw [Hidden]
        split
        · rename_i hc
          simpa [hc] using whole
        · rename_i hc
          exact ⟨step hc, by simpa [hc] using whole⟩
      · refine .inr ⟨c :: x, y, rfl, ?_, closed⟩
        rw [Hidden]
        split
        · rename_i hc
          simpa [hc] using before
        · rename_i hc
          exact ⟨step hc, by simpa [hc] using before⟩

end Quotes

/-! ### Records -/

section Records

variable {current x y s rest : List Char} {inQuotes : Bool}

/-- No line break outside quotes. -/
def Flat (inQuotes : Bool) (s : List Char) : Prop := Hidden '\n' inQuotes s ∧ Hidden '\r' inQuotes s

theorem flat_cons {c : Char} : Flat inQuotes (c :: s) ↔
    (inQuotes = false → c ≠ '\n' ∧ c ≠ '\r') ∧ Flat (if c = '"' then !inQuotes else inQuotes) s := by
  by_cases hc : c = '"'
  · subst hc
    simp [Flat, Hidden]
  · simp only [Flat, Hidden, if_neg hc]
    cases inQuotes
    · simp
      tauto
    · simp

/-- Text without line breaks outside quotes goes to the record that is being read. -/
theorem recordsFrom_flat (flat : Flat inQuotes s) (stops : Unquoted rest) :
    recordsFrom current inQuotes (s ++ rest) = recordsFrom (current ++ s) (inside inQuotes s) rest := by
  induction current, inQuotes, s using recordsFrom.induct with
  | case1 current inQuotes nonempty => simp [inside]
  | case2 current inQuotes nonempty => simp [inside]
  | case3 current s ih =>
    have tail : Flat true s := by simpa [flat_cons] using flat
    rw [List.cons_append, List.cons_append, recordsFrom, ih tail]
    simp [inside]
  | case4 current s ih => simp [flat_cons] at flat
  | case5 current inQuotes s notEscaped _ ih =>
    rw [flat_cons, if_pos rfl] at flat
    cases inQuotes with
    | false =>
      rw [List.cons_append, recordsFrom_open]
      refine (ih flat.2).trans ?_
      simp [inside]
    | true =>
      have unquoted : Unquoted (s ++ rest) := by
        cases s with
        | nil => exact stops
        | cons c s =>
          intro head
          have hc : c = '"' := by simpa using head
          exact notEscaped s rfl rfl (by rw [hc])
      rw [List.cons_append, recordsFrom_close unquoted]
      refine (ih flat.2).trans ?_
      simp [inside]
  | case6 current inQuotes c s _ _ hc newline ih =>
    rw [flat_cons] at flat
    rcases newline with ⟨rfl | rfl, outside⟩
    · exact absurd rfl (flat.1 outside).1
    · exact absurd rfl (flat.1 outside).2
  | case7 current inQuotes c s _ _ hc newline ih =>
    rw [flat_cons, if_neg hc] at flat
    have step : recordsFrom current inQuotes (c :: (s ++ rest)) =
        recordsFrom (current ++ [c]) inQuotes (s ++ rest) := by
      cases inQuotes with
      | false => exact recordsFrom_outside hc (flat.1 rfl).1 (flat.1 rfl).2
      | true => exact recordsFrom_inside hc
    rw [List.cons_append, step, ih flat.2]
    simp [inside, hc]

/-- The records with something to see. -/
def shown (records : List (List Char)) : List (List Char) := records.filter fun line => !isBlank line

def shownRecords (s : List Char) : List (List Char) := shown (toRecords s)

theorem shown_append (a b : List (List Char)) : shown (a ++ b) = shown a ++ shown b := List.filter_append ..

theorem shown_cons (line : List Char) (lines : List (List Char)) :
    shown (line :: lines) = shown [line] ++ shown lines := shown_append [line] lines

theorem shown_blank (blank : Blank s) : shown [s] = [] := by
  simp [shown, isBlank_iff.mpr blank]

theorem shown_visible (seen : ¬Blank s) : shown [s] = [s] := by
  simp [shown, isBlank_eq_false_iff.mpr seen]

theorem shownRecords_of_first {line : List Char} (first : toRecords s = line :: toRecords rest) :
    shownRecords s = shown [line] ++ shownRecords rest := by
  rw [shownRecords, first, shown_cons, shownRecords]

theorem shownRecords_nil : shownRecords [] = [] := rfl

theorem shownRecords_flat (flat : Flat false s) : shownRecords s = shown [s] := by
  have all : recordsFrom [] false (s ++ []) = recordsFrom ([] ++ s) (inside false s) [] :=
    recordsFrom_flat flat (by simp [Unquoted])
  rw [List.append_nil, List.nil_append] at all
  rw [shownRecords, toRecords, all]
  cases s with
  | nil => simp [recordsFrom, shown, isBlank, trim]
  | cons c s => simp [recordsFrom]

/-- A carriage return outside quotes ends a record. -/
theorem shownRecords_cut (flat : Flat false x) (closed : inside false x = false)
    (feed : y.head? ≠ some '\n') : shownRecords (x ++ '\r' :: y) = shown [x] ++ shownRecords y := by
  apply shownRecords_of_first
  rw [toRecords, recordsFrom_flat flat (by simp [Unquoted]), closed, List.nil_append]
  exact recordsFrom_ending .cr feed

/-- A line whose quotes are closed has its records to itself. -/
theorem shownRecords_line (newlines : Hidden '\n' false s) (closed : inside false s = false) :
    shownRecords (s ++ '\n' :: rest) = shownRecords s ++ shownRecords rest := by
  induction hlength : s.length using Nat.strong_induction_on generalizing s with
  | _ n ih =>
    subst hlength
    rcases hidden_or_cut '\r' (by decide) false s with whole | ⟨x, y, rfl, before, closed'⟩
    · have flat : Flat false s := ⟨newlines, whole⟩
      rw [shownRecords_flat flat]
      apply shownRecords_of_first
      rw [toRecords, recordsFrom_flat flat (by simp [Unquoted]), closed]
      simp [recordsFrom, toRecords]
    · rw [hidden_append, closed'] at newlines
      have flat : Flat false x := ⟨newlines.1, before⟩
      have after : Hidden '\n' false y := by simpa [Hidden] using newlines.2
      have closed'' : inside false y = false := by
        rw [inside_append, closed'] at closed
        exact closed
      cases y with
      | nil =>
        rw [shownRecords_cut flat closed' (by simp), shownRecords_nil, List.append_nil, List.append_assoc,
          List.singleton_append]
        apply shownRecords_of_first
        rw [toRecords, recordsFrom_flat flat (by simp [Unquoted]), closed']
        simp [recordsFrom, toRecords]
      | cons c y =>
        have hc : c ≠ '\n' := by
          rintro rfl
          simp [Hidden] at after
        have shorter : (c :: y).length < (x ++ '\r' :: c :: y).length := by
          simp only [List.length_append, List.length_cons]
          omega
        rw [shownRecords_cut flat closed' (by simpa using hc), List.append_assoc, List.cons_append,
          shownRecords_cut flat closed' (by simpa using hc),
          ih (c :: y).length shorter after closed'' rfl, List.append_assoc]

end Records

/-! ### Fields -/

section Fields

variable {current x y s a b : List Char} {inQuotes : Bool}

/-- What a reader sees of a text, besides the quotes around fields. -/
def load : Bool → List Char → Nat
  | _, [] => 0
  | true, '"' :: '"' :: rest => 1 + load true rest
  | inQuotes, c :: rest =>
    if c = '"' then load (!inQuotes) rest else (if isJsSpace c then 0 else 1) + load inQuotes rest

/-- The size of a row: its fields, and what is seen in them. -/
def weight (fields : List String) : Nat :=
  (fields.map fun field => visible field.toList).sum + fields.length

theorem weight_map_trim (fields : List String) : weight (fields.map trim) = weight fields := by
  have same : (fields.map trim).map (fun field => visible field.toList) =
      fields.map fun field => visible field.toList := by
    rw [List.map_map]
    apply List.map_congr_left
    intro field _
    rw [Function.comp_apply, visible_trim]
  rw [weight, same, List.length_map, weight]

theorem visible_singleton (c : Char) : visible [c] = if isJsSpace c then 0 else 1 := by
  by_cases hc : isJsSpace c = true <;> simp [visible, hc]

theorem splitFrom_load (current : List Char) (inQuotes : Bool) (s : List Char) :
    ((splitFrom ',' current inQuotes s).map visible).sum + (splitFrom ',' current inQuotes s).length =
      visible current + load inQuotes s + 1 := by
  induction current, inQuotes, s using splitFrom.induct ',' with
  | case1 current inQuotes => simp [splitFrom, load]
  | case2 current s ih =>
    rw [splitFrom, ih, load, visible_append, visible_singleton, if_neg (by decide)]
    omega
  | case3 current inQuotes s notEscaped ih =>
    rw [splitFrom, if_pos rfl, ih, load, if_pos rfl]
    · exact notEscaped
    · exact notEscaped
  | case4 current inQuotes c s notEscaped hc hd ih =>
    obtain ⟨rfl, rfl⟩ := hd
    rw [splitFrom, if_neg hc, if_pos ⟨rfl, rfl⟩, load, if_neg hc, if_neg (by decide)]
    · simp only [List.map_cons, List.sum_cons, List.length_cons]
      have empty : visible [] = 0 := rfl
      omega
    · exact notEscaped
    · exact notEscaped
  | case5 current inQuotes c s notEscaped hc hd ih =>
    rw [splitFrom, if_neg hc, if_neg hd, ih, load, if_neg hc, visible_append, visible_singleton]
    · omega
    · exact notEscaped
    · exact notEscaped

theorem weight_fieldsOf (s : List Char) : weight (fieldsOf ',' s) = load false s + 1 := by
  have same := splitFrom_load [] false s
  have fields : fieldsOf ',' s = ((splitLine s ',').map String.ofList).map trim := by
    rw [fieldsOf, List.map_map]
    rfl
  rw [fields, weight_map_trim, weight, List.map_map, List.length_map]
  have seen : (fun field => visible (String.toList field)) ∘ String.ofList = visible := by
    funext field
    simp
  rw [seen, splitLine, same]
  simp [visible]

theorem load_unquoted (h : '"' ∉ s) : load inQuotes s = visible s := by
  induction s with
  | nil => rfl
  | cons c s ih =>
    rw [List.mem_cons, not_or] at h
    have hc : c ≠ '"' := Ne.symm h.1
    rw [load, if_neg hc, ih h.2, ← visible_singleton]
    · exact visible_append.symm
    · intro rest _ same
      exact absurd same hc

theorem load_append (unquoted : Unquoted y) :
    load inQuotes (x ++ y) = load inQuotes x + load (inside inQuotes x) y := by
  induction inQuotes, x using load.induct with
  | case1 inQuotes => simp [load, inside]
  | case2 x ih =>
    rw [List.cons_append, List.cons_append, load, load, ih]
    simp [inside]
    omega
  | case3 inQuotes x notEscaped ih =>
    have notEscaped' : ∀ rest, inQuotes = true → '"' = '"' → x ++ y = '"' :: rest → False := by
      intro rest quoted _ same
      cases x with
      | nil =>
        rw [List.nil_append] at same
        simp [Unquoted, same] at unquoted
      | cons c x =>
        obtain ⟨rfl, -⟩ := List.cons.inj same
        exact notEscaped x quoted rfl rfl
    rw [List.cons_append, load, if_pos rfl, ih, load, if_pos rfl, inside, if_pos rfl]
    · exact notEscaped
    · exact notEscaped'
  | case4 inQuotes c x notEscaped hc ih =>
    have notQuote (rest : List Char) : ∀ text, inQuotes = true → c = '"' → rest = '"' :: text → False :=
      fun _ _ same _ => hc same
    rw [List.cons_append, load, if_neg hc, ih, load, if_neg hc, inside, if_neg hc, Nat.add_assoc]
    · exact notQuote x
    · exact notQuote (x ++ y)

/-- What is read of fields, up to blanks around each. -/
def trimmed (fields : List (List Char)) : List String := fields.map fun field => trim (String.ofList field)

theorem trimmed_cons (field : List Char) (fields : List (List Char)) :
    trimmed (field :: fields) = trim (String.ofList field) :: trimmed fields := rfl

theorem splitFrom_blank_left (blank : Blank a) :
    trimmed (splitFrom ',' (a ++ current) inQuotes s) = trimmed (splitFrom ',' current inQuotes s) := by
  induction current, inQuotes, s using splitFrom.induct ',' with
  | case1 current inQuotes => rw [splitFrom, splitFrom, trimmed_cons, trimmed_cons, trim_blank_left blank]
  | case2 current s ih =>
    rw [splitFrom, List.append_assoc, ih, splitFrom]
  | case3 current inQuotes s notEscaped ih =>
    rw [splitFrom, if_pos rfl, ih, splitFrom, if_pos rfl]
    · exact notEscaped
    · exact notEscaped
  | case4 current inQuotes c s notEscaped hc hd ih =>
    rw [splitFrom, if_neg hc, if_pos hd, splitFrom, if_neg hc, if_pos hd]
    · rw [trimmed_cons, trimmed_cons, trim_blank_left blank]
    · exact notEscaped
    · exact notEscaped
  | case5 current inQuotes c s notEscaped hc hd ih =>
    rw [splitFrom, if_neg hc, if_neg hd, List.append_assoc, ih, splitFrom, if_neg hc, if_neg hd]
    · exact notEscaped
    · exact notEscaped

/-- Blanks go to the field that is being read. -/
theorem splitFrom_blank (blank : Blank b) :
    splitFrom ',' current inQuotes (b ++ s) = splitFrom ',' (current ++ b) inQuotes s := by
  induction b generalizing current with
  | nil => simp
  | cons c b ih =>
    have space := blank c List.mem_cons_self
    have hc : c ≠ '"' := by
      rintro rfl
      exact absurd space (by decide)
    have hd : c ≠ ',' := by
      rintro rfl
      exact absurd space (by decide)
    rw [List.cons_append, splitFrom, if_neg hc, if_neg (by simp [hd]),
      ih fun c h => blank c (List.mem_cons_of_mem _ h)]
    · simp
    · intro rest _ same
      exact absurd same hc

theorem splitFrom_blank_right (blank : Blank b) :
    trimmed (splitFrom ',' current inQuotes (s ++ b)) = trimmed (splitFrom ',' current inQuotes s) := by
  induction current, inQuotes, s using splitFrom.induct ',' with
  | case1 current inQuotes =>
    rw [List.nil_append, ← List.append_nil b, splitFrom_blank blank, splitFrom, splitFrom, trimmed_cons,
      trim_blank_right blank, trimmed_cons]
  | case2 current s ih => rw [List.cons_append, List.cons_append, splitFrom, ih, splitFrom]
  | case3 current inQuotes s notEscaped ih =>
    have notEscaped' : ∀ rest, inQuotes = true → '"' = '"' → s ++ b = '"' :: rest → False := by
      intro rest quoted _ same
      cases s with
      | nil =>
        rw [List.nil_append] at same
        exact absurd (blank '"' (by simp [same])) (by decide)
      | cons c s =>
        obtain ⟨rfl, -⟩ := List.cons.inj same
        exact notEscaped s quoted rfl rfl
    rw [List.cons_append, splitFrom, if_pos rfl, ih, splitFrom, if_pos rfl]
    · exact notEscaped
    · exact notEscaped'
  | case4 current inQuotes c s notEscaped hc hd ih =>
    rw [List.cons_append, splitFrom, if_neg hc, if_pos hd, splitFrom, if_neg hc, if_pos hd, trimmed_cons, ih,
      trimmed_cons]
    · exact notEscaped
    · exact fun _ _ same _ => hc same
  | case5 current inQuotes c s notEscaped hc hd ih =>
    rw [List.cons_append, splitFrom, if_neg hc, if_neg hd, ih, splitFrom, if_neg hc, if_neg hd]
    · exact notEscaped
    · exact fun _ _ same _ => hc same

theorem fieldsOf_eq (s : List Char) : fieldsOf ',' s = trimmed (splitFrom ',' [] false s) := rfl

theorem fieldsOf_blank_left (blank : Blank a) : fieldsOf ',' (a ++ s) = fieldsOf ',' s := by
  rw [fieldsOf_eq, splitFrom_blank blank, List.nil_append, ← List.append_nil a, splitFrom_blank_left blank,
    fieldsOf_eq]

theorem fieldsOf_blank_right (blank : Blank b) : fieldsOf ',' (s ++ b) = fieldsOf ',' s :=
  splitFrom_blank_right blank

end Fields

/-! ### Torn lines -/

section Torn

variable {x y x' y' s a : List Char} {inQuotes : Bool}

/-- A carriage return outside quotes stands between things to see. -/
def Torn (s : List Char) : Prop :=
  ∃ x y, s = x ++ '\r' :: y ∧ inside false x = false ∧ ¬Blank x ∧ ¬Blank y

theorem Blank.noQuote (blank : Blank a) : '"' ∉ a := fun stored => absurd (blank '"' stored) (by decide)

theorem load_blank (blank : Blank a) : load inQuotes a = 0 := by
  rw [load_unquoted blank.noQuote]
  exact visible_eq_zero_iff.mpr blank

theorem load_cut (closed : inside false x = false) :
    load false (x ++ '\r' :: y) = load false x + load false y := by
  have step : load false ('\r' :: y) = load false y := by
    rw [load, if_neg (by decide), if_pos (by decide), Nat.zero_add]
    simp
  rw [load_append (by simp [Unquoted]), closed, step]

/-- A cut is the first one, or goes on after it. -/
theorem cut_cases (same : x ++ '\r' :: y = x' ++ '\r' :: y') (first : Hidden '\r' false x)
    (closed : inside false x' = false) :
    x' = x ∧ y' = y ∨ ∃ more, x' = x ++ '\r' :: more ∧ y = more ++ '\r' :: y' := by
  rcases List.append_eq_append_iff.mp same with ⟨more, rfl, rest⟩ | ⟨more, rfl, rest⟩
  · cases more with
    | nil => exact .inl ⟨by simp, by simpa using rest.symm⟩
    | cons c more =>
      obtain ⟨rfl, rfl⟩ := List.cons.inj rest
      exact .inr ⟨more, rfl, rfl⟩
  · cases more with
    | nil => exact .inl ⟨by simp, by simpa using rest⟩
    | cons c more =>
      obtain ⟨rfl, rfl⟩ := List.cons.inj rest
      rw [hidden_append, closed] at first
      simp [Hidden] at first

theorem head_ne_newline (newlines : Hidden '\n' false (x ++ '\r' :: y)) (closed : inside false x = false) :
    Hidden '\n' false x ∧ Hidden '\n' false y ∧ y.head? ≠ some '\n' := by
  rw [hidden_append, closed] at newlines
  have after : Hidden '\n' false y := by simpa [Hidden] using newlines.2
  refine ⟨newlines.1, after, ?_⟩
  cases y with
  | nil => simp
  | cons c y =>
    rw [List.head?_cons]
    rintro ⟨⟩
    simp [Hidden] at after

theorem shownRecords_blank (newlines : Hidden '\n' false s) (blank : Blank s) : shownRecords s = [] := by
  induction hlength : s.length using Nat.strong_induction_on generalizing s with
  | _ n ih =>
    subst hlength
    rcases hidden_or_cut '\r' (by decide) false s with whole | ⟨x, y, rfl, before, closed⟩
    · rw [shownRecords_flat ⟨newlines, whole⟩, shown_blank blank]
    · obtain ⟨before', after, feed⟩ := head_ne_newline newlines closed
      rw [blank_append] at blank
      have blank' : Blank y := fun c hc => blank.2 c (List.mem_cons_of_mem _ hc)
      rw [shownRecords_cut ⟨before', before⟩ closed feed, shown_blank blank.1,
        ih y.length (by simp; omega) after blank' rfl]
      rfl

/-- A line that is not torn has its fields in one record. -/
theorem shownRecords_whole (newlines : Hidden '\n' false s) (seen : ¬Blank s) (whole : ¬Torn s) :
    ∃ record, shownRecords s = [record] ∧ fieldsOf ',' record = fieldsOf ',' s := by
  induction hlength : s.length using Nat.strong_induction_on generalizing s with
  | _ n ih =>
    subst hlength
    rcases hidden_or_cut '\r' (by decide) false s with flat | ⟨x, y, rfl, before, closed⟩
    · exact ⟨s, by rw [shownRecords_flat ⟨newlines, flat⟩, shown_visible seen], rfl⟩
    obtain ⟨before', after, feed⟩ := head_ne_newline newlines closed
    have space : Blank ['\r'] := by simp [Blank]; decide
    rw [shownRecords_cut ⟨before', before⟩ closed feed]
    have glue : x ++ '\r' :: y = x ++ ['\r'] ++ y := by simp
    by_cases blank : Blank x
    · have seen' : ¬Blank y := by
        intro blank'
        exact seen (glue ▸ blank_append.mpr ⟨blank_append.mpr ⟨blank, space⟩, blank'⟩)
      have whole' : ¬Torn y := by
        rintro ⟨u, v, rfl, closed', hu, hv⟩
        refine whole ⟨x ++ '\r' :: u, v, by simp, ?_, ?_, hv⟩
        · rw [inside_append, closed]
          exact closed'
        · intro blank'
          exact hu fun c hc => blank' c (by simp [hc])
      obtain ⟨record, hrecord, fields⟩ := ih y.length (by simp; omega) after seen' whole' rfl
      refine ⟨record, by rw [shown_blank blank, hrecord, List.nil_append], ?_⟩
      rw [fields, glue, fieldsOf_blank_left (blank_append.mpr ⟨blank, space⟩)]
    · have blank' : Blank y := by
        by_contra seen'
        exact whole ⟨x, y, rfl, closed, blank, seen'⟩
      refine ⟨x, by rw [shown_visible blank, shownRecords_blank after blank', List.append_nil], ?_⟩
      exact (fieldsOf_blank_right (blank_append.mpr ⟨space, blank'⟩)).symm

/-- Around every cut of a line there is something to see besides quotes, or only blanks. -/
def Loaded (s : List Char) : Prop :=
  ∀ x y, s = x ++ '\r' :: y → inside false x = false →
    (¬Blank x → 1 ≤ load false x) ∧ (¬Blank y → 1 ≤ load false y)

/-- The first record of a torn line has only a part of it. -/
theorem shownRecords_torn (newlines : Hidden '\n' false s) (loaded : Loaded s) (torn : Torn s) :
    ∃ record records, shownRecords s = record :: records ∧ 1 ≤ load false record ∧
      load false record < load false s := by
  induction hlength : s.length using Nat.strong_induction_on generalizing s with
  | _ n ih =>
    subst hlength
    obtain ⟨x', y', same, closed', seen, seen'⟩ := torn
    rcases hidden_or_cut '\r' (by decide) false s with flat | ⟨x, y, rfl, before, closed⟩
    · rw [same, hidden_append, closed'] at flat
      simp [Hidden] at flat
    obtain ⟨before', after, feed⟩ := head_ne_newline newlines closed
    rw [shownRecords_cut ⟨before', before⟩ closed feed, load_cut closed]
    have rest : ¬Blank y := by
      rcases cut_cases same before closed' with ⟨-, rfl⟩ | ⟨more, -, rfl⟩
      · exact seen'
      · intro blank
        exact seen' fun c hc => blank c (by simp [hc])
    have heavy := loaded x y rfl closed
    by_cases blank : Blank x
    · have torn' : Torn y := by
        rcases cut_cases same before closed' with ⟨rfl, -⟩ | ⟨more, rfl, hy⟩
        · exact absurd blank seen
        · refine ⟨more, y', hy, ?_, ?_, seen'⟩
          · rw [inside_append, closed] at closed'
            exact closed'
          · intro blank'
            refine seen (blank_append.mpr ⟨blank, ?_⟩)
            intro c hc
            rcases List.mem_cons.mp hc with rfl | hc
            · decide
            · exact blank' c hc
      have loaded' : Loaded y := by
        rintro u v rfl hu
        have glue : x ++ '\r' :: (u ++ '\r' :: v) = (x ++ '\r' :: u) ++ '\r' :: v := by simp
        have closed'' : inside false (x ++ '\r' :: u) = false := by
          rw [inside_append, closed]
          exact hu
        obtain ⟨left, right⟩ := loaded _ v glue closed''
        rw [load_cut closed, load_blank blank, Nat.zero_add] at left
        refine ⟨fun hu => left ?_, right⟩
        intro blank'
        exact hu fun c hc => blank' c (by simp [hc])
      obtain ⟨record, records, hrecords, least, most⟩ := ih y.length (by simp; omega) after loaded' torn' rfl
      refine ⟨record, records, by rw [shown_blank blank, hrecords, List.nil_append], least, ?_⟩
      omega
    · have left := heavy.1 blank
      have right := heavy.2 rest
      exact ⟨x, shownRecords y, by rw [shown_visible blank, List.singleton_append], left, by omega⟩

end Torn

/-! ### The mark of a file -/

section Mark

variable {current a s : List Char} {inQuotes : Bool}

/-- The fields of the records with something to see. -/
def shownFields (records : List (List Char)) : List (List String) := (shown records).map (fieldsOf ',')

theorem shownFields_cons (line : List Char) (lines : List (List Char)) :
    shownFields (line :: lines) = shownFields [line] ++ shownFields lines := by
  rw [shownFields, shown_cons, List.map_append]
  rfl

theorem shownFields_blank_left (blank : Blank a) : shownFields [a ++ s] = shownFields [s] := by
  by_cases seen : Blank s
  · rw [shownFields, shownFields, shown_blank (blank_append.mpr ⟨blank, seen⟩), shown_blank seen]
  · rw [shownFields, shownFields, shown_visible fun h => seen (blank_append.mp h).2, shown_visible seen,
      List.map_singleton, List.map_singleton, fieldsOf_blank_left blank]

theorem recordsFrom_blank_left (blank : Blank a) :
    shownFields (recordsFrom (a ++ current) inQuotes s) = shownFields (recordsFrom current inQuotes s) := by
  have nothing : shownFields [[]] = [] := by
    rw [shownFields, shown_blank (by simp [Blank])]
    rfl
  have last (current : List Char) :
      shownFields (if current.length > 0 then [current] else []) = shownFields [current] := by
    split
    · rfl
    · rename_i empty
      obtain rfl := List.length_eq_zero_iff.mp (Nat.le_zero.mp (Nat.not_lt.mp empty))
      rw [nothing]
      rfl
  induction current, inQuotes, s using recordsFrom.induct with
  | case1 current inQuotes nonempty => rw [recordsFrom, recordsFrom, last, last, shownFields_blank_left blank]
  | case2 current inQuotes empty => rw [recordsFrom, recordsFrom, last, last, shownFields_blank_left blank]
  | case3 current s ih => rw [recordsFrom, recordsFrom, List.append_assoc, ih]
  | case4 current s ih =>
    rw [recordsFrom, recordsFrom, shownFields_cons, shownFields_blank_left blank, ← shownFields_cons]
  | case5 current inQuotes s notEscaped notFeed ih =>
    rw [recordsFrom, if_pos rfl, List.append_assoc, ih, recordsFrom, if_pos rfl]
    · exact notEscaped
    · exact notFeed
    · exact notEscaped
    · exact notFeed
  | case6 current inQuotes c s notEscaped notFeed hc newline ih =>
    rw [recordsFrom, if_neg hc, if_pos newline, shownFields_cons, shownFields_blank_left blank,
      ← shownFields_cons, recordsFrom, if_neg hc, if_pos newline]
    · exact notEscaped
    · exact notFeed
    · exact notEscaped
    · exact notFeed
  | case7 current inQuotes c s notEscaped notFeed hc newline ih =>
    rw [recordsFrom, if_neg hc, if_neg newline, List.append_assoc, ih, recordsFrom, if_neg hc, if_neg newline]
    · exact notEscaped
    · exact notFeed
    · exact notEscaped
    · exact notFeed

/-- The mark is a blank before the first field. -/
theorem withoutMark_fields (s : List Char) :
    shownFields (toRecords (withoutMark s)) = shownFields (toRecords s) := by
  unfold withoutMark
  split
  · rename_i text
    have mark : Blank ['\ufeff'] := by simp [Blank]; decide
    have all : shownFields (recordsFrom (['\ufeff'] ++ []) false text) =
        shownFields (recordsFrom [] false text) := recordsFrom_blank_left mark
    rw [toRecords, ← all]
    simp [toRecords, recordsFrom]
  · rfl

end Mark

end Finverse.Imports
