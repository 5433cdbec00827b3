import Finverse.Categorization.Spread
import Mathlib.Data.List.Chain
import Mathlib.Data.List.TakeWhile

/-! What the steps that put blanks into a descriptor leave behind. -/

namespace Finverse.Categorization

open Auth (isJsSpace)

/-! ### Trimming -/

/-- There is no blank at the start, and none at the end. -/
structure IsTrimmed (cs : List Char) : Prop where
  first : cs.head?.any isJsSpace = false
  last : cs.getLast?.any isJsSpace = false

variable {cs : List Char}

theorem head_dropWhile (inClass : Char → Bool) (cs : List Char) :
    (cs.dropWhile inClass).head?.any inClass = false := by
  induction cs with
  | nil => rfl
  | cons c cs ih =>
    by_cases h : inClass c = true
    · rw [List.dropWhile_cons_of_pos h]
      exact ih
    · rw [List.dropWhile_cons_of_neg h]
      simpa using h

theorem dropWhile_of_head {inClass : Char → Bool} (h : cs.head?.any inClass = false) : cs.dropWhile inClass = cs := by
  cases cs with
  | nil => rfl
  | cons c cs => exact List.dropWhile_cons_of_neg (by simpa using h)

theorem IsTrimmed.trimmed_eq (h : IsTrimmed cs) : trimmed cs = cs := by
  have last : cs.reverse.head?.any isJsSpace = false := by
    rw [List.head?_reverse]
    exact h.last
  rw [trimmed, dropWhile_of_head h.first, dropWhile_of_head last, List.reverse_reverse]

/-- Only blanks are cut off. -/
theorem dropWhile_eq_trimmed (cs : List Char) :
    ∃ blanks, cs.dropWhile isJsSpace = trimmed cs ++ blanks ∧ ∀ c ∈ blanks, isJsSpace c = true := by
  refine ⟨((cs.dropWhile isJsSpace).reverse.takeWhile isJsSpace).reverse, ?_, ?_⟩
  · rw [trimmed, ← List.reverse_append, List.takeWhile_append_dropWhile, List.reverse_reverse]
  · intro c listed
    exact List.mem_takeWhile_imp (List.mem_reverse.mp listed)

theorem isTrimmed_trimmed (cs : List Char) : IsTrimmed (trimmed cs) := by
  constructor
  · obtain ⟨blanks, split, -⟩ := dropWhile_eq_trimmed cs
    have first := head_dropWhile isJsSpace cs
    rw [split] at first
    cases left : trimmed cs with
    | nil => rfl
    | cons c left' =>
      rw [left] at first
      exact first
  · rw [trimmed, List.getLast?_reverse]
    exact head_dropWhile isJsSpace _

theorem trimmed_part (cs : List Char) : trimmed cs <:+: cs := by
  obtain ⟨blanks, split, -⟩ := dropWhile_eq_trimmed cs
  have front : trimmed cs <+: cs.dropWhile isJsSpace := by
    rw [split]
    exact List.prefix_append _ _
  exact front.isInfix.trans (List.dropWhile_suffix _).isInfix

/-! ### Patterns that match nowhere -/

/-- The pattern matches at no place. -/
def Clear (pattern : Option Char → List Char → Nat) : Option Char → List Char → Prop
  | _, [] => True
  | before, c :: cs => pattern before (c :: cs) = 0 ∧ Clear pattern (some c) cs

variable {pattern pattern' : Option Char → List Char → Nat} {before : Option Char}

theorem Clear.blankMatches (h : Clear pattern before cs) : blankMatches pattern before 0 cs = cs := by
  induction cs generalizing before with
  | nil => rfl
  | cons c cs ih =>
    rw [Categorization.blankMatches, h.1]
    exact congrArg (List.cons c) (ih h.2)

theorem Clear.blanked (h : Clear pattern none cs) : blanked pattern cs = cs := h.blankMatches

theorem Clear.mono (h : Clear pattern before cs)
    (less : ∀ before tail, pattern before tail = 0 → pattern' before tail = 0) : Clear pattern' before cs := by
  induction cs generalizing before with
  | nil => trivial
  | cons c cs ih => exact ⟨less before _ h.1, ih h.2⟩

theorem clear_of_suffix (h : ∀ before tail, tail <:+ cs → pattern before tail = 0) (before : Option Char) :
    Clear pattern before cs := by
  induction cs generalizing before with
  | nil => trivial
  | cons c cs ih =>
    refine ⟨h before (c :: cs) (List.suffix_refl _), ih ?_ _⟩
    intro before' tail place
    exact h before' tail (place.trans (List.suffix_cons c cs))

/-! ### What is kept in one piece -/

/-- A piece without a blank that is left was there before, at a place where the pattern does not match. -/
theorem prefix_of_blankMatches {piece : List Char} (solid : ∀ c ∈ piece, c ≠ ' ') (some_piece : piece ≠ [])
    (h : piece <+: blankMatches pattern before 0 cs) : piece <+: cs ∧ pattern before cs = 0 := by
  induction piece generalizing before cs with
  | nil => exact absurd rfl some_piece
  | cons d piece ih =>
    cases cs with
    | nil => simp [blankMatches] at h
    | cons c cs =>
      rw [blankMatches] at h
      split at h
      · next free =>
        obtain ⟨rfl, more⟩ := List.cons_prefix_cons.mp h
        refine ⟨List.cons_prefix_cons.mpr ⟨rfl, ?_⟩, free⟩
        by_cases last : piece = []
        · rw [last]
          exact List.nil_prefix
        · exact (ih (fun c listed => solid c (List.mem_cons_of_mem d listed)) last more).1
      · exact absurd (List.cons_prefix_cons.mp h).1 (solid d List.mem_cons_self)

theorem infix_of_blankMatches {piece : List Char} (solid : ∀ c ∈ piece, c ≠ ' ') (some_piece : piece ≠ [])
    (rest : Nat) (h : piece <:+: blankMatches pattern before rest cs) :
    ∃ before' tail, tail <:+ cs ∧ piece <+: tail ∧ pattern before' tail = 0 := by
  induction cs generalizing before rest with
  | nil =>
    rw [show blankMatches pattern before rest [] = [] by cases rest <;> rfl] at h
    exact absurd (List.infix_nil.mp h) some_piece
  | cons c cs ih =>
    have further {before' : Option Char} {rest' : Nat} (h' : piece <:+: blankMatches pattern before' rest' cs) :
        ∃ before' tail, tail <:+ c :: cs ∧ piece <+: tail ∧ pattern before' tail = 0 := by
      obtain ⟨before', tail, place, kept, free⟩ := ih rest' h'
      exact ⟨before', tail, place.trans (List.suffix_cons c cs), kept, free⟩
    cases rest with
    | succ rest => exact further h
    | zero =>
      have here (start : piece <+: blankMatches pattern before 0 (c :: cs)) :
          ∃ before' tail, tail <:+ c :: cs ∧ piece <+: tail ∧ pattern before' tail = 0 := by
        obtain ⟨kept, free⟩ := prefix_of_blankMatches solid some_piece start
        exact ⟨before, c :: cs, List.suffix_refl _, kept, free⟩
      rw [blankMatches] at h here
      split at h
      · next free =>
        rcases List.infix_cons_iff.mp h with start | later
        · exact here (by simpa only [free] using start)
        · exact further later
      · next rest match_ =>
        rcases List.infix_cons_iff.mp h with start | later
        · exact here (by simpa only [match_] using start)
        · exact further later

theorem infix_of_blanked {piece : List Char} (solid : ∀ c ∈ piece, c ≠ ' ') (some_piece : piece ≠ [])
    (h : piece <:+: blanked pattern cs) : piece <:+: cs := by
  obtain ⟨before, tail, place, kept, -⟩ := infix_of_blankMatches solid some_piece 0 h
  exact kept.isInfix.trans place.isInfix

/-! ### Characters of a class -/

theorem run_cons (inClass : Char → Bool) (c : Char) (cs : List Char) :
    run inClass (c :: cs) = if inClass c = true then run inClass cs + 1 else 0 := by
  unfold run
  by_cases h : inClass c = true
  · rw [List.takeWhile_cons_of_pos h, if_pos h, List.length_cons]
  · rw [List.takeWhile_cons_of_neg h, if_neg h, List.length_nil]

variable {inClass : Char → Bool}

theorem blankMatches_class {rest : Nat} (part : rest ≤ run inClass cs) :
    ∀ c ∈ blankMatches (anyOf inClass) before rest cs, inClass c = true → c = ' ' := by
  induction cs generalizing before rest with
  | nil => simp [blankMatches]
  | cons d cs ih =>
    rw [run_cons] at part
    cases rest with
    | succ rest =>
      rw [blankMatches]
      apply ih
      split at part <;> omega
    | zero =>
      rw [blankMatches, anyOf, run_cons]
      by_cases h : inClass d = true
      · rw [if_pos h]
        exact List.forall_mem_cons.mpr ⟨fun _ => rfl, ih le_rfl⟩
      · rw [if_neg h]
        exact List.forall_mem_cons.mpr ⟨fun h' => absurd h' h, ih (Nat.zero_le _)⟩

/-- After a match the next character is none of the class. -/
theorem blankMatches_chain {rest : Nat} (part : rest = 0 ∨ rest = run inClass cs) :
    (blankMatches (anyOf inClass) before rest cs).IsChain (fun a b => ¬(inClass a = true ∧ inClass b = true)) ∧
      (rest = run inClass cs → (blankMatches (anyOf inClass) before rest cs).head?.any inClass = false) := by
  induction cs generalizing before rest with
  | nil => simp [blankMatches]
  | cons c cs ih =>
    rw [run_cons] at part ⊢
    cases rest with
    | succ rest =>
      rw [blankMatches]
      have all : rest = run inClass cs := by
        split at part <;> omega
      obtain ⟨chain, head⟩ := @ih (some c) _ (.inr all)
      exact ⟨chain, fun _ => head all⟩
    | zero =>
      rw [blankMatches, anyOf, run_cons]
      by_cases h : inClass c = true
      · simp only [if_pos h]
        obtain ⟨chain, head⟩ := @ih (some c) _ (.inr rfl)
        refine ⟨List.isChain_cons.mpr ⟨?_, chain⟩, fun nothing => absurd nothing (Nat.succ_ne_zero _).symm⟩
        intro b first both
        have outside := head rfl
        rw [first] at outside
        exact absurd both.2 (by simpa using outside)
      · simp only [if_neg h]
        refine ⟨List.isChain_cons.mpr ⟨fun b _ both => h both.1, (ih (.inl rfl)).1⟩, fun _ => ?_⟩
        simpa using h

/-! ### Numbers -/

theorem isWord_of_isDigit {c : Char} (h : c.isDigit = true) : isWord c = true := by
  simp [isWord, Char.isAlphanum, h]

theorem isWord_of_isJsSpace {c : Char} (h : isJsSpace c = true) : isWord c = false := by
  by_contra other
  have word : (decide (c.val ≥ 65 ∧ c.val ≤ 90) || (c.val ≥ 97 && c.val ≤ 122) || (c.val ≥ 48 && c.val ≤ 57) ||
      c == '_') = true := (Bool.not_eq_false (isWord c)).mp other
  simp only [Bool.or_eq_true, Bool.and_eq_true, decide_eq_true_eq, beq_iff_eq, ge_iff_le,
    UInt32.le_iff_toNat_le] at word
  simp only [isJsSpace, List.mem_cons, List.not_mem_nil, or_false, Bool.or_eq_true, Bool.and_eq_true,
    decide_eq_true_eq] at h
  have bounds (lower upper : UInt32) : lower.toNat ≤ c.val.toNat → c.val.toNat ≤ upper.toNat →
      lower.toNat ≤ c.val.toNat ∧ c.val.toNat ≤ upper.toNat := And.intro
  rcases word with ((⟨low, high⟩ | ⟨low, high⟩) | ⟨low, high⟩) | rfl
  · have values := bounds 65 90 low high
    simp only [UInt32.toNat_ofNat, Nat.reduceMod, Nat.reducePow] at values
    omega
  · have values := bounds 97 122 low high
    simp only [UInt32.toNat_ofNat, Nat.reduceMod, Nat.reducePow] at values
    omega
  · have values := bounds 48 57 low high
    simp only [UInt32.toNat_ofNat, Nat.reduceMod, Nat.reducePow] at values
    omega
  · revert h
    decide

/-- A word that is a store number comes next. -/
def isNumber (cs : List Char) : Bool :=
  let word := cs.takeWhile isWord
  word.all Char.isDigit && 2 ≤ word.length

/-- No word is a number; the text may go on with a word. -/
def Free : Bool → List Char → Prop
  | _, [] => True
  | inside, c :: cs => (inside = true ∨ isNumber (c :: cs) = false) ∧ Free (isWord c) cs

theorem takeWhile_digits (cs : List Char) :
    (cs.takeWhile isWord).all Char.isDigit = wordEnds cs (run Char.isDigit cs) ∧
      ((cs.takeWhile isWord).all Char.isDigit = true → (cs.takeWhile isWord).length = run Char.isDigit cs) := by
  induction cs with
  | nil => simp [wordEnds, run]
  | cons c cs ih =>
    unfold wordEnds at ih ⊢
    rw [run_cons]
    by_cases digit : c.isDigit = true
    · have word := isWord_of_isDigit digit
      simpa [digit, word, List.takeWhile_cons_of_pos] using ih
    · by_cases word : isWord c = true <;> simp [digit, word]

theorem storeNumber_eq (before : Option Char) (cs : List Char) : storeNumber before cs =
    if before.any isWord = true ∨ isNumber cs = false then 0 else run Char.isDigit cs := by
  obtain ⟨ends, length⟩ := takeWhile_digits cs
  have number : isNumber cs = false ↔ run Char.isDigit cs < 2 ∨ ¬wordEnds cs (run Char.isDigit cs) = true := by
    rw [isNumber, ← ends]
    by_cases digits : (cs.takeWhile isWord).all Char.isDigit = true
    · simp [digits, length digits]
    · simp [digits]
  simp only [storeNumber, number]

/-- A store number is a word. -/
theorem storeNumber_cases (before : Option Char) (cs : List Char) :
    (before.any isWord = true ∨ isNumber cs = false) ∧ storeNumber before cs = 0 ∨
      isNumber cs = true ∧ 2 ≤ run isWord cs ∧ storeNumber before cs = run isWord cs := by
  obtain ⟨-, length⟩ := takeWhile_digits cs
  rw [storeNumber_eq]
  by_cases h : before.any isWord = true ∨ isNumber cs = false
  · exact .inl ⟨h, if_pos h⟩
  · rw [if_neg h]
    obtain ⟨-, number⟩ := not_or.mp h
    rw [Bool.not_eq_false] at number
    obtain ⟨digits, two_le⟩ : (cs.takeWhile isWord).all Char.isDigit = true ∧ 2 ≤ run isWord cs := by
      rwa [isNumber, Bool.and_eq_true, decide_eq_true_eq] at number
    exact .inr ⟨number, two_le, (length digits).symm⟩

theorem storeNumber_eq_zero : storeNumber before cs = 0 ↔ before.any isWord = true ∨ isNumber cs = false := by
  rw [storeNumber_eq]
  rcases storeNumber_cases before cs with ⟨h, -⟩ | ⟨number, two_le, long⟩
  · simp [h]
  · rw [storeNumber_eq] at long
    refine ⟨fun zero => by omega, fun h => if_pos h⟩

theorem clear_storeNumber_iff : Clear storeNumber before cs ↔ Free (before.any isWord) cs := by
  induction cs generalizing before with
  | nil => exact Iff.rfl
  | cons c cs ih => rw [Clear, Free, storeNumber_eq_zero, ih, Option.any_some]

/-- Blanks do not change what word comes next. -/
theorem takeWhile_blankMatches_spaces (before : Option Char) (cs : List Char) :
    (blankMatches (anyOf isJsSpace) before 0 cs).takeWhile isWord = cs.takeWhile isWord := by
  induction cs generalizing before with
  | nil => rfl
  | cons c cs ih =>
    rw [blankMatches, anyOf, run_cons]
    by_cases space : isJsSpace c = true
    · rw [if_pos space, List.takeWhile_cons_of_neg (by decide),
        List.takeWhile_cons_of_neg (by rw [isWord_of_isJsSpace space]; exact Bool.false_ne_true)]
    · rw [if_neg space]
      dsimp only
      rw [List.takeWhile_cons, List.takeWhile_cons, ih]

theorem Free.spaces {inside : Bool} {rest : Nat} (free : Free inside cs) (part : rest ≤ run isJsSpace cs)
    (outside : rest ≠ 0 → inside = false) : Free inside (blankMatches (anyOf isJsSpace) before rest cs) := by
  induction cs generalizing before inside rest with
  | nil => trivial
  | cons c cs ih =>
    obtain ⟨here, further⟩ := free
    rw [run_cons] at part
    by_cases space : isJsSpace c = true
    · rw [if_pos space] at part
      rw [isWord_of_isJsSpace space] at further
      cases rest with
      | succ rest =>
        rw [blankMatches, outside (Nat.succ_ne_zero rest)]
        exact ih further (by omega) (fun _ => rfl)
      | zero =>
        rw [blankMatches, anyOf, run_cons, if_pos space]
        exact ⟨.inr (by simp [isNumber, isWord]), ih further le_rfl (fun _ => rfl)⟩
    · rw [if_neg space, Nat.le_zero] at part
      have same : (c :: blankMatches (anyOf isJsSpace) (some c) 0 cs).takeWhile isWord =
          (c :: cs).takeWhile isWord := by
        rw [List.takeWhile_cons, List.takeWhile_cons, takeWhile_blankMatches_spaces]
      rw [part, blankMatches, anyOf, run_cons, if_neg space]
      refine ⟨?_, ih further (Nat.zero_le _) (fun h => absurd rfl h)⟩
      rw [isNumber, same]
      exact here

/-- Inside a word nothing is blanked. -/
theorem takeWhile_blankMatches_numbers (inside : before.any isWord = true) :
    (blankMatches storeNumber before 0 cs).takeWhile isWord = cs.takeWhile isWord := by
  induction cs generalizing before with
  | nil => rfl
  | cons c cs ih =>
    rw [blankMatches, storeNumber_eq_zero.mpr (.inl inside)]
    dsimp only
    by_cases word : isWord c = true
    · rw [List.takeWhile_cons_of_pos word, List.takeWhile_cons_of_pos word, ih (by simpa using word)]
    · rw [List.takeWhile_cons_of_neg word, List.takeWhile_cons_of_neg word]

theorem free_numbers {inside : Bool} {rest : Nat}
    (place : rest = 0 ∧ inside = before.any isWord ∨ inside = false ∧ rest = run isWord cs) :
    Free inside (blankMatches storeNumber before rest cs) := by
  induction cs generalizing before inside rest with
  | nil => cases rest <;> trivial
  | cons c cs ih =>
    rw [run_cons] at place
    cases rest with
    | succ rest =>
      -- The rest of a number, up to the end of the word.
      obtain ⟨outside, all⟩ := place.resolve_left fun h => absurd h.1 (Nat.succ_ne_zero rest)
      rw [blankMatches]
      apply ih (.inr ⟨outside, _⟩)
      split at all <;> omega
    | zero =>
      rw [blankMatches]
      rcases storeNumber_cases before (c :: cs) with ⟨h, zero⟩ | ⟨-, two_le, long⟩
      · rw [zero]
        refine ⟨?_, ih (.inl ⟨rfl, (Option.any_some ..).symm⟩)⟩
        by_cases word : isWord c = true
        · -- The word stays as it is.
          rw [if_pos word] at place
          obtain ⟨-, rfl⟩ := place.resolve_right fun h => absurd h.2 (Nat.succ_ne_zero _).symm
          rw [isNumber, List.takeWhile_cons_of_pos word, takeWhile_blankMatches_numbers (by simpa using word),
            ← List.takeWhile_cons_of_pos word]
          exact h
        · rw [isNumber, List.takeWhile_cons_of_neg word]
          exact .inr rfl
      · rw [long, run_cons]
        rw [run_cons] at two_le
        split at two_le
        · next word =>
          rw [if_pos word]
          exact ⟨.inr (by simp [isNumber, isWord]), ih (.inr ⟨by decide, rfl⟩)⟩
        · omega

theorem Free.dropWhile (free : Free false cs) : Free false (cs.dropWhile isJsSpace) := by
  induction cs with
  | nil => trivial
  | cons c cs ih =>
    by_cases space : isJsSpace c = true
    · rw [List.dropWhile_cons_of_pos space]
      have further := free.2
      rw [isWord_of_isJsSpace space] at further
      exact ih further
    · rw [List.dropWhile_cons_of_neg space]
      exact free

theorem takeWhile_front {more : List Char} (ends : more.head?.any isWord = false) (cs : List Char) :
    (cs ++ more).takeWhile isWord = cs.takeWhile isWord := by
  induction cs with
  | nil =>
    cases more with
    | nil => rfl
    | cons c more => exact List.takeWhile_cons_of_neg (by simpa using ends)
  | cons c cs ih => rw [List.cons_append, List.takeWhile_cons, List.takeWhile_cons, ih]

theorem Free.front {inside : Bool} {more : List Char} (free : Free inside (cs ++ more))
    (ends : more.head?.any isWord = false) : Free inside cs := by
  induction cs generalizing inside with
  | nil => trivial
  | cons c cs ih =>
    obtain ⟨here, further⟩ := free
    refine ⟨?_, ih further⟩
    rw [isNumber, ← takeWhile_front ends (c :: cs)]
    exact here

end Finverse.Categorization
