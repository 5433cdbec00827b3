import Finverse.Categorization.Blanks

/-! The descriptors that stay as they are when they are normalized again. -/

namespace Finverse.Categorization

open Auth (isJsSpace)

/-- The text before the region is taken off its end. -/
def descriptorBody (cs : List Char) : List Char :=
  let cs := withoutReference (withoutPrefix (trimmed cs))
  let cs := blanked isoDate (blanked slashDate (blanked cardTail cs))
  let cs := blanked (anyOf fun c => c ∈ ['#', '*', '_', '|', '\\', '/']) cs
  let cs := blanked (anyOf fun c => c ∈ ['.', ',', ';', ':']) cs
  let cs := trimmed (blanked (anyOf isJsSpace) cs)
  trimmed (blanked (anyOf isJsSpace) (blanked storeNumber cs))

theorem normalizeChars_eq (cs : List Char) : normalizeChars cs = trimmed (withoutRegion (descriptorBody cs)) := rfl

variable {cs : List Char}

/-! ### Card tails -/

def isMark (c : Char) : Bool := c ∈ ['x', '#', '*']

theorem cardTail_eq_zero (before : Option Char) (cs : List Char) :
    cardTail before cs = 0 ↔ ¬(2 ≤ run isMark cs ∧ 1 ≤ run Char.isDigit (cs.drop (run isMark cs))) := by
  have unfolded : cardTail before cs =
      if 2 ≤ run isMark cs ∧ 1 ≤ run Char.isDigit (cs.drop (run isMark cs)) then
        run isMark cs + run Char.isDigit (cs.drop (run isMark cs)) else 0 := rfl
  rw [unfolded]
  split
  · next both => exact ⟨fun zero => by omega, fun neither => absurd both neither⟩
  · next neither => exact ⟨fun _ => neither, fun _ => rfl⟩

/-- Nowhere two marks stand before a digit. -/
def Cardless (cs : List Char) : Prop :=
  ∀ a b d : Char, isMark a = true → isMark b = true → d.isDigit = true → ¬[a, b, d] <:+: cs

theorem Cardless.of_part {piece : List Char} (h : Cardless cs) (part : piece <:+: cs) : Cardless piece :=
  fun a b d mark mark' digit there => h a b d mark mark' digit (there.trans part)

theorem marks_solid {a b d : Char} (mark : isMark a = true) (mark' : isMark b = true) (digit : d.isDigit = true) :
    ∀ c ∈ [a, b, d], c ≠ ' ' := by
  have blank : isMark ' ' = false ∧ Char.isDigit ' ' = false := by decide
  intro c listed same
  simp only [List.mem_cons, List.not_mem_nil, or_false, same] at listed
  rcases listed with rfl | rfl | rfl
  · exact Bool.false_ne_true (blank.1.symm.trans mark)
  · exact Bool.false_ne_true (blank.1.symm.trans mark')
  · exact Bool.false_ne_true (blank.2.symm.trans digit)

theorem Cardless.blanked {pattern : Option Char → List Char → Nat} (h : Cardless cs) : Cardless (blanked pattern cs) :=
  fun a b d mark mark' digit there =>
    h a b d mark mark' digit (infix_of_blanked (marks_solid mark mark' digit) (List.cons_ne_nil _ _) there)

theorem isMark_of_isDigit {d : Char} (digit : d.isDigit = true) : isMark d = false := by
  by_contra mark
  rw [Bool.not_eq_false] at mark
  have others : ∀ c ∈ ['x', '#', '*'], (!c.isDigit) = true := List.all_eq_true.mp (by decide)
  have other := others d (of_decide_eq_true mark)
  rw [digit] at other
  exact Bool.false_ne_true other

theorem cardless_blanked (cs : List Char) : Cardless (blanked cardTail cs) := by
  intro a b d mark mark' digit there
  obtain ⟨before, tail, -, ⟨more, rfl⟩, free⟩ :=
    infix_of_blankMatches (marks_solid mark mark' digit) (List.cons_ne_nil _ _) 0 there
  have marks : run isMark ([a, b, d] ++ more) = 2 := by
    simp [run_cons, mark, mark', isMark_of_isDigit digit]
  have digits : run Char.isDigit (([a, b, d] ++ more).drop 2) = run Char.isDigit more + 1 := by
    simp [run_cons, digit]
  rw [cardTail_eq_zero, marks, digits] at free
  exact free ⟨le_rfl, Nat.le_add_left 1 _⟩

/-- The last two marks of a card tail, and the first digit. -/
theorem exists_card (two : 2 ≤ run isMark cs) (one : 1 ≤ run Char.isDigit (cs.drop (run isMark cs))) :
    ∃ a b d : Char, isMark a = true ∧ isMark b = true ∧ d.isDigit = true ∧ [a, b, d] <:+: cs := by
  induction cs with
  | nil => simp [run] at two
  | cons a cs ih =>
    rw [run_cons] at two one
    split at two
    · next mark =>
      rw [if_pos mark, List.drop_succ_cons] at one
      by_cases more : 2 ≤ run isMark cs
      · obtain ⟨a', b, d, mark', mark'', digit, part⟩ := ih more one
        exact ⟨a', b, d, mark', mark'', digit, part.trans (List.suffix_cons a cs).isInfix⟩
      · have last : run isMark cs = 1 := by omega
        rw [last] at one
        cases cs with
        | nil => simp [run] at last
        | cons b cs =>
          rw [run_cons] at last
          split at last
          · next mark' =>
            cases cs with
            | nil => simp [run] at one
            | cons d cs =>
              rw [List.drop_succ_cons, List.drop_zero, run_cons] at one
              split at one
              · next digit => exact ⟨a, b, d, mark, mark', digit, (List.prefix_append [a, b, d] cs).isInfix⟩
              · omega
          · omega
    · omega

theorem Cardless.clear (h : Cardless cs) : Clear cardTail none cs := by
  apply clear_of_suffix
  intro before tail place
  rw [cardTail_eq_zero]
  intro both
  obtain ⟨a, b, d, mark, mark', digit, part⟩ := exists_card both.1 both.2
  exact h a b d mark mark' digit (part.trans place.isInfix)

/-! ### Characters that are gone -/

/-- No character is of the class. -/
def Lacks (inClass : Char → Bool) (cs : List Char) : Prop := ∀ c ∈ cs, inClass c = false

variable {inClass : Char → Bool}

theorem Lacks.of_part {piece : List Char} (h : Lacks inClass cs) (part : piece <:+: cs) : Lacks inClass piece :=
  fun c listed => h c (part.subset listed)

theorem Lacks.blanked {pattern : Option Char → List Char → Nat} (h : Lacks inClass cs)
    (solid : inClass ' ' = false) : Lacks inClass (blanked pattern cs) := by
  intro c listed
  rcases blankMatches_within none 0 cs c listed with rfl | kept
  · exact solid
  · exact h c kept

theorem lacks_blanked (solid : inClass ' ' = false) (cs : List Char) : Lacks inClass (blanked (anyOf inClass) cs) := by
  intro c listed
  by_contra member
  rw [Bool.not_eq_false] at member
  have blank := blankMatches_class (Nat.zero_le _) c listed member
  rw [blank, solid] at member
  exact Bool.false_ne_true member

theorem Lacks.clear (h : Lacks inClass cs) : Clear (anyOf inClass) none cs := by
  apply clear_of_suffix
  intro before tail place
  cases tail with
  | nil => rfl
  | cons c tail =>
    have outside : inClass c = false := h c (place.subset List.mem_cons_self)
    rw [anyOf, run_cons, outside]
    rfl

theorem clear_slashDate (h : '/' ∉ cs) : Clear slashDate none cs := by
  apply clear_of_suffix
  intro before tail place
  have none_there (n : Nat) : tail[n]? ≠ some '/' :=
    fun there => h (place.subset (List.mem_of_getElem? there))
  unfold slashDate
  exact if_pos (.inr (.inr (.inl (none_there _))))

/-- An ISO date starts with a number. -/
theorem isoDate_of_storeNumber (before : Option Char) (tail : List Char) (h : storeNumber before tail = 0) :
    isoDate before tail = 0 := by
  unfold isoDate
  by_contra date
  rw [ite_eq_left_iff, Classical.not_imp] at date
  obtain ⟨date, -⟩ := date
  simp only [not_or, not_not] at date
  obtain ⟨outside, four, dash, -⟩ := date
  have ends : wordEnds tail 4 = true := by
    rw [wordEnds, List.head?_drop, dash]
    decide
  unfold storeNumber at h
  dsimp only at h
  rw [four, ends] at h
  simp [outside] at h

/-! ### What the body is like -/

/-- What no other step than the last and the first can change. -/
structure Reduced (cs : List Char) : Prop where
  trim : IsTrimmed cs
  cardless : Cardless cs
  unsigned : Lacks (fun c => c ∈ ['#', '*', '_', '|', '\\', '/']) cs
  unpunctuated : Lacks (fun c => c ∈ ['.', ',', ';', ':']) cs
  plain : ∀ c ∈ cs, isJsSpace c = true → c = ' '
  single : cs.IsChain fun a b => ¬(isJsSpace a = true ∧ isJsSpace b = true)
  free : Free false cs

theorem Free.trimmed (free : Free false cs) : Free false (trimmed cs) := by
  obtain ⟨blanks, split, spaces⟩ := dropWhile_eq_trimmed cs
  have front := free.dropWhile
  rw [split] at front
  refine front.front ?_
  cases blanks with
  | nil => rfl
  | cons c blanks => exact isWord_of_isJsSpace (spaces c List.mem_cons_self)

theorem reduced_descriptorBody (cs : List Char) : Reduced (descriptorBody cs) := by
  unfold descriptorBody
  dsimp only
  generalize withoutReference (withoutPrefix (trimmed cs)) = start
  have cards : Cardless (blanked isoDate (blanked slashDate (blanked cardTail start))) :=
    (cardless_blanked start).blanked.blanked
  generalize blanked isoDate (blanked slashDate (blanked cardTail start)) = dated at cards ⊢
  have signs : Lacks (fun c => c ∈ ['#', '*', '_', '|', '\\', '/'])
      (blanked (anyOf fun c => c ∈ ['#', '*', '_', '|', '\\', '/']) dated) := lacks_blanked (by decide) dated
  have cards' : Cardless (blanked (anyOf fun c => c ∈ ['#', '*', '_', '|', '\\', '/']) dated) := cards.blanked
  generalize blanked (anyOf fun c => c ∈ ['#', '*', '_', '|', '\\', '/']) dated = signed at signs cards' ⊢
  have marks : Lacks (fun c => c ∈ ['.', ',', ';', ':']) (blanked (anyOf fun c => c ∈ ['.', ',', ';', ':']) signed) :=
    lacks_blanked (by decide) signed
  have signs' : Lacks (fun c => c ∈ ['#', '*', '_', '|', '\\', '/'])
      (blanked (anyOf fun c => c ∈ ['.', ',', ';', ':']) signed) := signs.blanked (by decide)
  have cards'' : Cardless (blanked (anyOf fun c => c ∈ ['.', ',', ';', ':']) signed) := cards'.blanked
  generalize blanked (anyOf fun c => c ∈ ['.', ',', ';', ':']) signed = pointed at marks signs' cards'' ⊢
  have numbers : Free false (blanked storeNumber (trimmed (blanked (anyOf isJsSpace) pointed))) :=
    free_numbers (.inl ⟨rfl, rfl⟩)
  have part := trimmed_part (blanked (anyOf isJsSpace) pointed)
  have part' := trimmed_part
    (blanked (anyOf isJsSpace) (blanked storeNumber (trimmed (blanked (anyOf isJsSpace) pointed))))
  refine ⟨isTrimmed_trimmed _, ?_, ?_, ?_, ?_, ?_, ?_⟩
  · exact (cards''.blanked.of_part part).blanked.blanked.of_part part'
  · exact ((((signs'.blanked (by decide)).of_part part).blanked (by decide)).blanked (by decide)).of_part part'
  · exact ((((marks.blanked (by decide)).of_part part).blanked (by decide)).blanked (by decide)).of_part part'
  · intro c listed
    exact blankMatches_class (Nat.zero_le _) c (part'.subset listed)
  · exact List.IsChain.infix (blankMatches_chain (.inl rfl)).1 part'
  · have spaced : Free false (blanked (anyOf isJsSpace)
        (blanked storeNumber (trimmed (blanked (anyOf isJsSpace) pointed)))) :=
      numbers.spaces (Nat.zero_le _) fun h => absurd rfl h
    exact spaced.trimmed

/-- Single blanks stay as they are. -/
theorem blanked_spaces (plain : ∀ c ∈ cs, isJsSpace c = true → c = ' ')
    (single : cs.IsChain fun a b => ¬(isJsSpace a = true ∧ isJsSpace b = true)) (before : Option Char) :
    blankMatches (anyOf isJsSpace) before 0 cs = cs := by
  induction cs generalizing before with
  | nil => rfl
  | cons c cs ih =>
    obtain ⟨next, single'⟩ := List.isChain_cons.mp single
    have more := ih (fun d listed => plain d (List.mem_cons_of_mem c listed)) single'
    rw [blankMatches, anyOf, run_cons]
    by_cases space : isJsSpace c = true
    · have alone : run isJsSpace cs = 0 := by
        cases cs with
        | nil => rfl
        | cons d cs =>
          rw [run_cons, if_neg fun space' => next d rfl ⟨space, space'⟩]
      rw [if_pos space, alone]
      dsimp only
      rw [more, plain c List.mem_cons_self space]
    · rw [if_neg space]
      dsimp only
      rw [more]

theorem withoutPrefix_eq_self (h : ∀ p ∈ PREFIXES, ¬p.toList <+: cs) : withoutPrefix cs = cs := by
  have none_found : (PREFIXES.find? fun p => p.toList.isPrefixOf cs) = none := by
    rw [List.find?_eq_none]
    intro p listed there
    exact h p listed (List.isPrefixOf_iff_prefix.mp there)
  rw [withoutPrefix, none_found]

theorem withoutReference_eq_self (h : '*' ∉ cs) : withoutReference cs = cs := by
  have none_found : cs.idxOf? '*' = none := List.idxOf?_eq_none_iff.mpr h
  rw [withoutReference, none_found]

theorem Reduced.descriptorBody_eq (h : Reduced cs) (bare : ∀ p ∈ PREFIXES, ¬p.toList <+: cs) :
    descriptorBody cs = cs := by
  have starless : '*' ∉ cs := fun there => by simpa using h.unsigned '*' there
  have slashless : '/' ∉ cs := fun there => by simpa using h.unsigned '/' there
  have numberless : Clear storeNumber none cs := clear_storeNumber_iff.mpr h.free
  have spaces : blanked (anyOf isJsSpace) cs = cs := blanked_spaces h.plain h.single none
  unfold descriptorBody
  dsimp only
  rw [h.trim.trimmed_eq, withoutPrefix_eq_self bare, withoutReference_eq_self starless, h.cardless.clear.blanked,
    (clear_slashDate slashless).blanked, (numberless.mono isoDate_of_storeNumber).blanked,
    h.unsigned.clear.blanked, h.unpunctuated.clear.blanked, spaces, h.trim.trimmed_eq, numberless.blanked, spaces,
    h.trim.trimmed_eq]

/-! ### The region -/

/-- The text ends in a blank and the code of a region. -/
def Regional (cs : List Char) : Prop :=
  ∃ front blank, isJsSpace blank = true ∧ ∃ code ∈ REGIONS, cs = front ++ blank :: code.toList

theorem region_pair {code : String} (h : code ∈ REGIONS) :
    ∃ a b, code.toList = [a, b] ∧ isJsSpace a = false ∧ isJsSpace b = false := by
  have pairs : ∀ code ∈ REGIONS, code.toList.length = 2 ∧ (code.toList.all fun c => !isJsSpace c) = true := by
    decide +kernel
  obtain ⟨two, solid⟩ := pairs code h
  obtain ⟨a, b, pair⟩ := List.length_eq_two.mp two
  rw [pair] at solid
  exact ⟨a, b, pair, by simpa using solid⟩

theorem withoutRegion_append {code : String} (h : code ∈ REGIONS) {blank : Char} (space : isJsSpace blank = true)
    (front : List Char) :
    withoutRegion (front ++ blank :: code.toList) = (front.reverse.dropWhile isJsSpace).reverse := by
  obtain ⟨a, b, pair, -, -⟩ := region_pair h
  have listed : [a, b] ∈ REGIONS.map String.toList := by
    rw [← pair]
    exact List.mem_map_of_mem h
  unfold withoutRegion
  dsimp only
  have tail : (front ++ blank :: code.toList).reverse = b :: a :: blank :: front.reverse := by simp [pair]
  rw [tail]
  simp [listed, space, List.dropWhile_cons_of_pos]

theorem withoutRegion_of_not (h : ¬Regional cs) : withoutRegion cs = cs := by
  unfold withoutRegion
  dsimp only
  refine if_neg fun there => h ?_
  obtain ⟨listed, blank⟩ := there
  obtain ⟨code, known, same⟩ := List.mem_map.mp listed
  obtain ⟨c, first, space⟩ := (Option.any_eq_true _ _).mp blank
  obtain ⟨more, rest⟩ := List.head?_eq_some_iff.mp first
  refine ⟨more.reverse, c, space, code, known, ?_⟩
  calc cs = (cs.reverse.take 2 ++ cs.reverse.drop 2).reverse := by rw [List.take_append_drop, List.reverse_reverse]
    _ = more.reverse ++ c :: code.toList := by rw [List.reverse_append, rest, same]; simp

/-- Two codes, and something before them. -/
def TwoRegions (cs : List Char) : Prop :=
  ∃ front, ∃ code ∈ REGIONS, ∃ code' ∈ REGIONS, cs = front ++ ' ' :: code.toList ++ ' ' :: code'.toList

theorem Reduced.regional (h : Reduced cs) (ends : Regional cs) :
    ∃ code ∈ REGIONS, cs = withoutRegion cs ++ ' ' :: code.toList ∧
      (withoutRegion cs).getLast?.any isJsSpace = false := by
  obtain ⟨front, blank, space, code, known, rfl⟩ := ends
  have blank_eq : blank = ' ' := h.plain blank (by simp) space
  have last : front.getLast?.any isJsSpace = false := by
    by_contra spaces
    rw [Bool.not_eq_false, Option.any_eq_true] at spaces
    obtain ⟨c, last, space'⟩ := spaces
    obtain ⟨front', rfl⟩ := List.getLast?_eq_some_iff.mp last
    have two : [c, blank] <:+: front' ++ [c] ++ blank :: code.toList := ⟨front', code.toList, by simp⟩
    have apart := List.IsChain.infix h.single two
    simp [space, space'] at apart
  have kept : withoutRegion (front ++ blank :: code.toList) = front := by
    rw [withoutRegion_append known space, dropWhile_of_head (by rw [List.head?_reverse]; exact last),
      List.reverse_reverse]
  rw [kept, blank_eq]
  exact ⟨code, known, rfl, last⟩

theorem Reduced.withoutRegion (h : Reduced cs) : Reduced (withoutRegion cs) := by
  by_cases ends : Regional cs
  · obtain ⟨code, known, split, last⟩ := h.regional ends
    generalize Categorization.withoutRegion cs = front at split last ⊢
    have part : front <:+: cs := by
      rw [split]
      exact (List.prefix_append _ _).isInfix
    have first : front.head?.any isJsSpace = false := by
      have first := h.trim.first
      rw [split] at first
      cases front with
      | nil => rfl
      | cons c front => exact first
    have free := h.free
    rw [split] at free
    have single := List.IsChain.infix h.single part
    exact ⟨⟨first, last⟩, h.cardless.of_part part, h.unsigned.of_part part, h.unpunctuated.of_part part,
      fun c listed => h.plain c (part.subset listed), single, free.front rfl⟩
  · rw [withoutRegion_of_not ends]
    exact h

theorem Reduced.not_regional_iff (h : Reduced cs) : ¬Regional (Categorization.withoutRegion cs) ↔ ¬TwoRegions cs := by
  rw [not_iff_not]
  constructor
  · intro again
    have ends : Regional cs := by
      by_contra none_there
      rw [withoutRegion_of_not none_there] at again
      exact none_there again
    obtain ⟨code', known', split', -⟩ := h.regional ends
    obtain ⟨code, known, split, -⟩ := h.withoutRegion.regional again
    refine ⟨Categorization.withoutRegion (Categorization.withoutRegion cs), code, known, code', known', ?_⟩
    rw [← split]
    exact split'
  · rintro ⟨front, code, known, code', known', rfl⟩
    have ends : Regional (front ++ ' ' :: code.toList ++ ' ' :: code'.toList) :=
      ⟨_, ' ', by decide, code', known', rfl⟩
    have kept : Categorization.withoutRegion (front ++ ' ' :: code.toList ++ ' ' :: code'.toList) =
        front ++ ' ' :: code.toList := by
      obtain ⟨a, b, pair, -, solid⟩ := region_pair known
      rw [withoutRegion_append known' (by decide), dropWhile_of_head (by simp [pair, solid]), List.reverse_reverse]
    rw [kept]
    exact ⟨front, ' ', by decide, code, known, rfl⟩

/-! ### What a second pass does -/

theorem withoutRegion_length (h : Reduced cs) (ends : Regional cs) :
    (Categorization.withoutRegion cs).length < cs.length := by
  obtain ⟨code, -, split, -⟩ := h.regional ends
  have length := congrArg List.length split
  rw [List.length_append, List.length_cons] at length
  omega

theorem withoutPrefix_length {p : String} (listed : p ∈ PREFIXES) (there : p.toList <+: cs) :
    (withoutPrefix cs).length < cs.length := by
  have nonempty : ∀ p ∈ PREFIXES, 0 < p.toList.length := by decide +kernel
  unfold withoutPrefix
  cases found : PREFIXES.find? fun p => p.toList.isPrefixOf cs with
  | none =>
    have absent := List.find?_eq_none.mp found p listed
    exact absurd (List.isPrefixOf_iff_prefix.mpr there) absent
  | some q =>
    have known := nonempty q (List.mem_of_find?_eq_some found)
    have matched : q.toList.isPrefixOf cs = true :=
      @List.find?_some _ (fun p : String => p.toList.isPrefixOf cs) q _ found
    have start := List.isPrefixOf_iff_prefix.mp matched
    have short := (trimmed_sublist (cs.drop q.toList.length)).length_le
    have long := start.length_le
    rw [List.length_drop] at short
    dsimp only
    omega

/-- Normalizing again changes nothing if there is no prefix and no region to take off. -/
theorem Reduced.fixed_iff (h : Reduced cs) :
    normalizeChars cs = cs ↔ (∀ p ∈ PREFIXES, ¬p.toList <+: cs) ∧ ¬Regional cs := by
  by_cases bare : ∀ p ∈ PREFIXES, ¬p.toList <+: cs
  · rw [and_iff_right bare, normalizeChars_eq, h.descriptorBody_eq bare]
    constructor
    · intro same ends
      have shorter := withoutRegion_length h ends
      have length := (trimmed_sublist (Categorization.withoutRegion cs)).length_le
      rw [same] at length
      omega
    · intro none_there
      rw [withoutRegion_of_not none_there, h.trim.trimmed_eq]
  · refine ⟨fun same => ?_, fun both => absurd both.1 bare⟩
    push Not at bare
    obtain ⟨p, listed, there⟩ := bare
    have shorter := withoutPrefix_length listed there
    have length := normalizeChars_length_le_body cs
    rw [same, h.trim.trimmed_eq] at length
    have reference := (withoutReference_sublist (withoutPrefix cs)).length_le
    omega

/-- What prefixes without a star end in. -/
theorem prefix_ends : ∀ p ∈ PREFIXES, '*' ∉ p.toList →
    p.toList.getLast? ≠ some ' ' ∧ p.toList.dropLast.getLast? ≠ some ' ' ∧
      ∀ code ∈ REGIONS, (' ' :: code.toList) <:+ p.toList → p = "purchase authorized on" := by
  decide +kernel

/-- Only one prefix can lose its end as a region. -/
theorem Reduced.bare_iff (h : Reduced cs) : (∀ p ∈ PREFIXES, ¬p.toList <+: Categorization.withoutRegion cs) ↔
    cs = "purchase authorized on".toList ∨ ∀ p ∈ PREFIXES, ¬p.toList <+: cs := by
  by_cases ends : Regional cs
  · obtain ⟨code, known, split, -⟩ := h.regional ends
    obtain ⟨a, b, pair, -, -⟩ := region_pair known
    have front : Categorization.withoutRegion cs <+: cs := ⟨_, split.symm⟩
    obtain ⟨left, kept⟩ : ∃ left, Categorization.withoutRegion cs = left := ⟨_, rfl⟩
    constructor
    · intro bare
      by_contra neither
      obtain ⟨other, there⟩ := not_or.mp neither
      push Not at there
      obtain ⟨p, listed, there⟩ := there
      have starless : '*' ∉ p.toList := by
        intro star
        simpa using h.unsigned '*' (there.subset star)
      obtain ⟨solid, solid', only⟩ := prefix_ends p listed starless
      rw [kept] at split front bare
      -- The prefix goes on into the region.
      obtain ⟨more, longer⟩ := (List.prefix_or_prefix_of_prefix there front).resolve_left (bare p listed)
      have region_start : more <+: [' ', a, b] := by
        rw [← longer, split, pair, List.prefix_append_right_inj] at there
        exact there
      rw [← longer] at solid solid' only
      match more, region_start with
      | [], _ => exact bare p listed ⟨[], by simpa using longer.symm⟩
      | [c], start =>
        obtain ⟨rfl, -⟩ := List.cons_prefix_cons.mp start
        simp at solid
      | [c, d], start =>
        obtain ⟨rfl, -⟩ := List.cons_prefix_cons.mp start
        simp at solid'
      | c :: d :: e :: more, start =>
        have whole : c :: d :: e :: more = ' ' :: code.toList := by
          rw [pair]
          exact start.eq_of_length_le (by simp)
        rw [whole] at longer only
        have same := only code known ⟨_, rfl⟩
        rw [← split] at longer
        rw [same] at longer
        exact other longer
    · rintro (rfl | bare)
      · decide +kernel
      · intro p listed there
        exact bare p listed (there.trans front)
  · rw [withoutRegion_of_not ends]
    constructor
    · exact .inr
    · rintro (rfl | bare)
      · exact absurd ⟨"purchase authorized".toList, ' ', by decide, "on", by decide +kernel, rfl⟩ ends
      · exact bare

/-- Either no prefix and no second region is left, or the last word of a prefix goes as a region. -/
def Settled (body : List Char) : Prop :=
  body = "purchase authorized on".toList ∨ (∀ p ∈ PREFIXES, ¬p.toList <+: body) ∧ ¬TwoRegions body

/-- Two codes have a blank before them, the sixth character from the end. -/
theorem not_twoRegions (h : cs.reverse[5]? ≠ some ' ') : ¬TwoRegions cs := by
  rintro ⟨front, code, known, code', known', rfl⟩
  obtain ⟨a, b, pair, -, -⟩ := region_pair known
  obtain ⟨c, d, pair', -, -⟩ := region_pair known'
  simp [pair, pair'] at h

theorem normalizeChars_idempotent_iff (cs : List Char) :
    normalizeChars (normalizeChars cs) = normalizeChars cs ↔ Settled (descriptorBody cs) := by
  have reduced := reduced_descriptorBody cs
  have again := reduced.withoutRegion
  rw [normalizeChars_eq cs, again.trim.trimmed_eq, again.fixed_iff, reduced.bare_iff, reduced.not_regional_iff, Settled]
  constructor
  · rintro ⟨same | bare, one⟩
    · exact .inl same
    · exact .inr ⟨bare, one⟩
  · rintro (same | ⟨bare, one⟩)
    · exact ⟨.inl same, not_twoRegions (by rw [same]; decide +kernel)⟩
    · exact ⟨.inr bare, one⟩

/-- When a normalized descriptor can be normalized again. -/
theorem normalizeDescriptor_idempotent_iff {toLowerCase : String → String} (keeps : KeepsLowered toLowerCase)
    (raw : String) : normalizeDescriptor toLowerCase (normalizeDescriptor toLowerCase raw) =
      normalizeDescriptor toLowerCase raw ↔ Settled (descriptorBody (toLowerCase raw).toList) := by
  rw [← normalizeChars_idempotent_iff, normalizeDescriptor, keeps.normalizeDescriptor, normalizeDescriptor,
    String.toList_ofList]
  exact String.ofList_inj

theorem blue_bottle_settled :
    normalizeDescriptor String.toLower (normalizeDescriptor String.toLower "SQ *BLUE BOTTLE 0093 SAN FRAN CA") =
      normalizeDescriptor String.toLower "SQ *BLUE BOTTLE 0093 SAN FRAN CA" :=
  (normalizeDescriptor_idempotent_iff toLower_keepsLowered "SQ *BLUE BOTTLE 0093 SAN FRAN CA").mpr
    (.inr ⟨by decide +kernel, not_twoRegions (by decide +kernel)⟩)

/-- A city that looks like a region is the end of the text once the region is gone. -/
theorem city_lost : ¬∀ toLowerCase, KeepsLowered toLowerCase → ∀ raw,
    normalizeDescriptor toLowerCase (normalizeDescriptor toLowerCase raw) = normalizeDescriptor toLowerCase raw := by
  intro claim
  have again := claim String.toLower toLower_keepsLowered "SHELL OIL LA CA"
  revert again
  decide +kernel

end Finverse.Categorization
