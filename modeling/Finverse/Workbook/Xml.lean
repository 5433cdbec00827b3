import Finverse.Imports.Mapping
import Mathlib.Data.List.Find

/-! The text of XML elements as it is written, and as it is decoded. -/

namespace Finverse.Workbook

open Imports (decimal)

/-- The entities that are decoded. -/
def ENTITIES : List (List Char × Char) :=
  [(['&', 'a', 'm', 'p', ';'], '&'), (['&', 'l', 't', ';'], '<'), (['&', 'g', 't', ';'], '>'),
    (['&', 'q', 'u', 'o', 't', ';'], '"'), (['&', 'a', 'p', 'o', 's', ';'], '\'')]

/-- From here on, when `skip` is left of an entity that has been decoded. -/
def decodeFrom : Nat → List Char → List Char
  | _, [] => []
  | skip + 1, _ :: rest => decodeFrom skip rest
  | 0, c :: rest =>
    match ENTITIES.find? fun entity => entity.1.isPrefixOf (c :: rest) with
    | some entity => entity.2 :: decodeFrom (entity.1.length - 1) rest
    | none => c :: decodeFrom 0 rest

/-- Each entity is decoded once. -/
def decodeXml (value : List Char) : List Char := decodeFrom 0 value

/-! ### Written characters -/

def HEX_DIGITS : List Char := "0123456789abcdef".toList

def hexadecimal (digits : List Char) : Nat :=
  digits.foldl (fun n digit => 16 * n + HEX_DIGITS.idxOf digit.toLower) 0

/-- The number of a character, in one of the two ways it can be written. -/
def NumberWritten (digits : List Char) (n : Nat) : Prop :=
  (digits ≠ [] ∧ (∀ d ∈ digits, d.isDigit = true) ∧ decimal digits = n) ∨
    ∃ hex, digits = 'x' :: hex ∧ hex ≠ [] ∧ (∀ d ∈ hex, d.toLower ∈ HEX_DIGITS) ∧ hexadecimal hex = n

/-- A character as it is written in the text of an element: as itself, by the name of an entity, or
by its number. -/
inductive Glyph
  | plain (c : Char) (h : c ≠ '<' ∧ c ≠ '&')
  | named (entity : List Char × Char) (h : entity ∈ ENTITIES)
  | numbered (c : Char) (digits : List Char) (h : NumberWritten digits c.toNat)

namespace Glyph

def written : Glyph → List Char
  | plain c _ => [c]
  | named entity _ => entity.1
  | numbered _ digits _ => '&' :: '#' :: (digits ++ [';'])

def char : Glyph → Char
  | plain c _ => c
  | named entity _ => entity.2
  | numbered c _ _ => c

/-- What the decoder makes of it: it leaves numbers as they are. -/
def decoded : Glyph → List Char
  | plain c _ => [c]
  | named entity _ => [entity.2]
  | numbered _ digits _ => '&' :: '#' :: (digits ++ [';'])

/-- The decoder knows how it is written. -/
def Known : Glyph → Prop
  | numbered .. => False
  | _ => True

end Glyph

def written (glyphs : List Glyph) : List Char := glyphs.flatMap Glyph.written

def textOf (glyphs : List Glyph) : List Char := glyphs.map Glyph.char

/-! ### Decoding -/

section Decoding

variable {c : Char} {rest u v digits : List Char} {n skip : Nat} {glyph : Glyph} {glyphs : List Glyph}

theorem decodeFrom_other (hc : c ≠ '&') : decodeFrom 0 (c :: rest) = c :: decodeFrom 0 rest := by
  have none_here : (ENTITIES.find? fun entity => entity.1.isPrefixOf (c :: rest)) = none := by
    simp [ENTITIES, List.isPrefixOf, Ne.symm hc]
  rw [decodeFrom, none_here]

theorem decodeFrom_others (h : '&' ∉ u) : decodeFrom 0 (u ++ rest) = u ++ decodeFrom 0 rest := by
  induction u with
  | nil => rfl
  | cons c u ih =>
    rw [List.mem_cons, not_or] at h
    rw [List.cons_append, decodeFrom_other (Ne.symm h.1), ih h.2, List.cons_append]

theorem numberWritten_chars (h : NumberWritten digits n) : ∀ d ∈ digits, d ≠ '&' ∧ d ≠ '<' := by
  have hexes : ∀ d : Char, d.toLower ∈ HEX_DIGITS → d ≠ '&' ∧ d ≠ '<' := by
    intro d hd
    constructor
    · rintro rfl
      exact absurd hd (by decide)
    · rintro rfl
      exact absurd hd (by decide)
  rcases h with ⟨-, decimals, -⟩ | ⟨hex, rfl, -, hhex, -⟩
  · intro d hd
    constructor
    · rintro rfl
      exact absurd (decimals _ hd) (by decide)
    · rintro rfl
      exact absurd (decimals _ hd) (by decide)
  · intro d hd
    rcases List.mem_cons.mp hd with rfl | hd
    · decide
    · exact hexes d (hhex d hd)

theorem numberWritten_ne_nil (h : NumberWritten digits n) : digits ≠ [] := by
  rcases h with ⟨nonempty, -⟩ | ⟨hex, rfl, -⟩
  · exact nonempty
  · simp

theorem decodeFrom_glyph : decodeFrom 0 (glyph.written ++ rest) = glyph.decoded ++ decodeFrom 0 rest := by
  cases glyph with
  | plain c h => exact decodeFrom_other h.2
  | named entity h =>
    simp only [ENTITIES, List.mem_cons, List.not_mem_nil, or_false] at h
    rcases h with rfl | rfl | rfl | rfl | rfl <;>
      simp [Glyph.written, Glyph.decoded, decodeFrom, ENTITIES, List.isPrefixOf]
  | numbered c digits h =>
    have chars := numberWritten_chars h
    have tail : '&' ∉ '#' :: (digits ++ [';']) := by
      simp only [List.mem_cons, List.mem_append, List.not_mem_nil, or_false, not_or]
      exact ⟨by decide, fun stored => (chars _ stored).1 rfl, by decide⟩
    have number : decodeFrom 0 ('&' :: '#' :: (digits ++ [';']) ++ rest) =
        '&' :: decodeFrom 0 ('#' :: (digits ++ [';']) ++ rest) := by
      simp [decodeFrom, ENTITIES, List.isPrefixOf]
    rw [Glyph.written, Glyph.decoded, number, decodeFrom_others tail]
    rfl

theorem decodeXml_written : decodeXml (written glyphs) = glyphs.flatMap Glyph.decoded := by
  induction glyphs with
  | nil => rfl
  | cons glyph glyphs ih =>
    rw [decodeXml, written, List.flatMap_cons, decodeFrom_glyph, List.flatMap_cons]
    exact congrArg (glyph.decoded ++ ·) ih

/-- What is written in entities only is decoded to the text it stands for. -/
theorem decodeXml_known (known : ∀ glyph ∈ glyphs, glyph.Known) :
    decodeXml (written glyphs) = textOf glyphs := by
  rw [decodeXml_written]
  induction glyphs with
  | nil => rfl
  | cons glyph glyphs ih =>
    have first : glyph.decoded = [glyph.char] := by
      have := known glyph (by simp)
      cases glyph with
      | plain c h => rfl
      | named entity h => rfl
      | numbered c digits h => cases this
    rw [List.flatMap_cons, first, ih fun glyph stored => known glyph (by simp [stored])]
    rfl

theorem decoded_length (glyph : Glyph) : 1 ≤ glyph.decoded.length := by
  cases glyph <;> simp [Glyph.decoded]

theorem decodeXml_length (glyphs : List Glyph) : (textOf glyphs).length ≤ (decodeXml (written glyphs)).length := by
  rw [decodeXml_written, textOf, List.length_map]
  induction glyphs with
  | nil => simp
  | cons glyph glyphs ih =>
    have := decoded_length glyph
    rw [List.flatMap_cons, List.length_append, List.length_cons]
    omega

/-- A number makes the text longer. -/
theorem decodeXml_longer (unknown : ∃ glyph ∈ glyphs, ¬glyph.Known) :
    (textOf glyphs).length < (decodeXml (written glyphs)).length := by
  obtain ⟨glyph, stored, hglyph⟩ := unknown
  obtain ⟨before, after, rfl⟩ := List.append_of_mem stored
  have short := decodeXml_length before
  have short' := decodeXml_length after
  have long : 2 ≤ glyph.decoded.length := by
    cases glyph with
    | plain c h => exact absurd trivial hglyph
    | named entity h => exact absurd trivial hglyph
    | numbered c digits h => simp [Glyph.decoded]
  rw [decodeXml_written] at short short' ⊢
  simp only [textOf, List.length_map, List.length_append, List.length_cons, List.flatMap_append,
    List.flatMap_cons] at short short' ⊢
  omega

theorem written_noBracket : '<' ∉ written glyphs := by
  rw [written, List.mem_flatMap]
  rintro ⟨glyph, -, stored⟩
  cases glyph with
  | plain c h =>
    rw [Glyph.written, List.mem_singleton] at stored
    exact h.1 stored.symm
  | named entity h =>
    have all : ∀ entity ∈ ENTITIES, '<' ∉ entity.1 := by decide
    exact all entity h stored
  | numbered c digits h =>
    simp only [Glyph.written, List.mem_cons, List.mem_append, List.not_mem_nil, or_false] at stored
    rcases stored with same | same | same | same
    · exact absurd same (by decide)
    · exact absurd same (by decide)
    · exact (numberWritten_chars h _ same).2 rfl
    · exact absurd same (by decide)

theorem isPrefixOf_tag {entity : List Char} (h : '>' ∉ entity) (u v : List Char) :
    entity.isPrefixOf (u ++ '>' :: v) = entity.isPrefixOf u := by
  induction entity generalizing u with
  | nil => rw [List.isPrefixOf, List.isPrefixOf]
  | cons c entity ih =>
    rw [List.mem_cons, not_or] at h
    cases u with
    | nil => simp [List.isPrefixOf, Ne.symm h.1]
    | cons d u => rw [List.cons_append, List.isPrefixOf, List.isPrefixOf, ih h.2]

/-- No entity goes over the end of a tag. -/
theorem decodeFrom_tag (h : skip ≤ u.length) :
    decodeFrom skip (u ++ '>' :: v) = decodeFrom skip u ++ '>' :: decodeFrom 0 v := by
  have ends : ∀ entity ∈ ENTITIES, '>' ∉ entity.1 := by decide
  induction u generalizing skip with
  | nil =>
    obtain rfl : skip = 0 := by simpa using h
    exact decodeFrom_other (by decide)
  | cons c u ih =>
    cases skip with
    | succ skip => rw [List.cons_append, decodeFrom, ih (by simpa using h), decodeFrom]
    | zero =>
      have same : (ENTITIES.find? fun entity => entity.1.isPrefixOf (c :: (u ++ '>' :: v))) =
          ENTITIES.find? fun entity => entity.1.isPrefixOf (c :: u) :=
        List.find?_congr fun entity stored => isPrefixOf_tag (ends entity stored) (c :: u) v
      rw [List.cons_append, decodeFrom, same, decodeFrom]
      cases hfound : ENTITIES.find? fun entity => entity.1.isPrefixOf (c :: u) with
      | none =>
        dsimp only
        rw [ih (Nat.zero_le _), List.cons_append]
      | some entity =>
        have fits : entity.1.length - 1 ≤ u.length := by
          have found := List.find?_some hfound
          have := (List.isPrefixOf_iff_prefix.mp found).length_le
          rw [List.length_cons] at this
          omega
        dsimp only
        rw [ih fits, List.cons_append]

theorem decodeXml_tag (u v : List Char) : decodeXml (u ++ '>' :: v) = decodeXml u ++ '>' :: decodeXml v :=
  decodeFrom_tag (Nat.zero_le _)

end Decoding

end Finverse.Workbook
