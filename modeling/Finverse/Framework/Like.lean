import Mathlib.Data.List.Infix

/-! Patterns with wildcards, and when a pattern between two wildcards is a search for a part. -/

namespace Wildcards

/-- The symbols that a pattern does not take for themselves. -/
structure Marks (α : Type) where
  anyText : α
  anySymbol : α
  escape : α
  anyText_ne_anySymbol : anyText ≠ anySymbol
  anyText_ne_escape : anyText ≠ escape
  anySymbol_ne_escape : anySymbol ≠ escape

inductive Token (α : Type)
  | anyText
  | anySymbol
  | symbol (c : α)
  deriving DecidableEq, Repr

variable {α : Type} [DecidableEq α] (M : Marks α)

/-- What a symbol that is no escape stands for. -/
def token (c : α) : Token α :=
  if c = M.anyText then .anyText else if c = M.anySymbol then .anySymbol else .symbol c

/-- A pattern must not end in an escape. -/
def tokens : List α → Option (List (Token α))
  | [] => some []
  | c :: rest =>
    if c = M.escape then
      match rest with
      | [] => none
      | d :: rest => (tokens rest).map (.symbol d :: ·)
    else (tokens rest).map (token M c :: ·)

def fits : List (Token α) → List α → Bool
  | [], text => text.isEmpty
  | .anyText :: ts, text => text.tails.any (fits ts)
  | .anySymbol :: _, [] => false
  | .anySymbol :: ts, _ :: text => fits ts text
  | .symbol _ :: _, [] => false
  | .symbol c :: ts, x :: text => x == c && fits ts text

def like (pattern text : List α) : Bool := (tokens M pattern).any (fits · text)

/-- A pattern for the texts in which `part` is found. -/
def around (part : List α) : List α := M.anyText :: part ++ [M.anyText]

/-- No symbol of the text is special. -/
def Plain (text : List α) : Prop := M.anyText ∉ text ∧ M.anySymbol ∉ text ∧ M.escape ∉ text

instance (text : List α) : Decidable (Plain M text) := inferInstanceAs (Decidable (_ ∧ _ ∧ _))

variable {M} {part text : List α} {ts : List (Token α)} {c : α}

/-! ### A plain part -/

theorem tokens_cons (ordinary : c ≠ M.escape) (rest : List α) :
    tokens M (c :: rest) = (tokens M rest).map (token M c :: ·) := by
  rw [tokens.eq_def]
  exact if_neg ordinary

theorem tokens_escape (d : α) (rest : List α) :
    tokens M (M.escape :: d :: rest) = (tokens M rest).map (.symbol d :: ·) := by
  rw [tokens.eq_def]
  exact if_pos rfl

@[simp] theorem token_anyText : token M M.anyText = .anyText := if_pos rfl

@[simp] theorem token_anySymbol : token M M.anySymbol = .anySymbol := by
  rw [token, if_neg M.anyText_ne_anySymbol.symm, if_pos rfl]

theorem token_symbol (notText : c ≠ M.anyText) (notSymbol : c ≠ M.anySymbol) : token M c = .symbol c := by
  rw [token, if_neg notText, if_neg notSymbol]

theorem tokens_plain (plain : Plain M part) :
    tokens M (part ++ [M.anyText]) = some (part.map .symbol ++ [.anyText]) := by
  induction part with
  | nil => rw [List.nil_append, tokens_cons M.anyText_ne_escape, token_anyText]; rfl
  | cons c part ih =>
    simp only [Plain, List.mem_cons, not_or] at plain
    obtain ⟨⟨notText, text⟩, ⟨notSymbol, symbol⟩, notEscape, escape⟩ := plain
    rw [List.cons_append, tokens_cons (Ne.symm notEscape), ih ⟨text, symbol, escape⟩,
      token_symbol (Ne.symm notText) (Ne.symm notSymbol)]
    rfl

theorem tokens_around (h : tokens M (part ++ [M.anyText]) = some ts) :
    tokens M (around M part) = some (.anyText :: ts) := by
  rw [around, List.cons_append, tokens_cons M.anyText_ne_escape, h, token_anyText]
  rfl

theorem fits_anyText_iff : fits (.anyText :: ts) text = true ↔ ∃ rest, rest <:+ text ∧ fits ts rest = true := by
  simp [fits]

theorem fits_symbols_iff : fits (part.map .symbol ++ [.anyText]) text = true ↔ part <+: text := by
  induction part generalizing text with
  | nil =>
    have all : fits [.anyText] text = true := fits_anyText_iff.mpr ⟨[], List.nil_suffix, rfl⟩
    simpa using all
  | cons c part ih =>
    cases text with
    | nil => simp [fits]
    | cons x text =>
      rw [List.map_cons, List.cons_append, fits, Bool.and_eq_true, ih, List.cons_prefix_cons,
        beq_iff_eq, eq_comm]

/-- Without special symbols the pattern matches the texts that contain the part. -/
theorem like_around_iff (plain : Plain M part) : like M (around M part) text = true ↔ part <:+: text := by
  rw [like, tokens_around (tokens_plain plain), Option.any_some, fits_anyText_iff,
    List.infix_iff_prefix_suffix]
  simp only [fits_symbols_iff, and_comm]

/-! ### A part with special symbols -/

/-- The shortest text that is matched, with `blank` for any symbol. -/
def filling (blank : α) : List (Token α) → List α
  | [] => []
  | .anyText :: ts => filling blank ts
  | .anySymbol :: ts => blank :: filling blank ts
  | .symbol c :: ts => c :: filling blank ts

theorem fits_filling (blank : α) (ts : List (Token α)) : fits ts (filling blank ts) = true := by
  induction ts with
  | nil => rfl
  | cons t ts ih =>
    cases t with
    | anyText => exact fits_anyText_iff.mpr ⟨_, List.suffix_refl _, ih⟩
    | anySymbol => exact ih
    | symbol c => simp [filling, fits, ih]

/-- `filled` is shorter than `part`, or it has no single wildcard and no escape, and `part` no other. -/
structure Differs (M : Marks α) (blank : α) (part filled : List α) : Prop where
  within : ∀ c ∈ filled, c = blank ∨ c = M.anyText ∨ c ∈ part
  length_le : filled.length ≤ part.length
  missing : filled.length = part.length →
    M.anyText ∉ part ∧ M.anySymbol ∉ filled ∧ M.escape ∉ filled

namespace Differs

variable {blank d : α} {filled : List α}

omit [DecidableEq α] in
theorem cons (h : Differs M blank part filled) (kept : d = blank ∨ d = c) (notText : c ≠ M.anyText)
    (notSymbol : d ≠ M.anySymbol) (notEscape : d ≠ M.escape) :
    Differs M blank (c :: part) (d :: filled) where
  within x stored := by
    rcases List.mem_cons.mp stored with rfl | later
    · exact kept.imp_right fun same => .inr (by simp [same])
    · exact (h.within x later).imp_right (.imp_right (List.mem_cons_of_mem c))
  length_le := by
    have shorter := h.length_le
    simp only [List.length_cons]
    omega
  missing same := by
    have rest := h.missing (by simpa using same)
    simp [rest, notText.symm, notSymbol.symm, notEscape.symm]

omit [DecidableEq α] in
theorem skip (h : Differs M blank part filled) (c : α) : Differs M blank (c :: part) filled where
  within x stored := (h.within x stored).imp_right (.imp_right (List.mem_cons_of_mem c))
  length_le := h.length_le.trans (Nat.le_succ _)
  missing same := by
    have shorter := h.length_le
    simp only [List.length_cons] at same
    omega

omit [DecidableEq α] in
theorem skip_cons (h : Differs M blank part filled) (c d : α) :
    Differs M blank (c :: d :: part) (d :: filled) where
  within x stored := by
    rcases List.mem_cons.mp stored with rfl | later
    · exact .inr (.inr (by simp))
    · exact (h.within x later).imp_right (.imp_right fun old => by simp [old])
  length_le := by
    have shorter := h.length_le
    simp only [List.length_cons]
    omega
  missing same := by
    have shorter := h.length_le
    simp only [List.length_cons] at same
    omega

end Differs

variable {blank : α}

theorem exists_tokens (blankSymbol : blank ≠ M.anySymbol) (blankEscape : blank ≠ M.escape)
    (part : List α) : ∃ ts, tokens M (part ++ [M.anyText]) = some ts ∧
      Differs M blank part (filling blank ts) := by
  have last : tokens M [M.anyText] = some [.anyText] := by
    rw [tokens_cons M.anyText_ne_escape, token_anyText]
    rfl
  induction part using tokens.induct M with
  | case1 => exact ⟨[.anyText], last, by simp [filling], by simp [filling], by simp [filling]⟩
  | case2 =>
    -- The escape at the end takes the wildcard behind it for itself.
    refine ⟨[.symbol M.anyText], tokens_escape _ _, by simp [filling], by simp [filling], fun _ => ?_⟩
    simp [filling, M.anyText_ne_escape, M.anyText_ne_anySymbol.symm, M.anyText_ne_escape.symm]
  | case3 d rest ih =>
    obtain ⟨ts, read, differs⟩ := ih
    refine ⟨.symbol d :: ts, ?_, differs.skip_cons _ _⟩
    rw [List.cons_append, List.cons_append, tokens_escape, read]
    rfl
  | case4 c rest ordinary ih =>
    obtain ⟨ts, read, differs⟩ := ih
    refine ⟨token M c :: ts, ?_, ?_⟩
    · rw [List.cons_append, tokens_cons ordinary, read]
      rfl
    · by_cases text : c = M.anyText
      · rw [text, token_anyText]
        exact differs.skip _
      · by_cases symbol : c = M.anySymbol
        · rw [symbol, token_anySymbol]
          exact differs.cons (.inl rfl) M.anyText_ne_anySymbol.symm blankSymbol blankEscape
        · rw [token_symbol text symbol]
          exact differs.cons (.inr rfl) text symbol ordinary

/-- A part with special symbols is found by its pattern where it does not stand. -/
theorem exists_like (M : Marks α) (blank : α) (blankSymbol : blank ≠ M.anySymbol)
    (blankEscape : blank ≠ M.escape) (special : ¬Plain M part) : ∃ filled, like M (around M part) filled = true ∧
      (∀ c ∈ filled, c = blank ∨ c = M.anyText ∨ c ∈ part) ∧
        ∀ text : List α, text.length ≤ filled.length → (∀ c ∈ text, c = blank ∨ c ∈ filled) →
          ¬part <:+: text := by
  obtain ⟨ts, read, differs⟩ := exists_tokens blankSymbol blankEscape part
  refine ⟨filling blank ts, ?_, differs.within, ?_⟩
  · rw [like, tokens_around read, Option.any_some, fits_anyText_iff]
    exact ⟨_, List.suffix_refl _, fits_filling blank ts⟩
  · intro text short within found
    have long := found.length_le
    have bound := differs.length_le
    obtain ⟨noText, noSymbol, noEscape⟩ := differs.missing (by omega)
    have absent {c : α} (notBlank : c ≠ blank) (notFilled : c ∉ filling blank ts) : c ∉ part := by
      intro stored
      rcases within c (found.subset stored) with same | old
      · exact notBlank same
      · exact notFilled old
    exact special ⟨noText, absent blankSymbol.symm noSymbol, absent blankEscape.symm noEscape⟩

end Wildcards
