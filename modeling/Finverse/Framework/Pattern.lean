import Mathlib.Data.List.Basic
import Mathlib.Data.List.Infix
import Mathlib.Tactic.Common

/-! Backtracking patterns over lists: what a matcher that tries its choices in order finds first. -/

namespace Finverse

/-- A pattern. The greedy `many` and the lazy `few` repeat one symbol; `edge` is a place between a
word symbol and another one. -/
inductive Pattern (α : Type)
  | empty
  | one (p : α → Bool)
  | many (p : α → Bool) (least : Nat) (most : Option Nat)
  | few (p : α → Bool) (least : Nat)
  | started
  | ended
  | edge (word : α → Bool)
  | seq (first second : Pattern α)
  | either (first second : Pattern α)
  | group (index : Nat) (inner : Pattern α)

/-- A place in a text: what is behind, the nearest symbol first, and what is ahead; and the groups
that have been closed on the way. -/
structure Cursor (α : Type) where
  before : List α
  ahead : List α
  groups : List (Nat × List α)

namespace Cursor

variable {α : Type}

def start (text : List α) : Cursor α := ⟨[], text, []⟩

/-- One symbol further. -/
def advance (c : Cursor α) (x : α) (rest : List α) : Cursor α := ⟨x :: c.before, rest, c.groups⟩

/-- The cursor after a text that is ahead of it. -/
def skip (c : Cursor α) (text rest : List α) : Cursor α := ⟨text.reverse ++ c.before, rest, c.groups⟩

/-- The text between an earlier cursor and this one. -/
def since (c earlier : Cursor α) : List α :=
  (c.before.take (c.before.length - earlier.before.length)).reverse

def close (c earlier : Cursor α) (index : Nat) : Cursor α :=
  { c with groups := (index, c.since earlier) :: c.groups }

/-- With more further behind. -/
def push (c : Cursor α) (z : List α) : Cursor α := { c with before := c.before ++ z }

theorem since_push (c earlier : Cursor α) (z : List α) : (c.push z).since (earlier.push z) = c.since earlier := by
  have difference : (c.before ++ z).length - (earlier.before ++ z).length =
      c.before.length - earlier.before.length := by
    rw [List.length_append, List.length_append]
    omega
  rw [since, push, push, difference, List.take_append_of_le_length (Nat.sub_le _ _), since]

@[simp] theorem since_skip (c : Cursor α) (text rest : List α) : (c.skip text rest).since c = text := by
  have longer : (text.reverse ++ c.before).length - c.before.length = text.reverse.length := by
    rw [List.length_append]
    omega
  rw [since, skip, longer, List.take_left, List.reverse_reverse]

end Cursor

namespace Pattern

variable {α β : Type}

/-- As many as there are, and then fewer. -/
def runMany (p : α → Bool) (least : Nat) (most : Option Nat) (c : Cursor α) :
    List α → (Cursor α → Option β) → Option β
  | [], k => if least = 0 then k { c with ahead := [] } else none
  | x :: rest, k =>
    let stop := if least = 0 then k { c with ahead := x :: rest } else none
    if p x ∧ most ≠ some 0 then
      (runMany p (least - 1) (most.map (· - 1)) (c.advance x rest) rest k) <|> stop
    else stop

/-- None, and then more. -/
def runFew (p : α → Bool) (least : Nat) (c : Cursor α) :
    List α → (Cursor α → Option β) → Option β
  | [], k => if least = 0 then k { c with ahead := [] } else none
  | x :: rest, k =>
    (if least = 0 then k { c with ahead := x :: rest } else none) <|>
      if p x then runFew p (least - 1) (c.advance x rest) rest k else none

/-- What the rest of the matcher makes of the first way on from `c` that it accepts. -/
def run : Pattern α → Cursor α → (Cursor α → Option β) → Option β
  | empty, c, k => k c
  | one p, c, k =>
    match c.ahead with
    | [] => none
    | x :: rest => if p x then k (c.advance x rest) else none
  | many p least most, c, k => runMany p least most c c.ahead k
  | few p least, c, k => runFew p least c c.ahead k
  | started, c, k => if c.before = [] then k c else none
  | ended, c, k => if c.ahead = [] then k c else none
  | edge word, c, k => if c.before.head?.any word ≠ c.ahead.head?.any word then k c else none
  | seq first second, c, k => first.run c fun c => second.run c k
  | either first second, c, k => first.run c k <|> second.run c k
  | group index inner, c, k => inner.run c fun c' => k (c'.close c index)

/-- A match: where it starts, and where it stops. -/
structure Found (α : Type) where
  start : Cursor α
  stop : Cursor α

namespace Found

def text (found : Found α) : List α := found.stop.since found.start

/-- What a group has matched last. -/
def group? (found : Found α) (index : Nat) : Option (List α) := found.stop.groups.lookup index

end Found

/-- A match that starts here. -/
def matchHere (r : Pattern α) (before ahead : List α) : Option (Found α) :=
  (r.run ⟨before, ahead, []⟩ some).map (Found.mk ⟨before, ahead, []⟩)

/-- The first match from here on. -/
def execFrom (r : Pattern α) (before : List α) : List α → Option (Found α)
  | [] => r.matchHere before []
  | x :: rest => r.matchHere before (x :: rest) <|> r.execFrom (x :: before) rest

def exec (r : Pattern α) (text : List α) : Option (Found α) := r.execFrom [] text

def test (r : Pattern α) (text : List α) : Bool := (r.exec text).isSome

/-- The matches one after another; after an empty one the search goes on a symbol later. -/
def allFrom (r : Pattern α) : Nat → List α → List α → List (Found α)
  | 0, _, _ => []
  | fuel + 1, before, ahead =>
    match r.execFrom before ahead with
    | none => []
    | some found =>
      found :: match found.text, found.stop.ahead with
        | [], [] => []
        | [], x :: rest => r.allFrom fuel (x :: found.stop.before) rest
        | _ :: _, rest => r.allFrom fuel found.stop.before rest

def matchAll (r : Pattern α) (text : List α) : List (Found α) := r.allFrom (text.length + 1) [] text

/-! ### Composite patterns -/

def opt (r : Pattern α) : Pattern α := either r empty

def all : List (Pattern α) → Pattern α
  | [] => empty
  | [r] => r
  | r :: rest => seq r (all rest)

def any : List (Pattern α) → Pattern α
  | [] => one fun _ => false
  | [r] => r
  | r :: rest => either r (any rest)

/-- The symbols of a text, each up to `same`. -/
def literal (same : α → α → Bool) : List α → Pattern α
  | [] => empty
  | [x] => one (same x)
  | x :: rest => seq (one (same x)) (literal same rest)

/-! ### What a pattern matches -/

/-- The ways through a pattern from one cursor to another, in no order. -/
def Leads : Pattern α → Cursor α → Cursor α → Prop
  | empty, c, c' => c' = c
  | one p, c, c' => ∃ x rest, c.ahead = x :: rest ∧ p x = true ∧ c' = c.advance x rest
  | many p least most, c, c' => ∃ text rest, c.ahead = text ++ rest ∧ (∀ x ∈ text, p x = true) ∧
      least ≤ text.length ∧ (∀ bound ∈ most, text.length ≤ bound) ∧ c' = c.skip text rest
  | few p least, c, c' => ∃ text rest, c.ahead = text ++ rest ∧ (∀ x ∈ text, p x = true) ∧
      least ≤ text.length ∧ c' = c.skip text rest
  | started, c, c' => c.before = [] ∧ c' = c
  | ended, c, c' => c.ahead = [] ∧ c' = c
  | edge word, c, c' => c.before.head?.any word ≠ c.ahead.head?.any word ∧ c' = c
  | seq first second, c, c' => ∃ middle, first.Leads c middle ∧ second.Leads middle c'
  | either first second, c, c' => first.Leads c c' ∨ second.Leads c c'
  | group index inner, c, c' => ∃ stop, inner.Leads c stop ∧ c' = stop.close c index

section Leads

variable {p : α → Bool} {least : Nat} {most : Option Nat} {c : Cursor α} {ahead : List α}
  {k : Cursor α → Option β} {b : β}

theorem skip_nil (c : Cursor α) (rest : List α) : c.skip [] rest = { c with ahead := rest } := rfl

theorem skip_cons (c : Cursor α) (x : α) (text rest more : List α) :
    c.skip (x :: text) rest = (c.advance x more).skip text rest := by
  simp [Cursor.skip, Cursor.advance]

theorem runMany_eq_some (h : runMany p least most c ahead k = some b) :
    ∃ text rest, ahead = text ++ rest ∧ (∀ x ∈ text, p x = true) ∧ least ≤ text.length ∧
      (∀ bound ∈ most, text.length ≤ bound) ∧ k (c.skip text rest) = some b := by
  induction ahead generalizing least most c with
  | nil =>
    simp only [runMany] at h
    split at h
    · exact ⟨[], [], rfl, by simp, by simp; omega, by simp, h⟩
    · cases h
  | cons x rest ih =>
    have stopped (h : (if least = 0 then k { c with ahead := x :: rest } else none) = some b) :
        ∃ text rest', x :: rest = text ++ rest' ∧ (∀ x ∈ text, p x = true) ∧ least ≤ text.length ∧
          (∀ bound ∈ most, text.length ≤ bound) ∧ k (c.skip text rest') = some b := by
      split at h
      · exact ⟨[], x :: rest, rfl, by simp, by simp; omega, by simp, h⟩
      · cases h
    simp only [runMany] at h
    split at h
    · rename_i more
      rw [Option.orElse_eq_orElse, Option.orElse_eq_or, Option.or_eq_some_iff] at h
      rcases h with h | ⟨-, h⟩
      · obtain ⟨text, rest', rfl, holds, enough, bounded, h⟩ := ih h
        refine ⟨x :: text, rest', rfl, ?_, ?_, ?_, ?_⟩
        · simpa [more.1] using holds
        · rw [List.length_cons]
          omega
        · intro bound hbound
          have positive : bound ≠ 0 := by
            rintro rfl
            exact more.2 hbound
          have := bounded (bound - 1) (by simp [Option.mem_def.mp hbound])
          rw [List.length_cons]
          omega
        · rwa [skip_cons]
      · exact stopped h
    · exact stopped h

theorem runFew_eq_some (h : runFew p least c ahead k = some b) :
    ∃ text rest, ahead = text ++ rest ∧ (∀ x ∈ text, p x = true) ∧ least ≤ text.length ∧
      k (c.skip text rest) = some b := by
  induction ahead generalizing least c with
  | nil =>
    simp only [runFew] at h
    split at h
    · exact ⟨[], [], rfl, by simp, by simp; omega, h⟩
    · cases h
  | cons x rest ih =>
    simp only [runFew] at h
    rw [Option.orElse_eq_orElse, Option.orElse_eq_or, Option.or_eq_some_iff] at h
    rcases h with h | ⟨-, h⟩
    · split at h
      · exact ⟨[], x :: rest, rfl, by simp, by simp; omega, h⟩
      · cases h
    · split at h
      · rename_i hx
        obtain ⟨text, rest', rfl, holds, enough, h⟩ := ih h
        refine ⟨x :: text, rest', rfl, by simpa [hx] using holds, ?_, by rwa [skip_cons]⟩
        rw [List.length_cons]
        omega
      · cases h

/-- The matcher goes one of the ways of the pattern. -/
theorem run_eq_some {r : Pattern α} (h : r.run c k = some b) : ∃ c', r.Leads c c' ∧ k c' = some b := by
  induction r generalizing c k with
  | empty => exact ⟨c, rfl, h⟩
  | one p =>
    simp only [run] at h
    split at h
    · cases h
    · rename_i x rest hahead
      split at h
      · exact ⟨_, ⟨x, rest, hahead, ‹_›, rfl⟩, h⟩
      · cases h
  | many p least most =>
    obtain ⟨text, rest, split, holds, enough, bounded, h⟩ := runMany_eq_some h
    exact ⟨_, ⟨text, rest, split, holds, enough, bounded, rfl⟩, h⟩
  | few p least =>
    obtain ⟨text, rest, split, holds, enough, h⟩ := runFew_eq_some h
    exact ⟨_, ⟨text, rest, split, holds, enough, rfl⟩, h⟩
  | started =>
    simp only [run] at h
    split at h
    · exact ⟨c, ⟨‹_›, rfl⟩, h⟩
    · cases h
  | ended =>
    simp only [run] at h
    split at h
    · exact ⟨c, ⟨‹_›, rfl⟩, h⟩
    · cases h
  | edge word =>
    simp only [run] at h
    split at h
    · exact ⟨c, ⟨‹_›, rfl⟩, h⟩
    · cases h
  | seq first second ihFirst ihSecond =>
    obtain ⟨middle, hfirst, h⟩ := ihFirst h
    obtain ⟨c', hsecond, h⟩ := ihSecond h
    exact ⟨c', ⟨middle, hfirst, hsecond⟩, h⟩
  | either first second ihFirst ihSecond =>
    simp only [run, Option.orElse_eq_orElse, Option.orElse_eq_or, Option.or_eq_some_iff] at h
    rcases h with h | ⟨-, h⟩
    · obtain ⟨c', hfirst, h⟩ := ihFirst h
      exact ⟨c', .inl hfirst, h⟩
    · obtain ⟨c', hsecond, h⟩ := ihSecond h
      exact ⟨c', .inr hsecond, h⟩
  | group index inner ih =>
    obtain ⟨stop, hinner, h⟩ := ih h
    exact ⟨_, ⟨stop, hinner, rfl⟩, h⟩

theorem bounded_tail {x : α} {text : List α} (h : ∀ bound ∈ most, (x :: text).length ≤ bound) :
    ∀ bound ∈ most.map (· - 1), text.length ≤ bound := by
  intro bound hbound
  obtain ⟨bound', hbound', rfl⟩ := Option.map_eq_some_iff.mp hbound
  have := h bound' hbound'
  rw [List.length_cons] at this
  omega

theorem runMany_isSome {text rest : List α} (holds : ∀ x ∈ text, p x = true) (enough : least ≤ text.length)
    (bounded : ∀ bound ∈ most, text.length ≤ bound) (h : (k (c.skip text rest)).isSome) :
    (runMany p least most c (text ++ rest) k).isSome := by
  induction text generalizing least most c with
  | nil =>
    have none_needed : least = 0 := by simpa using enough
    cases rest with
    | nil => simpa [runMany, none_needed, skip_nil] using h
    | cons x rest =>
      have stop : (k { c with ahead := x :: rest }).isSome := h
      simp only [List.nil_append, runMany, none_needed, if_true]
      split
      · simp [stop]
      · exact stop
  | cons x text ih =>
    have hx := holds x (by simp)
    have more : most ≠ some 0 := by
      rintro rfl
      simpa using bounded 0 rfl
    have fewer : least - 1 ≤ text.length := by
      rw [List.length_cons] at enough
      omega
    have tail : (runMany p (least - 1) (most.map (· - 1)) (c.advance x (text ++ rest)) (text ++ rest)
        k).isSome :=
      ih (fun y hy => holds y (by simp [hy])) fewer (bounded_tail bounded) (by rwa [← skip_cons])
    simp only [List.cons_append, runMany]
    rw [if_pos ⟨hx, more⟩]
    simp [tail]

theorem runFew_isSome {text rest : List α} (holds : ∀ x ∈ text, p x = true) (enough : least ≤ text.length)
    (h : (k (c.skip text rest)).isSome) : (runFew p least c (text ++ rest) k).isSome := by
  induction text generalizing least c with
  | nil =>
    have none_needed : least = 0 := by simpa using enough
    cases rest with
    | nil => simpa [runFew, none_needed, skip_nil] using h
    | cons x rest =>
      have stop : (k { c with ahead := x :: rest }).isSome := h
      simp [runFew, none_needed, stop]
  | cons x text ih =>
    have hx := holds x (by simp)
    have fewer : least - 1 ≤ text.length := by
      rw [List.length_cons] at enough
      omega
    have tail : (runFew p (least - 1) (c.advance x (text ++ rest)) (text ++ rest) k).isSome :=
      ih (fun y hy => holds y (by simp [hy])) fewer (by rwa [← skip_cons])
    simp only [List.cons_append, runFew, hx, if_true]
    simp [tail]

/-- The matcher misses no way of the pattern that what comes after it accepts. -/
theorem run_isSome {r : Pattern α} {c' : Cursor α} (h : r.Leads c c') (accepts : (k c').isSome) :
    (r.run c k).isSome := by
  induction r generalizing c c' k with
  | empty =>
    obtain rfl := h
    exact accepts
  | one p =>
    obtain ⟨x, rest, hahead, hx, rfl⟩ := h
    simpa [run, hahead, hx] using accepts
  | many p least most =>
    obtain ⟨text, rest, hahead, holds, enough, bounded, rfl⟩ := h
    rw [run, hahead]
    exact runMany_isSome holds enough bounded accepts
  | few p least =>
    obtain ⟨text, rest, hahead, holds, enough, rfl⟩ := h
    rw [run, hahead]
    exact runFew_isSome holds enough accepts
  | started =>
    obtain ⟨here, rfl⟩ := h
    simpa [run, here] using accepts
  | ended =>
    obtain ⟨here, rfl⟩ := h
    simpa [run, here] using accepts
  | edge word =>
    obtain ⟨here, rfl⟩ := h
    rw [run, if_pos here]
    exact accepts
  | seq first second ihFirst ihSecond =>
    obtain ⟨middle, hfirst, hsecond⟩ := h
    exact ihFirst hfirst (ihSecond hsecond accepts)
  | either first second ihFirst ihSecond =>
    rcases h with hfirst | hsecond
    · simp [run, ihFirst hfirst accepts]
    · simp [run, ihSecond hsecond accepts]
  | group index inner ih =>
    obtain ⟨stop, hinner, rfl⟩ := h
    exact ih hinner accepts

/-- The match from `before` on, once it has been found. -/
theorem execFrom_eq_some {r : Pattern α} {before : List α} {found : Found α}
    (h : r.execFrom before ahead = some found) :
    ∃ passed rest, ahead = passed ++ rest ∧ found.start = ⟨passed.reverse ++ before, rest, []⟩ ∧
      r.Leads found.start found.stop := by
  have here {before ahead : List α} (matched : r.matchHere before ahead = some found) :
      found.start = ⟨before, ahead, []⟩ ∧ r.Leads found.start found.stop := by
    rw [matchHere, Option.map_eq_some_iff] at matched
    obtain ⟨stop, hrun, rfl⟩ := matched
    obtain ⟨c', leads, same⟩ := run_eq_some hrun
    obtain rfl := Option.some.inj same
    exact ⟨rfl, leads⟩
  induction ahead generalizing before with
  | nil => exact ⟨[], [], rfl, here h⟩
  | cons x rest ih =>
    rw [execFrom, Option.orElse_eq_orElse, Option.orElse_eq_or, Option.or_eq_some_iff] at h
    rcases h with h | ⟨-, h⟩
    · exact ⟨[], x :: rest, rfl, here h⟩
    · obtain ⟨passed, rest', rfl, start, leads⟩ := ih h
      exact ⟨x :: passed, rest', rfl, by simp [start], leads⟩

theorem exec_eq_some {r : Pattern α} {text : List α} {found : Found α} (h : r.exec text = some found) :
    ∃ passed rest, text = passed ++ rest ∧ found.start = ⟨passed.reverse, rest, []⟩ ∧
      r.Leads found.start found.stop := by
  obtain ⟨passed, rest, split, start, leads⟩ := execFrom_eq_some h
  exact ⟨passed, rest, split, by simpa using start, leads⟩

theorem execFrom_isSome {r : Pattern α} {before passed rest : List α} {stop : Cursor α}
    (leads : r.Leads ⟨passed.reverse ++ before, rest, []⟩ stop) :
    (r.execFrom before (passed ++ rest)).isSome := by
  have here : (r.matchHere (passed.reverse ++ before) rest).isSome := by
    simpa [matchHere] using run_isSome (k := some) leads rfl
  induction passed generalizing before with
  | nil =>
    cases rest with
    | nil => exact here
    | cons x rest => simp [execFrom, show (r.matchHere before (x :: rest)).isSome from here]
  | cons x passed ih =>
    have tail : (r.execFrom (x :: before) (passed ++ rest)).isSome :=
      ih (by simpa using leads) (by simpa using here)
    simp [execFrom, tail]

theorem exec_isSome {r : Pattern α} {passed rest : List α} {stop : Cursor α}
    (leads : r.Leads ⟨passed.reverse, rest, []⟩ stop) : (r.exec (passed ++ rest)).isSome :=
  execFrom_isSome (by simpa using leads)

/-- A pattern goes over what is ahead, and leaves it behind. -/
theorem Leads.spans {r : Pattern α} {c' : Cursor α} (h : r.Leads c c') :
    ∃ text, c.ahead = text ++ c'.ahead ∧ c'.before = text.reverse ++ c.before := by
  induction r generalizing c c' with
  | empty =>
    obtain rfl := h
    exact ⟨[], rfl, rfl⟩
  | one p =>
    obtain ⟨x, rest, hahead, -, rfl⟩ := h
    exact ⟨[x], hahead, rfl⟩
  | many p least most =>
    obtain ⟨text, rest, hahead, -, -, -, rfl⟩ := h
    exact ⟨text, hahead, rfl⟩
  | few p least =>
    obtain ⟨text, rest, hahead, -, -, rfl⟩ := h
    exact ⟨text, hahead, rfl⟩
  | started =>
    obtain ⟨-, rfl⟩ := h
    exact ⟨[], rfl, rfl⟩
  | ended =>
    obtain ⟨-, rfl⟩ := h
    exact ⟨[], rfl, rfl⟩
  | edge word =>
    obtain ⟨-, rfl⟩ := h
    exact ⟨[], rfl, rfl⟩
  | seq first second ihFirst ihSecond =>
    obtain ⟨middle, hfirst, hsecond⟩ := h
    obtain ⟨text, hahead, hbefore⟩ := ihFirst hfirst
    obtain ⟨text', hahead', hbefore'⟩ := ihSecond hsecond
    exact ⟨text ++ text', by rw [hahead, hahead', List.append_assoc], by rw [hbefore', hbefore]; simp⟩
  | either first second ihFirst ihSecond =>
    rcases h with h | h
    · exact ihFirst h
    · exact ihSecond h
  | group index inner ih =>
    obtain ⟨stop, hinner, rfl⟩ := h
    obtain ⟨text, hahead, hbefore⟩ := ih hinner
    exact ⟨text, hahead, hbefore⟩

theorem leads_literal [DecidableEq α] {text : List α} {c' : Cursor α}
    (h : (literal (· == ·) text).Leads c c') : ∃ rest, c.ahead = text ++ rest ∧ c' = c.skip text rest := by
  induction text generalizing c with
  | nil =>
    obtain rfl := h
    exact ⟨c'.ahead, rfl, rfl⟩
  | cons x text ih =>
    have step : ∃ rest, c.ahead = x :: rest ∧ (literal (· == ·) text).Leads (c.advance x rest) c' := by
      cases text with
      | nil =>
        obtain ⟨y, rest, hahead, hx, rfl⟩ := h
        obtain rfl := beq_iff_eq.mp hx
        exact ⟨rest, hahead, rfl⟩
      | cons z text =>
        obtain ⟨middle, ⟨y, rest, hahead, hx, rfl⟩, h⟩ := h
        obtain rfl := beq_iff_eq.mp hx
        exact ⟨rest, hahead, h⟩
    obtain ⟨more, hahead, following⟩ := step
    obtain ⟨rest, hmore, rfl⟩ := ih following
    obtain rfl : more = text ++ rest := hmore
    exact ⟨rest, hahead, (skip_cons c x text rest _).symm⟩

/-- What has been matched stands between the two cursors. -/
theorem Found.text_eq {found : Found α} {text : List α}
    (h : found.stop.before = text.reverse ++ found.start.before) : found.text = text := by
  rw [← Cursor.since_skip found.start text []]
  simp only [Found.text, Cursor.since, Cursor.skip, h]

end Leads

/-! ### Choices that are made at once -/

section Choices

variable {p : α → Bool} {least : Nat} {most : Option Nat} {c : Cursor α} {k : Cursor α → Option β} {b : β}

/-- The greedy repetition goes as far as it can and may, if what comes after it accepts that. -/
theorem run_many_most {text rest : List α} (hahead : c.ahead = text ++ rest)
    (holds : ∀ x ∈ text, p x = true) (enough : least ≤ text.length)
    (bounded : ∀ bound ∈ most, text.length ≤ bound)
    (stops : (∀ x ∈ rest.head?, p x = false) ∨ most = some text.length)
    (h : k (c.skip text rest) = some b) : (many p least most).run c k = some b := by
  rw [run, hahead]
  clear hahead
  induction text generalizing least most c with
  | nil =>
    have none_needed : least = 0 := by simpa using enough
    cases rest with
    | nil => simpa [runMany, none_needed, skip_nil] using h
    | cons x rest =>
      have stop : ¬(p x = true ∧ most ≠ some 0) := by
        rintro ⟨hx, more⟩
        rcases stops with stop | full
        · rw [stop x rfl] at hx
          exact Bool.false_ne_true hx
        · exact more full
      simp only [List.nil_append, runMany, none_needed, if_true]
      rw [if_neg stop]
      exact h
  | cons x text ih =>
    have hx := holds x (by simp)
    have more : most ≠ some 0 := by
      rintro rfl
      simpa using bounded 0 rfl
    have fewer : least - 1 ≤ text.length := by
      rw [List.length_cons] at enough
      omega
    have stops' : (∀ x ∈ rest.head?, p x = false) ∨ most.map (· - 1) = some text.length := by
      rcases stops with stop | full
      · exact .inl stop
      · exact .inr (by rw [full]; rfl)
    have tail : runMany p (least - 1) (most.map (· - 1)) (c.advance x (text ++ rest)) (text ++ rest) k =
        some b :=
      ih (fun y hy => holds y (by simp [hy])) fewer (bounded_tail bounded) stops' (by rwa [← skip_cons])
    simp only [List.cons_append, runMany]
    rw [if_pos ⟨hx, more⟩, tail]
    rfl

theorem run_many_longest {text rest : List α} (hahead : c.ahead = text ++ rest)
    (holds : ∀ x ∈ text, p x = true) (enough : least ≤ text.length)
    (bounded : ∀ bound ∈ most, text.length ≤ bound) (stops : ∀ x ∈ rest.head?, p x = false)
    (h : k (c.skip text rest) = some b) : (many p least most).run c k = some b :=
  run_many_most hahead holds enough bounded (.inl stops) h

theorem run_one {x : α} {rest : List α} (hahead : c.ahead = x :: rest) (hx : p x = true) :
    (one p).run c k = k (c.advance x rest) := by
  rw [run, hahead]
  exact if_pos hx

theorem run_one_none (h : ∀ x ∈ c.ahead.head?, p x = false) : (one p).run c k = none := by
  rw [run]
  split
  · rfl
  · rename_i x rest hahead
    rw [if_neg (by simp [h x (by rw [hahead]; rfl)])]

/-- The greedy repetition has no choice, if what comes after it rejects one more of its symbols. -/
theorem run_many_all {text rest : List α} (hahead : c.ahead = text ++ rest)
    (holds : ∀ x ∈ text, p x = true) (stops : ∀ x ∈ rest.head?, p x = false)
    (rejects : ∀ c' x more, c'.ahead = x :: more → p x = true → k c' = none) :
    (many p 0 none).run c k = k (c.skip text rest) := by
  rw [run, hahead]
  clear hahead
  induction text generalizing c with
  | nil =>
    cases rest with
    | nil => rfl
    | cons x rest =>
      have stop : p x = false := stops x rfl
      simp [runMany, stop, skip_nil]
  | cons x text ih =>
    have hx := holds x (by simp)
    have tail : runMany p 0 none (c.advance x (text ++ rest)) (text ++ rest) k =
        k (c.skip (x :: text) rest) := by
      rw [skip_cons c x text rest (text ++ rest)]
      exact ih fun y hy => holds y (by simp [hy])
    have stopped : k { c with ahead := x :: (text ++ rest) } = none := rejects _ x _ rfl hx
    simp only [List.cons_append, runMany]
    rw [if_pos ⟨hx, by simp⟩, stopped]
    simp [tail]

/-- The lazy repetition stops at the first place that what comes after it accepts. -/
theorem run_few_first {text rest : List α} (hahead : c.ahead = text ++ rest)
    (holds : ∀ x ∈ text, p x = true)
    (rejects : ∀ passed x more, text = passed ++ x :: more →
      k (c.skip passed (x :: (more ++ rest))) = none)
    (h : k (c.skip text rest) = some b) : (few p 0).run c k = some b := by
  rw [run, hahead]
  clear hahead
  induction text generalizing c with
  | nil =>
    cases rest with
    | nil => simpa [runFew, skip_nil] using h
    | cons x rest =>
      have accepted : k { c with ahead := x :: rest } = some b := h
      simp [runFew, accepted]
  | cons x text ih =>
    have hx := holds x (by simp)
    have stopped : k { c with ahead := x :: (text ++ rest) } = none := rejects [] x text rfl
    have tail : runFew p 0 (c.advance x (text ++ rest)) (text ++ rest) k = some b := by
      refine ih (fun y hy => holds y (by simp [hy])) ?_ (by rwa [← skip_cons])
      rintro passed y more rfl
      rw [← skip_cons]
      exact rejects (x :: passed) y more rfl
    simp [runFew, stopped, hx, tail]

section Literals

theorem run_literal_cons (same : α → α → Bool) (x : α) (text : List α) : (literal same (x :: text)).run c k =
    (one (same x)).run c fun c => (literal same text).run c k := by
  cases text <;> rfl

variable [DecidableEq α] {text rest : List α}

theorem run_literal (hahead : c.ahead = text ++ rest) :
    (literal (· == ·) text).run c k = k (c.skip text rest) := by
  induction text generalizing c with
  | nil =>
    show k c = _
    rw [skip_nil, ← show c.ahead = rest from hahead]
  | cons x text ih =>
    have following : (literal (· == ·) text).run (c.advance x (text ++ rest)) k =
        k ((c.advance x (text ++ rest)).skip text rest) := ih rfl
    rw [run_literal_cons, run_one hahead (by simp)]
    exact following.trans (congrArg k (skip_cons c x text rest _).symm)

theorem run_literal_none (h : ¬text <+: c.ahead) : (literal (· == ·) text).run c k = none := by
  induction text generalizing c with
  | nil => exact absurd List.nil_prefix h
  | cons x text ih =>
    rw [run_literal_cons]
    cases hahead : c.ahead with
    | nil => exact run_one_none (by simp [hahead])
    | cons y rest =>
      by_cases hy : y = x
      · subst hy
        have later : ¬text <+: rest := fun hp => h (by simpa [hahead] using hp)
        rw [run_one hahead (by simp)]
        exact ih later
      · exact run_one_none (by simp [hahead, Ne.symm hy])

end Literals

theorem exec_of_run {r : Pattern α} {text : List α} {stop : Cursor α}
    (h : r.run (Cursor.start text) some = some stop) : r.exec text = some ⟨Cursor.start text, stop⟩ := by
  have here : r.matchHere [] text = some ⟨Cursor.start text, stop⟩ := by
    rw [matchHere, ← Cursor.start, h]
    rfl
  cases text with
  | nil => exact here
  | cons x rest =>
    rw [exec, execFrom, here]
    rfl

/-- The search goes on where nothing matches. -/
theorem execFrom_skip {r : Pattern α} {before passed rest : List α}
    (quiet : ∀ a x b, passed = a ++ x :: b → r.matchHere (a.reverse ++ before) (x :: (b ++ rest)) = none) :
    r.execFrom before (passed ++ rest) = r.execFrom (passed.reverse ++ before) rest := by
  induction passed generalizing before with
  | nil => rfl
  | cons x passed ih =>
    have here : r.matchHere before (x :: (passed ++ rest)) = none := quiet [] x passed rfl
    rw [List.cons_append, execFrom, here]
    have tail : r.execFrom (x :: before) (passed ++ rest) =
        r.execFrom (passed.reverse ++ x :: before) rest := by
      apply ih
      rintro a y b rfl
      have later := quiet (x :: a) y b rfl
      simpa using later
    simpa using tail

theorem execFrom_here {r : Pattern α} {before ahead : List α} {found : Found α}
    (h : r.matchHere before ahead = some found) : r.execFrom before ahead = some found := by
  cases ahead with
  | nil => exact h
  | cons x rest =>
    rw [execFrom, h]
    rfl

theorem matchHere_of_run {r : Pattern α} {before ahead : List α} {stop : Cursor α}
    (h : r.run ⟨before, ahead, []⟩ some = some stop) :
    r.matchHere before ahead = some ⟨⟨before, ahead, []⟩, stop⟩ := by
  rw [matchHere, h]
  rfl

/-- A match that is not empty, and then those after it. -/
theorem allFrom_cons {r : Pattern α} {before ahead : List α} {found : Found α} {fuel : Nat}
    (h : r.execFrom before ahead = some found) (nonempty : found.text ≠ []) :
    r.allFrom (fuel + 1) before ahead = found :: r.allFrom fuel found.stop.before found.stop.ahead := by
  rw [allFrom, h]
  dsimp only
  split
  · rename_i empty _
    exact absurd empty nonempty
  · rename_i empty _
    exact absurd empty nonempty
  · rfl

theorem allFrom_none {r : Pattern α} {before ahead : List α} {fuel : Nat}
    (h : r.execFrom before ahead = none) : r.allFrom fuel before ahead = [] := by
  cases fuel with
  | zero => rfl
  | succ fuel => rw [allFrom, h]

end Choices

/-! ### Places where a text cannot start -/

section NoStart

variable {text u v : List α}

/-- The text does not start in `u`, whatever comes after it. -/
def NoStart (text u : List α) : Prop :=
  ∀ passed x more tail, u = passed ++ x :: more → ¬text <+: x :: (more ++ tail)

theorem append_cases {passed more : List α} {x : α} (h : u ++ v = passed ++ x :: more) :
    (∃ more', u = passed ++ x :: more' ∧ more = more' ++ v) ∨
      ∃ passed', passed = u ++ passed' ∧ v = passed' ++ x :: more := by
  rcases List.append_eq_append_iff.mp h with ⟨passed', rfl, hv⟩ | ⟨rest, rfl, hrest⟩
  · exact .inr ⟨passed', rfl, hv⟩
  · cases rest with
    | nil => exact .inr ⟨[], by simp, by simpa using hrest.symm⟩
    | cons y rest =>
      obtain ⟨rfl, rfl⟩ := List.cons.inj hrest
      exact .inl ⟨rest, rfl, rfl⟩

theorem NoStart.append (hu : NoStart text u) (hv : NoStart text v) : NoStart text (u ++ v) := by
  intro passed x more tail split
  rcases append_cases split with ⟨more', hsplit, rfl⟩ | ⟨passed', -, hsplit⟩
  · rw [List.append_assoc]
    exact hu passed x more' (v ++ tail) hsplit
  · exact hv passed' x more tail hsplit

theorem NoStart.longer (h : NoStart text u) (more : List α) : NoStart (text ++ more) u :=
  fun passed x rest tail split hprefix =>
    h passed x rest tail split ((List.prefix_append text more).trans hprefix)

theorem noStart_nil : NoStart text [] := by
  intro passed x more tail split
  simp at split

theorem noStart_flatMap {γ : Type} {parts : List γ} {f : γ → List α} (h : ∀ part ∈ parts, NoStart text (f part)) :
    NoStart text (parts.flatMap f) := by
  induction parts with
  | nil => exact noStart_nil
  | cons part parts ih =>
    rw [List.forall_mem_cons] at h
    rw [List.flatMap_cons]
    exact h.1.append (ih h.2)

theorem noStart_of_not_mem {first : α} (h : first ∉ u) : NoStart (first :: text) u := by
  rintro passed x more tail rfl hprefix
  obtain ⟨rfl, -⟩ := List.cons_prefix_cons.mp hprefix
  simp at h

/-- Its first two symbols do not stand next to each other. -/
theorem noStart_of_second {first second last : α} {more : List α} (h : second ∉ u ++ [last])
    (other : last ≠ first) : NoStart (first :: second :: more) (u ++ [last]) := by
  intro passed x rest tail split hprefix
  obtain ⟨rfl, following⟩ := List.cons_prefix_cons.mp hprefix
  cases rest with
  | nil =>
    have ends : last = first := by
      have := congrArg List.getLast? split
      simpa using this
    exact other ends
  | cons y rest =>
    obtain ⟨rfl, -⟩ := List.cons_prefix_cons.mp following
    rw [split] at h
    simp at h

/-- The text starts in `u`, or may with more behind. -/
def startsIn [DecidableEq α] (text u : List α) : Bool :=
  u.tails.any fun rest => !rest.isEmpty && (text.isPrefixOf rest || rest.isPrefixOf text)

theorem noStart_of_startsIn [DecidableEq α] (h : startsIn text u = false) : NoStart text u := by
  rintro passed x more tail rfl hprefix
  rw [startsIn, List.any_eq_false] at h
  have quiet := h (x :: more) ((List.mem_tails _ _).mpr (List.suffix_append passed _))
  simp only [List.isEmpty_cons, Bool.not_false, Bool.true_and, Bool.or_eq_true, List.isPrefixOf_iff_prefix,
    not_or] at quiet
  rw [← List.cons_append] at hprefix
  rcases List.prefix_or_prefix_of_prefix hprefix (List.prefix_append (x :: more) tail) with before | after
  · exact quiet.1 before
  · exact quiet.2 after

end NoStart

/-! ### What is behind -/

section Behind

variable {γ : Type} {c : Cursor α} {z before ahead : List α} {k : Cursor α → Option β}

theorem map_orElse (f : β → γ) (a b : Option β) : (a <|> b).map f = (a.map f <|> b.map f) := by
  cases a <;> rfl

theorem runMany_map (f : β → γ) {p : α → Bool} {least : Nat} {most : Option Nat} :
    (runMany p least most c ahead k).map f = runMany p least most c ahead fun c => (k c).map f := by
  induction ahead generalizing c least most with
  | nil =>
    simp only [runMany]
    split <;> rfl
  | cons x rest ih =>
    simp only [runMany]
    split
    · rw [map_orElse, ih]
      split <;> rfl
    · split <;> rfl

theorem runFew_map (f : β → γ) {p : α → Bool} {least : Nat} :
    (runFew p least c ahead k).map f = runFew p least c ahead fun c => (k c).map f := by
  induction ahead generalizing c least with
  | nil =>
    simp only [runFew]
    split <;> rfl
  | cons x rest ih =>
    have more : (if p x then runFew p (least - 1) (c.advance x rest) rest k else none).map f =
        if p x then runFew p (least - 1) (c.advance x rest) rest fun c => (k c).map f else none := by
      split
      · exact ih
      · rfl
    simp only [runFew]
    rw [map_orElse, more]
    split <;> rfl

/-- What is made of the result may as well be made of what the rest of the matcher makes. -/
theorem run_map (r : Pattern α) (f : β → γ) : (r.run c k).map f = r.run c fun c => (k c).map f := by
  induction r generalizing c k with
  | empty => rfl
  | one p =>
    simp only [run]
    split
    · rfl
    · split <;> rfl
  | many p least most => exact runMany_map f
  | few p least => exact runFew_map f
  | started => simp only [run]; split <;> rfl
  | ended => simp only [run]; split <;> rfl
  | edge word => simp only [run]; split <;> rfl
  | seq first second ihFirst ihSecond => simp only [run, ihFirst, ihSecond]
  | either first second ihFirst ihSecond => simp only [run, map_orElse, ihFirst, ihSecond]
  | group index inner ih => exact ih

/-- The pattern cannot tell `z` from nothing behind. -/
def Blind (z : List α) : Pattern α → Prop
  | started => False
  | edge word => z.head?.any word = false
  | seq first second => first.Blind z ∧ second.Blind z
  | either first second => first.Blind z ∧ second.Blind z
  | group _ inner => inner.Blind z
  | _ => True

theorem blind_literal (same : α → α → Bool) (text : List α) : Blind z (literal same text) := by
  induction text with
  | nil => trivial
  | cons x text ih =>
    cases text with
    | nil => trivial
    | cons y text => exact ⟨trivial, ih⟩

theorem push_with (c : Cursor α) (z rest : List α) :
    { c.push z with ahead := rest } = ({ c with ahead := rest } : Cursor α).push z := rfl

theorem push_advance (c : Cursor α) (z : List α) (x : α) (rest : List α) :
    (c.push z).advance x rest = (c.advance x rest).push z := rfl

theorem runMany_push {p : α → Bool} {least : Nat} {most : Option Nat} {k' : Cursor α → Option β}
    (h : ∀ c, k (c.push z) = k' c) :
    runMany p least most (c.push z) ahead k = runMany p least most c ahead k' := by
  induction ahead generalizing c least most with
  | nil => simp only [runMany, push_with, h]
  | cons x rest ih => simp only [runMany, push_with, push_advance, ih, h]

theorem runFew_push {p : α → Bool} {least : Nat} {k' : Cursor α → Option β}
    (h : ∀ c, k (c.push z) = k' c) : runFew p least (c.push z) ahead k = runFew p least c ahead k' := by
  induction ahead generalizing c least with
  | nil => simp only [runFew, push_with, h]
  | cons x rest ih => simp only [runFew, push_with, push_advance, ih, h]

theorem run_push {r : Pattern α} {k' : Cursor α → Option β} (blind : r.Blind z)
    (h : ∀ c, k (c.push z) = k' c) : r.run (c.push z) k = r.run c k' := by
  induction r generalizing c k k' with
  | empty => exact h c
  | one p =>
    obtain ⟨before, ahead, groups⟩ := c
    cases ahead with
    | nil => rfl
    | cons x rest =>
      have following := h ⟨x :: before, rest, groups⟩
      show (if p x then k (Cursor.push ⟨x :: before, rest, groups⟩ z) else none) = _
      rw [following]
      rfl
  | many p least most => exact runMany_push h
  | few p least => exact runFew_push h
  | started => exact absurd blind id
  | ended =>
    show (if c.ahead = [] then k (c.push z) else none) = _
    rw [h]
    rfl
  | edge word =>
    have same : (c.before ++ z).head?.any word = c.before.head?.any word := by
      cases hbefore : c.before with
      | nil => exact blind
      | cons x before => rfl
    show (if (c.before ++ z).head?.any word ≠ c.ahead.head?.any word then k (c.push z) else none) = _
    rw [same, h]
    rfl
  | seq first second ihFirst ihSecond => exact ihFirst blind.1 fun c => ihSecond blind.2 h
  | either first second ihFirst ihSecond => simp only [run, ihFirst blind.1 h, ihSecond blind.2 h]
  | group index inner ih =>
    refine ih blind fun c' => ?_
    rw [← h, Cursor.close, Cursor.close, Cursor.since_push]
    rfl

/-- What is behind does not matter to what the groups match. -/
theorem execFrom_push {r : Pattern α} (blind : r.Blind z) :
    (r.execFrom (before ++ z) ahead).map (·.stop.groups) = (r.execFrom before ahead).map (·.stop.groups) := by
  have here (before ahead : List α) :
      (r.matchHere (before ++ z) ahead).map (·.stop.groups) = (r.matchHere before ahead).map (·.stop.groups) := by
    have groups (c : Cursor α) : ((r.run c some).map (Found.mk c)).map (·.stop.groups) =
        r.run c fun c => some c.groups := by
      rw [Option.map_map, run_map]
      rfl
    rw [matchHere, matchHere, groups, groups]
    exact run_push (c := ⟨before, ahead, []⟩) blind fun _ => rfl
  induction ahead generalizing before with
  | nil => exact here before []
  | cons x rest ih =>
    simp only [execFrom, map_orElse, here]
    rw [← List.cons_append, ih]

end Behind

end Pattern

end Finverse
