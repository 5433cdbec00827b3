import Finverse.Framework.Bytes
import Finverse.Webauthn.Cbor

/-! The items of CBOR: how they are written, and what they denote. -/

namespace Finverse.Webauthn

/-! ### Heads -/

/-- Where an argument is written: in the initial byte, or in so many bytes behind it. -/
inductive Width
  | short
  | one
  | two
  | four
  | eight
  deriving DecidableEq, Repr

namespace Width

def size : Width → Nat
  | short => 0
  | one => 1
  | two => 2
  | four => 4
  | eight => 8

def bound : Width → Nat
  | short => 24
  | width => 256 ^ width.size

end Width

@[ext] structure Argument where
  width : Width
  value : Nat
  fits : value < width.bound
  deriving DecidableEq

def Argument.info (argument : Argument) : Nat :=
  match argument.width with
  | .short => argument.value
  | .one => 24
  | .two => 25
  | .four => 26
  | .eight => 27

/-- The additional information of a head. Without an argument it is 31. -/
def infoOf : Option Argument → Nat
  | none => 31
  | some argument => argument.info

/-- What follows the initial byte of a head. -/
def tailOf : Option Argument → List UInt8
  | none => []
  | some argument => BigEndian.bytes argument.width.size argument.value

def head (major : Nat) (argument : Option Argument) : List UInt8 :=
  UInt8.ofNat (major * 32 + infoOf argument) :: tailOf argument

/-! ### Items -/

/-- An item as it is written. A map without an argument has an indefinite length; an integer or a tag
without one has a reserved head. -/
inductive Item
  | unsigned (argument : Option Argument)
  | negative (argument : Option Argument)
  | bytes (argument : Argument) (content : List UInt8)
  | text (argument : Argument) (content : List UInt8)
  | array (argument : Argument) (items : List Item)
  | map (argument : Option Argument) (entries : List (Item × Item))
  | tag (argument : Option Argument) (item : Item)
  | boolean (b : Bool)
  | null

namespace Item

/-- The argument of a simple value. -/
def simple (value : Fin 24) : Option Argument := some ⟨.short, value, value.isLt⟩

mutual

def encode : Item → List UInt8
  | unsigned argument => head 0 argument
  | negative argument => head 1 argument
  | bytes argument content => head 2 (some argument) ++ content
  | text argument content => head 3 (some argument) ++ content
  | array argument items => head 4 (some argument) ++ encodeAll items
  | map argument entries => head 5 argument ++ encodeEntries entries ++ if argument = none then [0xff] else []
  | tag argument item => head 6 argument ++ item.encode
  | boolean false => head 7 (simple 20)
  | boolean true => head 7 (simple 21)
  | null => head 7 (simple 22)

def encodeAll : List Item → List UInt8
  | [] => []
  | item :: items => item.encode ++ encodeAll items

def encodeEntries : List (Item × Item) → List UInt8
  | [] => []
  | (key, value) :: entries => key.encode ++ value.encode ++ encodeEntries entries

end

mutual

/-- Every length is the one in the head. -/
def Sized : Item → Prop
  | bytes argument content | text argument content => argument.value = content.length
  | array argument items => argument.value = items.length ∧ AllSized items
  | map argument entries => (∀ a ∈ argument, a.value = entries.length) ∧ EntriesSized entries
  | tag _ item => item.Sized
  | unsigned _ | negative _ | boolean _ | null => True

def AllSized : List Item → Prop
  | [] => True
  | item :: items => item.Sized ∧ AllSized items

def EntriesSized : List (Item × Item) → Prop
  | [] => True
  | (key, value) :: entries => key.Sized ∧ value.Sized ∧ EntriesSized entries

end

mutual

/-- How many levels there are. -/
def depth : Item → Nat
  | array _ items => depthAll items + 1
  | map _ entries => depthEntries entries + 1
  | tag _ item => item.depth + 1
  | unsigned _ | negative _ | bytes _ _ | text _ _ | boolean _ | null => 1

def depthAll : List Item → Nat
  | [] => 0
  | item :: items => max item.depth (depthAll items)

def depthEntries : List (Item × Item) → Nat
  | [] => 0
  | (key, value) :: entries => max (max key.depth value.depth) (depthEntries entries)

end

mutual

/-- How many items there are in it, itself included. -/
def count : Item → Nat
  | array _ items => countAll items + 1
  | map _ entries => countEntries entries + 1
  | tag _ item => item.count + 1
  | unsigned _ | negative _ | bytes _ _ | text _ _ | boolean _ | null => 1

def countAll : List Item → Nat
  | [] => 0
  | item :: items => item.count + countAll items

def countEntries : List (Item × Item) → Nat
  | [] => 0
  | (key, value) :: entries => key.count + value.count + countEntries entries

end

theorem depth_pos (item : Item) : 0 < item.depth := by cases item <;> simp [depth]

theorem count_pos (item : Item) : 0 < item.count := by cases item <;> simp [count]

/-! ### What items denote -/

/-- Integers are exact up to 2 ^ 53, and beyond what the runtime makes of them. -/
def integer (n : Int) : CborValue :=
  .number (if |n| ≤ 2 ^ 53 then n else if 0 ≤ n then toNumber n else toNumber (-1 - toNumber (-1 - n)))

def DistinctKeys (entries : List (CborValue × CborValue)) : Prop :=
  entries.Pairwise fun a b => a.1.sameKey b.1 = false

instance (entries : List (CborValue × CborValue)) : Decidable (DistinctKeys entries) :=
  inferInstanceAs (Decidable (List.Pairwise _ _))

mutual

/-- The value of an item. Reserved heads, texts that are not UTF-8 and maps that repeat a key have none. -/
def meaning : Item → Option CborValue
  | unsigned argument => argument.map fun a => integer a.value
  | negative argument => argument.map fun a => integer (-1 - a.value)
  | bytes _ content => some (.bytes content)
  | text _ content => (String.fromUTF8? content.toByteArray).map .text
  | array _ items => (meanings items).map .array
  | map _ entries => (meaningEntries entries).bind fun entries =>
      if DistinctKeys entries then some (.map entries) else none
  | tag argument item => argument.bind fun _ => item.meaning
  | boolean b => some (.boolean b)
  | null => some .null

def meanings : List Item → Option (List CborValue)
  | [] => some []
  | item :: items => item.meaning.bind fun first => (meanings items).map (first :: ·)

def meaningEntries : List (Item × Item) → Option (List (CborValue × CborValue))
  | [] => some []
  | (key, value) :: entries => key.meaning.bind fun key => value.meaning.bind fun value =>
      (meaningEntries entries).map ((key, value) :: ·)

end

/-! ### Flaws -/

/-- An item within an item, or the item itself. -/
inductive Part : Item → Item → Prop
  | self (item : Item) : Part item item
  | element {part item : Item} {argument : Argument} {items : List Item} (there : item ∈ items)
      (within : Part part item) : Part part (array argument items)
  | key {part : Item} {argument : Option Argument} {entries : List (Item × Item)} {entry : Item × Item}
      (there : entry ∈ entries) (within : Part part entry.1) : Part part (map argument entries)
  | value {part : Item} {argument : Option Argument} {entries : List (Item × Item)} {entry : Item × Item}
      (there : entry ∈ entries) (within : Part part entry.2) : Part part (map argument entries)
  | content {part item : Item} {argument : Option Argument} (within : Part part item) :
      Part part (tag argument item)

/-- Two keys with one value. -/
def SameMeaning (a b : Item) : Prop :=
  ∃ v w, a.meaning = some v ∧ b.meaning = some w ∧ v.sameKey w = true

/-- A reserved head, a text that is not UTF-8, or a map that repeats a key. -/
inductive Flawed : Item → Prop
  | unsigned : Flawed (unsigned none)
  | negative : Flawed (negative none)
  | tag (item : Item) : Flawed (tag none item)
  | text {argument : Argument} {content : List UInt8} (invalid : String.fromUTF8? content.toByteArray = none) :
      Flawed (text argument content)
  | map {argument : Option Argument} {entries : List (Item × Item)}
      (repeats : ¬entries.Pairwise fun a b => ¬SameMeaning a.1 b.1) : Flawed (map argument entries)

/-! ### Induction -/

/-- A property of all items that one has when its parts have it. -/
@[elab_as_elim] theorem induct {P : Item → Prop} (unsigned : ∀ argument, P (unsigned argument))
    (negative : ∀ argument, P (negative argument)) (bytes : ∀ argument content, P (bytes argument content))
    (text : ∀ argument content, P (text argument content))
    (array : ∀ argument items, (∀ item ∈ items, P item) → P (array argument items))
    (map : ∀ argument entries, (∀ entry ∈ entries, P entry.1 ∧ P entry.2) → P (map argument entries))
    (tag : ∀ argument item, P item → P (tag argument item)) (boolean : ∀ b, P (boolean b)) (null : P null)
    (item : Item) : P item :=
  @Item.rec P (fun items => ∀ item ∈ items, P item) (fun entries => ∀ entry ∈ entries, P entry.1 ∧ P entry.2)
    (fun entry => P entry.1 ∧ P entry.2) unsigned negative bytes text array map tag boolean null
    (by simp) (fun _ _ first rest => List.forall_mem_cons.mpr ⟨first, rest⟩) (by simp)
    (fun _ _ first rest => List.forall_mem_cons.mpr ⟨first, rest⟩) (fun _ _ key value => ⟨key, value⟩) item

/-! ### One item at most -/

/-- The width that an additional information stands for. -/
def widthOf (info : Nat) : Option Width :=
  if info < 24 then some .short
  else if info = 24 then some .one
  else if info = 25 then some .two
  else if info = 26 then some .four
  else if info = 27 then some .eight
  else none

theorem widthOf_info (argument : Option Argument) : widthOf (infoOf argument) = argument.map (·.width) := by
  rcases argument with _ | ⟨width, value, fits⟩
  · rfl
  · cases width with
    | short => exact if_pos fits
    | one | two | four | eight => rfl

theorem infoOf_lt (argument : Option Argument) : infoOf argument < 32 := by
  rcases argument with _ | ⟨width, value, fits⟩
  · decide
  · cases width with
    | short => exact Nat.lt_trans fits (by decide)
    | one | two | four | eight => simp [infoOf, Argument.info]

theorem fits_size {argument : Argument} (long : argument.width ≠ .short) :
    argument.value < 256 ^ argument.width.size := by
  obtain ⟨width, value, fits⟩ := argument
  cases width with
  | short => exact absurd rfl long
  | one | two | four | eight => exact fits

theorem argument_inj {a b : Option Argument} {r r' : List UInt8} (infos : infoOf a = infoOf b)
    (tails : tailOf a ++ r = tailOf b ++ r') : a = b ∧ r = r' := by
  have widths : a.map (·.width) = b.map (·.width) := by rw [← widthOf_info, infos, widthOf_info]
  cases a with
  | none =>
    cases b with
    | none => exact ⟨rfl, by simpa [tailOf] using tails⟩
    | some b => simp at widths
  | some a =>
    cases b with
    | none => simp at widths
    | some b =>
      have width : a.width = b.width := by simpa using widths
      have size : (tailOf (some a)).length = (tailOf (some b)).length := by simp [tailOf, width]
      obtain ⟨same, rest⟩ := List.append_inj tails size
      refine ⟨congrArg some (Argument.ext width ?_), rest⟩
      by_cases short : b.width = .short
      · have left : a.info = a.value := by rw [Argument.info, width, short]
        have right : b.info = b.value := by rw [Argument.info, short]
        rw [← left, ← right]
        exact infos
      · have left := @fits_size a (width ▸ short)
        rw [← BigEndian.value_bytes left, ← BigEndian.value_bytes (fits_size short)]
        exact congrArg BigEndian.value same

theorem head_inj {m m' : Nat} {a b : Option Argument} {r r' : List UInt8} (small : m < 8) (small' : m' < 8)
    (heads : head m a ++ r = head m' b ++ r') : m = m' ∧ a = b ∧ r = r' := by
  rw [head, head, List.cons_append, List.cons_append, List.cons.injEq] at heads
  obtain ⟨initial, tails⟩ := heads
  have left := infoOf_lt a
  have right := infoOf_lt b
  have numbers := congrArg UInt8.toNat initial
  rw [UInt8.toNat_ofNat', UInt8.toNat_ofNat'] at numbers
  have infos : infoOf a = infoOf b := by omega
  exact ⟨by omega, argument_inj infos tails⟩

def major : Item → Nat
  | unsigned _ => 0
  | negative _ => 1
  | bytes _ _ => 2
  | text _ _ => 3
  | array _ _ => 4
  | map _ _ => 5
  | tag _ _ => 6
  | boolean _ | null => 7

def headArgument : Item → Option Argument
  | unsigned argument | negative argument | map argument _ | tag argument _ => argument
  | bytes argument _ | text argument _ | array argument _ => some argument
  | boolean false => simple 20
  | boolean true => simple 21
  | null => simple 22

/-- What follows the head. -/
def body : Item → List UInt8
  | bytes _ content | text _ content => content
  | array _ items => encodeAll items
  | map argument entries => encodeEntries entries ++ if argument = none then [0xff] else []
  | tag _ item => item.encode
  | unsigned _ | negative _ | boolean _ | null => []

theorem encode_eq (item : Item) : item.encode = head item.major item.headArgument ++ item.body := by
  cases item with
  | boolean b => cases b <;> simp [encode, major, headArgument, body]
  | unsigned | negative | bytes | text | array | map | tag | null =>
    simp [encode, major, headArgument, body, List.append_assoc]

theorem major_lt (item : Item) : item.major < 8 := by cases item <;> simp [major]

theorem encode_ne_break (item : Item) (r r' : List UInt8) : item.encode ++ r ≠ 0xff :: r' := by
  intro same
  rw [encode_eq, head, List.append_assoc, List.cons_append, List.cons.injEq] at same
  have number := congrArg UInt8.toNat same.1
  have small := major_lt item
  have info := infoOf_lt item.headArgument
  rw [UInt8.toNat_ofNat'] at number
  have seven : item.major = 7 := by
    change _ = 255 at number
    omega
  have last : infoOf item.headArgument = 31 := by
    change _ = 255 at number
    omega
  cases item with
  | boolean b => cases b <;> exact absurd last (by decide)
  | null => exact absurd last (by decide)
  | unsigned | negative | bytes | text | array | map | tag => simp [major] at seven

theorem encode_parts {a b : Item} {r r' : List UInt8} (same : a.encode ++ r = b.encode ++ r') :
    a.major = b.major ∧ a.headArgument = b.headArgument ∧ a.body ++ r = b.body ++ r' := by
  rw [encode_eq, encode_eq, List.append_assoc, List.append_assoc] at same
  exact head_inj (major_lt a) (major_lt b) same

/-- `a` is known by its bytes, whatever follows. -/
def Known (a : Item) : Prop :=
  ∀ {b : Item} {r r' : List UInt8}, a.Sized → b.Sized → a.encode ++ r = b.encode ++ r' → a = b ∧ r = r'

theorem encodeAll_inj {items items' : List Item} (known : ∀ item ∈ items, Known item) {r r' : List UInt8}
    (lengths : items.length = items'.length) (sized : AllSized items) (sized' : AllSized items')
    (same : encodeAll items ++ r = encodeAll items' ++ r') : items = items' ∧ r = r' := by
  induction items generalizing items' with
  | nil =>
    obtain rfl := List.length_eq_zero_iff.mp lengths.symm
    exact ⟨rfl, same⟩
  | cons item items ih =>
    obtain ⟨item', items', rfl⟩ := List.exists_cons_of_length_eq_add_one lengths.symm
    rw [encodeAll, encodeAll, List.append_assoc, List.append_assoc] at same
    obtain ⟨first, rest⟩ := known item (List.mem_cons_self ..) sized.1 sized'.1 same
    obtain ⟨more, after⟩ := ih (fun i there => known i (List.mem_cons_of_mem _ there))
      (Nat.succ.inj lengths) sized.2 sized'.2 rest
    exact ⟨by rw [first, more], after⟩

theorem encodeEntries_step {entry entry' : Item × Item} {r r' : List UInt8} (key : Known entry.1)
    (value : Known entry.2) (sized : entry.1.Sized ∧ entry.2.Sized) (sized' : entry'.1.Sized ∧ entry'.2.Sized)
    (same : entry.1.encode ++ (entry.2.encode ++ r) = entry'.1.encode ++ (entry'.2.encode ++ r')) :
    entry = entry' ∧ r = r' := by
  obtain ⟨keys, rest⟩ := key sized.1 sized'.1 same
  obtain ⟨values, after⟩ := value sized.2 sized'.2 rest
  exact ⟨Prod.ext keys values, after⟩

theorem encodeEntries_inj {entries entries' : List (Item × Item)}
    (known : ∀ entry ∈ entries, Known entry.1 ∧ Known entry.2) {r r' : List UInt8}
    (lengths : entries.length = entries'.length) (sized : EntriesSized entries) (sized' : EntriesSized entries')
    (same : encodeEntries entries ++ r = encodeEntries entries' ++ r') : entries = entries' ∧ r = r' := by
  induction entries generalizing entries' with
  | nil =>
    obtain rfl := List.length_eq_zero_iff.mp lengths.symm
    exact ⟨rfl, same⟩
  | cons entry entries ih =>
    obtain ⟨entry', entries', rfl⟩ := List.exists_cons_of_length_eq_add_one lengths.symm
    obtain ⟨key, value⟩ := known entry (List.mem_cons_self ..)
    simp only [encodeEntries, List.append_assoc] at same
    obtain ⟨first, rest⟩ := encodeEntries_step key value ⟨sized.1, sized.2.1⟩ ⟨sized'.1, sized'.2.1⟩ same
    obtain ⟨more, after⟩ := ih (fun e there => known e (List.mem_cons_of_mem _ there))
      (Nat.succ.inj lengths) sized.2.2 sized'.2.2 rest
    exact ⟨by rw [first, more], after⟩

/-- Without a length the break tells where the entries end. -/
theorem openEntries_inj {entries entries' : List (Item × Item)}
    (known : ∀ entry ∈ entries, Known entry.1 ∧ Known entry.2) {r r' : List UInt8}
    (sized : EntriesSized entries) (sized' : EntriesSized entries')
    (same : encodeEntries entries ++ (0xff :: r) = encodeEntries entries' ++ (0xff :: r')) :
    entries = entries' ∧ r = r' := by
  induction entries generalizing entries' with
  | nil =>
    cases entries' with
    | nil => exact ⟨rfl, List.tail_eq_of_cons_eq same⟩
    | cons entry' entries' =>
      simp only [encodeEntries, List.nil_append, List.append_assoc] at same
      exact absurd same.symm (encode_ne_break entry'.1 _ _)
  | cons entry entries ih =>
    cases entries' with
    | nil =>
      simp only [encodeEntries, List.nil_append, List.append_assoc] at same
      exact absurd same (encode_ne_break entry.1 _ _)
    | cons entry' entries' =>
      obtain ⟨key, value⟩ := known entry (List.mem_cons_self ..)
      simp only [encodeEntries, List.append_assoc] at same
      obtain ⟨first, rest⟩ := encodeEntries_step key value ⟨sized.1, sized.2.1⟩ ⟨sized'.1, sized'.2.1⟩ same
      obtain ⟨more, after⟩ := ih (fun e there => known e (List.mem_cons_of_mem _ there)) sized.2.2 sized'.2.2 rest
      exact ⟨by rw [first, more], after⟩

/-- No bytes begin with two items. -/
theorem encode_inj (a : Item) : Known a := by
  induction a using induct with
  | unsigned argument | negative argument =>
    intro b r r' sized sized' same
    obtain ⟨majors, arguments, bodies⟩ := encode_parts same
    cases b <;> simp [major] at majors
    next argument' => exact ⟨congrArg _ arguments, bodies⟩
  | boolean v =>
    intro b r r' sized sized' same
    obtain ⟨majors, arguments, bodies⟩ := encode_parts same
    cases b <;> simp [major] at majors
    next w => cases v <;> cases w <;> first | exact ⟨rfl, bodies⟩ | simp [headArgument, simple] at arguments
    next => cases v <;> simp [headArgument, simple] at arguments
  | null =>
    intro b r r' sized sized' same
    obtain ⟨majors, arguments, bodies⟩ := encode_parts same
    cases b <;> simp [major] at majors
    next w => cases w <;> simp [headArgument, simple] at arguments
    next => exact ⟨rfl, bodies⟩
  | bytes argument content | text argument content =>
    intro b r r' sized sized' same
    obtain ⟨majors, arguments, bodies⟩ := encode_parts same
    cases b <;> simp [major] at majors
    next argument' content' =>
      obtain rfl : argument = argument' := Option.some.inj arguments
      have bodies : content ++ r = content' ++ r' := bodies
      obtain ⟨contents, rest⟩ := List.append_inj bodies (sized.symm.trans sized')
      exact ⟨by rw [contents], rest⟩
  | array argument items ih =>
    intro b r r' sized sized' same
    obtain ⟨majors, arguments, bodies⟩ := encode_parts same
    cases b <;> simp [major] at majors
    next argument' items' =>
      obtain rfl : argument = argument' := Option.some.inj arguments
      obtain ⟨contents, rest⟩ := encodeAll_inj ih (sized.1.symm.trans sized'.1) sized.2 sized'.2 bodies
      exact ⟨by rw [contents], rest⟩
  | map argument entries ih =>
    intro b r r' sized sized' same
    obtain ⟨majors, arguments, bodies⟩ := encode_parts same
    cases b <;> simp [major] at majors
    next argument' entries' =>
      obtain rfl : argument = argument' := arguments
      simp only [body, List.append_assoc] at bodies
      cases argument with
      | none =>
        obtain ⟨contents, rest⟩ := openEntries_inj ih sized.2 sized'.2 bodies
        exact ⟨by rw [contents], rest⟩
      | some argument =>
        have lengths : entries.length = entries'.length :=
          (sized.1 argument rfl).symm.trans (sized'.1 argument rfl)
        obtain ⟨contents, rest⟩ := encodeEntries_inj ih lengths sized.2 sized'.2 (by simpa using bodies)
        exact ⟨by rw [contents], rest⟩
  | tag argument item ih =>
    intro b r r' sized sized' same
    obtain ⟨majors, arguments, bodies⟩ := encode_parts same
    cases b <;> simp [major] at majors
    next argument' item' =>
      obtain rfl : argument = argument' := arguments
      have sized' : item'.Sized := sized'
      obtain ⟨contents, rest⟩ := ih sized sized' bodies
      exact ⟨by rw [contents], rest⟩

/-! ### Flaws and meanings -/

theorem meanings_isSome_iff (items : List Item) :
    (meanings items).isSome = true ↔ ∀ item ∈ items, item.meaning.isSome = true := by
  induction items with
  | nil => simp [meanings]
  | cons item items ih =>
    rw [meanings, List.forall_mem_cons, ← ih]
    cases item.meaning <;> simp

theorem meaningEntries_isSome_iff (entries : List (Item × Item)) : (meaningEntries entries).isSome = true ↔
    ∀ entry ∈ entries, entry.1.meaning.isSome = true ∧ entry.2.meaning.isSome = true := by
  induction entries with
  | nil => simp [meaningEntries]
  | cons entry entries ih =>
    obtain ⟨key, value⟩ := entry
    rw [meaningEntries, List.forall_mem_cons, ← ih]
    cases key.meaning <;> cases value.meaning <;> simp

theorem meaningEntries_keys {entries : List (Item × Item)} {values : List (CborValue × CborValue)}
    (read : meaningEntries entries = some values) :
    entries.map (·.1.meaning) = values.map fun value => some value.1 := by
  induction entries generalizing values with
  | nil =>
    obtain rfl : [] = values := Option.some.inj read
    rfl
  | cons entry entries ih =>
    obtain ⟨key, value⟩ := entry
    simp only [meaningEntries, Option.bind_eq_some_iff, Option.map_eq_some_iff] at read
    obtain ⟨k, hk, v, hv, rest, more, rfl⟩ := read
    rw [List.map_cons, List.map_cons, ih more, hk]

theorem distinctKeys_iff {entries : List (Item × Item)} {values : List (CborValue × CborValue)}
    (read : meaningEntries entries = some values) :
    DistinctKeys values ↔ entries.Pairwise fun a b => ¬SameMeaning a.1 b.1 := by
  have keys := meaningEntries_keys read
  have apart : (values.map fun value => some value.1).Pairwise
      (fun a b => ∀ v, a = some v → ∀ w, b = some w → v.sameKey w = false) ↔ DistinctKeys values := by
    rw [List.pairwise_map, DistinctKeys]
    simp
  rw [← apart, ← keys, List.pairwise_map]
  simp [SameMeaning]

/-- An item has a value just when no part of it is flawed. -/
theorem meaning_isSome_iff (item : Item) :
    item.meaning.isSome = true ↔ ∀ part, Part part item → ¬part.Flawed := by
  induction item using induct with
  | unsigned argument | negative argument =>
    constructor
    · rintro read part ⟨_⟩ ⟨_⟩
      simp [meaning] at read
    · intro sound
      cases argument with
      | none => exact absurd (by constructor) (sound _ (.self _))
      | some argument => rfl
  | bytes argument content | boolean v | null =>
    refine iff_of_true rfl ?_
    rintro part ⟨_⟩ ⟨_⟩
  | text argument content =>
    constructor
    · rintro read part ⟨_⟩ ⟨_⟩
      next invalid => simp [meaning, invalid] at read
    · intro sound
      rw [meaning, Option.isSome_map]
      by_contra invalid
      exact sound _ (.self _) (.text (by simpa using invalid))
  | array argument items ih =>
    rw [meaning, Option.isSome_map, meanings_isSome_iff]
    constructor
    · rintro read part within
      cases within with
      | self => rintro ⟨_⟩
      | element there within => exact (ih _ there).mp (read _ there) part within
    · intro sound item there
      exact (ih item there).mpr fun part within => sound part (.element there within)
  | map argument entries ih =>
    constructor
    · intro read part within
      have all : (meaningEntries entries).isSome = true := by
        rw [meaning] at read
        cases values : meaningEntries entries with
        | none => simp [values] at read
        | some values => rfl
      rw [meaningEntries_isSome_iff] at all
      cases within with
      | self =>
        rintro ⟨_⟩
        next repeats =>
          refine repeats ?_
          obtain ⟨values, entriesRead⟩ := Option.isSome_iff_exists.mp ((meaningEntries_isSome_iff entries).mpr all)
          rw [← distinctKeys_iff entriesRead]
          by_contra repeated
          simp [meaning, entriesRead, repeated] at read
      | key there within => exact (ih _ there).1.mp (all _ there).1 part within
      | value there within => exact (ih _ there).2.mp (all _ there).2 part within
    · intro sound
      have all : (meaningEntries entries).isSome = true := by
        rw [meaningEntries_isSome_iff]
        intro entry there
        exact ⟨(ih entry there).1.mpr fun part within => sound part (.key there within),
          (ih entry there).2.mpr fun part within => sound part (.value there within)⟩
      obtain ⟨values, entriesRead⟩ := Option.isSome_iff_exists.mp all
      have apart : DistinctKeys values := by
        rw [distinctKeys_iff entriesRead]
        by_contra repeats
        exact sound _ (.self _) (.map repeats)
      simp [meaning, entriesRead, apart]
  | tag argument item ih =>
    cases argument with
    | none =>
      refine iff_of_false (by simp [meaning]) fun sound => ?_
      exact sound _ (.self _) (.tag item)
    | some argument =>
      rw [meaning, Option.bind_some, ih]
      constructor
      · rintro sound part within
        cases within with
        | self => rintro ⟨_⟩
        | content within => exact sound part within
      · exact fun sound part within => sound part (.content within)

end Item

end Finverse.Webauthn
