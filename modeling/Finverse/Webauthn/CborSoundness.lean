import Finverse.Webauthn.CborReading

/-! What the decoder accepts is one item, and the value is the one of the item. -/

namespace Finverse.Webauthn

open Attempts

variable {replaced : List UInt8 → String} {data : List UInt8} {k n turns room count : Nat} {r : Reader}
  {α β : Type} {x : Decoder α} {f : α → Decoder β} {P : List UInt8 → α → Prop}
  {Q : α → List UInt8 → β → Prop} {item : Decoder CborValue} {argument : Option Argument} {v : CborValue}

/-! ### Counting items -/

/-- On success so many items more are counted at least, and not too many in all. -/
def Counts (least : Nat) (x : Decoder α) : Prop :=
  ∀ (s r : Reader) (a : α), s.decodedItems ≤ MAX_CBOR_ITEMS → x.run s = .ok a r →
    s.decodedItems + least ≤ r.decodedItems ∧ r.decodedItems ≤ MAX_CBOR_ITEMS

namespace Counts

variable {least more : Nat}

theorem bind (first : Counts least x) (rest : ∀ a, Counts more (f a)) : Counts (least + more) (x >>= f) := by
  intro s r b small run
  obtain ⟨a, t, one, two⟩ := bind_ok_iff.mp run
  have left := first s t a small one
  have right := rest a t r b left.2 two
  omega

theorem mono (counts : Counts least x) (le : more ≤ least) : Counts more x := by
  intro s r a small run
  have bounds := counts s r a small run
  omega

theorem of_eq (unchanged : ∀ {s r : Reader} {a : α}, x.run s = .ok a r → r.decodedItems = s.decodedItems) :
    Counts 0 x := by
  intro s r a small run
  have same := unchanged run
  omega

theorem pure (a : α) : Counts 0 (pure a : Decoder α) := of_eq fun run => by rw [(pure_ok_iff.mp run).2]

theorem throw (e : CborError) : Counts least (throw e : Decoder α) := fun _ _ _ _ run => absurd run throw_not_ok

theorem get : Counts 0 (get : Decoder Reader) := of_eq fun run => by rw [(get_ok_iff.mp run).2]

theorem refuse {bad : Prop} [Decidable bad] (message : String) : Counts 0 (refuse bad message) :=
  of_eq fun run => by rw [(refuse_ok_iff.mp run).2]

theorem takeByte : Counts 0 (takeByte data) := by
  refine of_eq fun {s r byte} run => ?_
  rw [Webauthn.takeByte, bind_of_ok (EStateM.run_get _)] at run
  split at run
  · exact absurd run throw_not_ok
  · obtain ⟨_, _, moved, rest⟩ := bind_ok_iff.mp run
    obtain ⟨-, rfl⟩ := pure_ok_iff.mp rest
    rw [set_ok_iff.mp moved]

theorem takeBigInt (count start : Nat) : Counts 0 (takeBigInt data count start) := by
  induction count generalizing start with
  | zero => exact pure start
  | succ count ih => exact takeByte.bind fun byte => ih _

theorem takeValue (info : Nat) : Counts 0 (takeValue data info) := by
  rw [takeValue_eq]
  split
  · exact pure _
  · exact (takeBigInt _ _).bind fun _ => pure _
  · split
    · exact pure _
    · exact throw _

theorem takeSlice (length : Int) (message : String) : Counts 0 (takeSlice data length message) := by
  refine of_eq fun {s r content} run => ?_
  rw [Webauthn.takeSlice, bind_of_ok (EStateM.run_get _)] at run
  simp only [bind_ok_iff, refuse_ok_iff, set_ok_iff, pure_ok_iff] at run
  obtain ⟨_, _, ⟨-, rfl⟩, _, _, rfl, -, rfl⟩ := run
  rfl

theorem takeItems (counts : Counts 1 item) (count : Nat) : Counts count (takeItems item count) := by
  induction count with
  | zero => exact pure []
  | succ count ih =>
    exact (counts.bind fun first => ih.bind fun rest => pure _).mono (by omega)

theorem takeEntries (counts : Counts 1 item) (count : Nat) (entries : List (CborValue × CborValue)) :
    Counts (2 * count) (takeEntries item count entries) := by
  induction count generalizing entries with
  | zero => exact pure entries
  | succ count ih =>
    exact (counts.bind fun key => counts.bind fun value => ih _).mono (by omega)

theorem takeUntilBreak (counts : Counts 1 item) (turns : Nat) (entries : List (CborValue × CborValue)) :
    Counts 0 (takeUntilBreak data item turns entries) := by
  induction turns generalizing entries with
  | zero => exact throw _
  | succ turns ih =>
    intro s r found small run
    rw [Webauthn.takeUntilBreak, bind_of_ok (EStateM.run_get _)] at run
    split at run
    · simp only [bind_ok_iff, set_ok_iff, pure_ok_iff] at run
      obtain ⟨_, _, rfl, -, rfl⟩ := run
      exact ⟨Nat.le_refl _, small⟩
    · exact ((counts.bind fun key => counts.bind fun value => ih _).mono (Nat.zero_le _)) s r found small run

theorem countItem : Counts 1 countItem := by
  intro s r u small run
  simp only [Webauthn.countItem, bind_ok_iff, modify_ok_iff, get_ok_iff, refuse_ok_iff] at run
  obtain ⟨_, _, rfl, _, _, ⟨rfl, rfl⟩, few, rfl⟩ := run
  exact ⟨Nat.le_refl _, by omega⟩

theorem decodeMajor (counts : Counts 1 item) (turns major additional : Nat) (value : Int) :
    Counts 0 (decodeMajor replaced data turns item major additional value) := by
  unfold Webauthn.decodeMajor
  split
  · exact pure _
  · exact pure _
  · exact (refuse _).bind fun _ => (takeSlice _ _).bind fun _ => pure _
  · exact (takeSlice _ _).bind fun _ => pure _
  · exact (refuse _).bind fun _ => get.bind fun reader => (refuse _).bind fun _ =>
      ((takeItems counts _).mono (Nat.zero_le _)).bind fun _ => pure _
  · split
    · exact (takeUntilBreak counts turns []).bind fun _ => pure _
    · exact ((takeEntries counts _ []).mono (Nat.zero_le _)).bind fun _ => pure _
  · exact counts.mono (Nat.zero_le _)
  · split
    · exact pure _
    · exact pure _
    · exact pure _
    · exact throw _
  · exact throw _

theorem decode (turns room : Nat) : Counts 1 (decode replaced data turns room) := by
  induction room with
  | zero => exact throw _
  | succ room ih =>
    exact countItem.bind fun _ => takeByte.bind fun initial => (takeValue _).bind fun value =>
      decodeMajor ih turns _ _ value

end Counts

/-! ### What is taken -/

/-- A text whose head has no length: the decoder comes back to it again and again. -/
def Stuck (data : List UInt8) (k : Nat) : Prop := data[k]? = some 0x7f

/-- What is taken is as `P` says, unless the decoder is stuck in the end. -/
def Reads (data : List UInt8) (x : Decoder α) (P : List UInt8 → α → Prop) : Prop :=
  ∀ (k n : Nat) (r : Reader) (a : α), k ≤ data.length → x.run ⟨k, n⟩ = .ok a r →
    ∃ k' : Nat, r.offset = k' ∧ k' ≤ data.length ∧
      (¬Stuck data k' → ¬Stuck data k ∧ ∃ taken, Spans data k k' taken ∧ P taken a)

namespace Reads

theorem pure (a : α) : Reads data (pure a) fun taken b => taken = [] ∧ b = a := by
  intro k n r b within run
  obtain ⟨rfl, rfl⟩ := pure_ok_iff.mp run
  exact ⟨k, rfl, within, fun free => ⟨free, [], .refl within, rfl, rfl⟩⟩

theorem bind (first : Reads data x P) (rest : ∀ a, Reads data (f a) (Q a)) :
    Reads data (x >>= f) fun taken b => ∃ a front back, taken = front ++ back ∧ P front a ∧ Q a back b := by
  intro k n r b within run
  obtain ⟨a, t, one, two⟩ := bind_ok_iff.mp run
  obtain ⟨middle, offset, inside, left⟩ := first k n t a within one
  obtain ⟨m, items⟩ := t
  obtain rfl : m = (middle : Int) := offset
  obtain ⟨stop, reached, last, right⟩ := rest a middle items r b inside two
  refine ⟨stop, reached, last, fun free => ?_⟩
  obtain ⟨between, back, taken', holds'⟩ := right free
  obtain ⟨start, front, taken, holds⟩ := left between
  exact ⟨start, front ++ back, taken.trans taken', a, front, back, rfl, holds, holds'⟩

theorem weaken {R : List UInt8 → α → Prop} (reads : Reads data x P) (implies : ∀ taken a, P taken a → R taken a) :
    Reads data x R := by
  intro k n r a within run
  obtain ⟨stop, reached, last, holds⟩ := reads k n r a within run
  refine ⟨stop, reached, last, fun free => ?_⟩
  obtain ⟨start, taken, spans, p⟩ := holds free
  exact ⟨start, taken, spans, implies taken a p⟩

end Reads

/-- An item with these bytes, whose value this is, if it has one. -/
def IsItem (taken : List UInt8) (v : CborValue) : Prop :=
  ∃ item : Item, item.Sized ∧ taken = item.encode ∧ ∀ value, item.meaning = some value → v = value

theorem takeItems_reads (reads : Reads data item IsItem) (count : Nat) :
    Reads data (takeItems item count) fun taken values => ∃ items : List Item, items.length = count ∧
      Item.AllSized items ∧ taken = Item.encodeAll items ∧ ∀ read, Item.meanings items = some read → values = read := by
  induction count with
  | zero =>
    refine (Reads.pure []).weaken ?_
    rintro taken values ⟨rfl, rfl⟩
    refine ⟨[], rfl, trivial, rfl, fun read some_ => ?_⟩
    exact Option.some.inj some_
  | succ count ih =>
    refine (reads.bind fun first => ih.bind fun rest => Reads.pure (first :: rest)).weaken ?_
    rintro taken values ⟨first, front, back, rfl, ⟨one, sized, rfl, agrees⟩, rest, middle, last, rfl,
      ⟨items, rfl, allSized, rfl, allAgree⟩, rfl, rfl⟩
    refine ⟨one :: items, rfl, ⟨sized, allSized⟩, by simp [Item.encodeAll], fun read some_ => ?_⟩
    simp only [Item.meanings, Option.bind_eq_some_iff, Option.map_eq_some_iff] at some_
    obtain ⟨value, meant, values, allMeant, rfl⟩ := some_
    rw [agrees value meant, allAgree values allMeant]

/-! ### Maps -/

theorem sameKey_comm (a b : CborValue) : a.sameKey b = b.sameKey a := by
  cases a <;> cases b <;> simp [CborValue.sameKey, eq_comm]

theorem setEntry_new {entries : List (CborValue × CborValue)} {key value : CborValue}
    {more : List (CborValue × CborValue)} (distinct : Item.DistinctKeys (entries ++ (key, value) :: more)) :
    setEntry entries key value = entries ++ [(key, value)] := by
  have apart := (List.pairwise_append.mp distinct).2.2
  rw [setEntry, if_neg]
  intro there
  obtain ⟨entry, mem, same⟩ := List.any_eq_true.mp there
  have other := apart entry mem (key, value) (List.mem_cons_self ..)
  rw [sameKey_comm, same] at other
  cases other

/-- The entries that are read behind others, if no key comes twice. -/
def AreEntries (entries : List (CborValue × CborValue)) (items : List (Item × Item))
    (found : List (CborValue × CborValue)) : Prop :=
  ∀ read, Item.meaningEntries items = some read → Item.DistinctKeys (entries ++ read) → found = entries ++ read

theorem AreEntries.cons {entries found : List (CborValue × CborValue)} {items : List (Item × Item)}
    {key value : Item} {k v : CborValue} (keyAgrees : ∀ m, key.meaning = some m → k = m)
    (valueAgrees : ∀ m, value.meaning = some m → v = m) (rest : AreEntries (setEntry entries k v) items found) :
    AreEntries entries ((key, value) :: items) found := by
  intro read some_ distinct
  simp only [Item.meaningEntries, Option.bind_eq_some_iff, Option.map_eq_some_iff] at some_
  obtain ⟨m, keyMeant, m', valueMeant, more, moreMeant, rfl⟩ := some_
  obtain rfl := keyAgrees m keyMeant
  obtain rfl := valueAgrees m' valueMeant
  have new := setEntry_new distinct
  have shift : entries ++ (k, v) :: more = setEntry entries k v ++ more := by rw [new, List.append_assoc]; rfl
  rw [shift] at distinct ⊢
  exact rest more moreMeant distinct

theorem takeEntries_reads (reads : Reads data item IsItem) (count : Nat) (entries : List (CborValue × CborValue)) :
    Reads data (takeEntries item count entries) fun taken found => ∃ items : List (Item × Item),
      items.length = count ∧ Item.EntriesSized items ∧ taken = Item.encodeEntries items ∧
      AreEntries entries items found := by
  induction count generalizing entries with
  | zero =>
    refine (Reads.pure entries).weaken ?_
    rintro taken found ⟨rfl, rfl⟩
    refine ⟨[], rfl, trivial, rfl, fun read some_ _ => ?_⟩
    obtain rfl : [] = read := Option.some.inj some_
    rw [List.append_nil]
  | succ count ih =>
    refine (reads.bind fun key => reads.bind fun value => ih (setEntry entries key value)).weaken ?_
    rintro taken found ⟨k, front, back, rfl, ⟨key, keySized, rfl, keyAgrees⟩, v, middle, last, rfl,
      ⟨value, valueSized, rfl, valueAgrees⟩, items, rfl, sized, rfl, are⟩
    exact ⟨(key, value) :: items, rfl, ⟨keySized, valueSized, sized⟩, by simp [Item.encodeEntries],
      are.cons keyAgrees valueAgrees⟩

theorem takeUntilBreak_reads (reads : Reads data item IsItem) (turns : Nat)
    (entries : List (CborValue × CborValue)) :
    Reads data (takeUntilBreak data item turns entries) fun taken found => ∃ items : List (Item × Item),
      Item.EntriesSized items ∧ taken = Item.encodeEntries items ++ [0xff] ∧ AreEntries entries items found := by
  induction turns generalizing entries with
  | zero => exact fun _ _ _ _ _ run => absurd run throw_not_ok
  | succ turns ih =>
    intro k n r found within run
    rw [takeUntilBreak, bind_of_ok (EStateM.run_get _)] at run
    split at run
    · next ended =>
      rw [byteAt_natCast] at ended
      simp only [bind_ok_iff, set_ok_iff, pure_ok_iff] at run
      obtain ⟨_, _, rfl, rfl, rfl⟩ := run
      have spans := Spans.byte ended
      have free : ¬Stuck data k := by
        rw [Stuck, ended]
        decide
      refine ⟨k + 1, rfl, spans.within, fun _ => ⟨free, _, spans, [], trivial, rfl, fun read some_ _ => ?_⟩⟩
      obtain rfl : [] = read := Option.some.inj some_
      rw [List.append_nil]
    · refine Reads.weaken (R := fun taken found => ∃ items : List (Item × Item), Item.EntriesSized items ∧
        taken = Item.encodeEntries items ++ [0xff] ∧ AreEntries entries items found)
        (reads.bind fun key => reads.bind fun value => ih (setEntry entries key value)) ?_ k n r found within run
      · rintro taken found ⟨k, front, back, rfl, ⟨key, keySized, rfl, keyAgrees⟩, v, middle, last, rfl,
          ⟨value, valueSized, rfl, valueAgrees⟩, items, sized, rfl, are⟩
        exact ⟨(key, value) :: items, ⟨keySized, valueSized, sized⟩, by simp [Item.encodeEntries],
          are.cons keyAgrees valueAgrees⟩

/-! ### Items -/

theorem Item.argument_short {info : Nat} (small : info < 24) (same : infoOf argument = info) :
    argument = some ⟨.short, info, small⟩ := by
  rcases argument with _ | ⟨width, value, fits⟩
  · simp only [infoOf] at same
    omega
  · cases width <;> simp [infoOf, Argument.info] at same
    · subst same
      rfl
    all_goals omega

theorem infoOf_some_ne (a : Argument) : infoOf (some a) ≠ 31 := by
  obtain ⟨width, value, fits⟩ := a
  cases width with
  | short => exact fun same => absurd fits (by simp [infoOf, Argument.info, Width.bound] at same ⊢; omega)
  | one | two | four | eight => simp [infoOf, Argument.info]

theorem toNumber_open : toNumber (valueOf none) = -1 := toNumber_exact (by decide)

/-- A slice as long as an argument says. -/
theorem takeSlice_argument {a : Argument} {taken : List UInt8} {message : String}
    (bounded : data.length ≤ MAX_CBOR_BYTES) (within : k ≤ data.length)
    (run : (takeSlice data (toNumber (valueOf (some a))) message).run ⟨k, n⟩ = .ok taken r) :
    a.value = taken.length ∧ Spans data k (k + a.value) taken ∧ r = ⟨(k + a.value : Nat), n⟩ := by
  have exact_ : toNumber a.value = a.value := by
    apply toNumber_small
    rw [takeSlice, bind_of_ok (EStateM.run_get _)] at run
    simp only [bind_ok_iff, refuse_ok_iff] at run
    obtain ⟨_, _, ⟨fits, -⟩, -⟩ := run
    rw [MAX_CBOR_BYTES] at bounded
    rw [valueOf] at fits
    omega
  rw [valueOf, exact_] at run
  obtain ⟨length, spans, state⟩ := (takeSlice_ok_iff within).mp run
  exact ⟨length.symm, spans, state⟩

/-- An item with this start, and with what comes from `k` on. -/
def Yields (data : List UInt8) (k : Nat) (start : List UInt8) (v : CborValue) (r : Reader) : Prop :=
  ∃ k' : Nat, r.offset = k' ∧ k' ≤ data.length ∧
    (¬Stuck data k' → ∃ taken, Spans data k k' taken ∧ IsItem (start ++ taken) v)

theorem Yields.head {start : List UInt8} (within : k ≤ data.length) (is : IsItem start v) :
    Yields data k start v ⟨k, n⟩ :=
  ⟨k, rfl, within, fun _ => ⟨[], .refl within, by rwa [List.append_nil]⟩⟩

theorem decodeMajor_integer (within : k ≤ data.length) (n : Nat) : 
    Yields data k (Webauthn.head 0 argument) (.number (toNumber (valueOf argument))) ⟨k, n⟩ ∧
      Yields data k (Webauthn.head 1 argument) (.number (toNumber (-1 - toNumber (valueOf argument)))) ⟨k, n⟩ := by
  refine ⟨.head within ⟨.unsigned argument, trivial, rfl, fun value meant => ?_⟩,
    .head within ⟨.negative argument, trivial, rfl, fun value meant => ?_⟩⟩
  · simp only [Item.meaning, Option.map_eq_some_iff] at meant
    obtain ⟨a, rfl, rfl⟩ := meant
    rw [integer_unsigned, valueOf]
  · simp only [Item.meaning, Option.map_eq_some_iff] at meant
    obtain ⟨a, rfl, rfl⟩ := meant
    rw [integer_negative, valueOf]

theorem decodeMajor_bytes {additional : Nat} (bounded : data.length ≤ MAX_CBOR_BYTES) (within : k ≤ data.length)
    (run : (decodeMajor replaced data turns item 2 additional (valueOf argument)).run ⟨k, n⟩ = .ok v r) :
    Yields data k (head 2 argument) v r := by
  simp only [decodeMajor, bind_ok_iff, refuse_ok_iff, pure_ok_iff] at run
  obtain ⟨_, _, ⟨definite, rfl⟩, content, _, slice, rfl, rfl⟩ := run
  cases argument with
  | none => exact absurd (by rw [toNumber_open]; decide) definite
  | some a =>
    obtain ⟨length, spans, rfl⟩ := takeSlice_argument bounded within slice
    refine ⟨_, rfl, spans.within, fun _ => ⟨content, spans, .bytes a content, length, rfl, fun value meant => ?_⟩⟩
    exact Option.some.inj meant

theorem decodeMajor_text {additional : Nat} {a : Argument} (bounded : data.length ≤ MAX_CBOR_BYTES)
    (within : k ≤ data.length)
    (run : (decodeMajor replaced data turns item 3 additional (valueOf (some a))).run ⟨k, n⟩ = .ok v r) :
    Yields data k (head 3 (some a)) v r := by
  simp only [decodeMajor, bind_ok_iff, pure_ok_iff] at run
  obtain ⟨content, _, slice, rfl, rfl⟩ := run
  obtain ⟨length, spans, rfl⟩ := takeSlice_argument bounded within slice
  refine ⟨_, rfl, spans.within, fun _ => ⟨content, spans, .text a content, length, rfl, fun value meant => ?_⟩⟩
  simp only [Item.meaning, Option.map_eq_some_iff] at meant
  obtain ⟨s, read, rfl⟩ := meant
  rw [utf8Text, read, Option.getD_some]

theorem decodeMajor_array {additional : Nat} (reads : Reads data item IsItem) (within : k ≤ data.length)
    (run : (decodeMajor replaced data turns item 4 additional (valueOf argument)).run ⟨k, n⟩ = .ok v r) :
    Yields data k (head 4 argument) v r := by
  simp only [decodeMajor, bind_ok_iff, refuse_ok_iff, get_ok_iff, pure_ok_iff] at run
  obtain ⟨_, _, ⟨definite, rfl⟩, _, _, ⟨rfl, rfl⟩, _, _, ⟨few, rfl⟩, values, _, all, rfl, rfl⟩ := run
  cases argument with
  | none => exact absurd (by rw [toNumber_open]; decide) definite
  | some a =>
    have exact_ : toNumber a.value = a.value := by
      apply toNumber_small
      rw [MAX_CBOR_ITEMS, valueOf] at few
      omega
    rw [valueOf, exact_, Int.toNat_natCast] at all
    obtain ⟨stop, reached, last, holds⟩ := takeItems_reads reads a.value k n _ values within all
    refine ⟨stop, reached, last, fun free => ?_⟩
    obtain ⟨-, taken, spans, items, length, sized, rfl, agrees⟩ := holds free
    refine ⟨_, spans, .array a items, ⟨length.symm, sized⟩, rfl, fun value meant => ?_⟩
    simp only [Item.meaning, Option.map_eq_some_iff] at meant
    obtain ⟨read, some_, rfl⟩ := meant
    rw [agrees read some_]

theorem meaning_map {entries : List (Item × Item)} {found : List (CborValue × CborValue)} {value : CborValue}
    (are : AreEntries [] entries found) (meant : (Item.map argument entries).meaning = some value) :
    CborValue.map found = value := by
  simp only [Item.meaning, Option.bind_eq_some_iff, Option.ite_none_right_eq_some, Option.some.injEq] at meant
  obtain ⟨read, some_, distinct, rfl⟩ := meant
  rw [are read some_ distinct, List.nil_append]

theorem decodeMajor_map (reads : Reads data item IsItem) (counts : Counts 1 item) (few : n ≤ MAX_CBOR_ITEMS)
    (within : k ≤ data.length)
    (run : (decodeMajor replaced data turns item 5 (infoOf argument) (valueOf argument)).run ⟨k, n⟩ = .ok v r) :
    Yields data k (head 5 argument) v r := by
  simp only [decodeMajor] at run
  cases argument with
  | none =>
    rw [infoOf, if_pos rfl] at run
    simp only [bind_ok_iff, pure_ok_iff] at run
    obtain ⟨found, _, all, rfl, rfl⟩ := run
    obtain ⟨stop, reached, last, holds⟩ := takeUntilBreak_reads reads turns [] k n _ found within all
    refine ⟨stop, reached, last, fun free => ?_⟩
    obtain ⟨-, taken, spans, items, sized, rfl, are⟩ := holds free
    refine ⟨_, spans, .map none items, ⟨by simp, sized⟩, ?_, fun value meant => meaning_map are meant⟩
    simp [Item.encode]
  | some a =>
    rw [if_neg (infoOf_some_ne a)] at run
    simp only [bind_ok_iff, pure_ok_iff] at run
    obtain ⟨found, _, all, rfl, rfl⟩ := run
    have total := (Counts.takeEntries counts _ []) _ _ _ few all
    have exact_ : toNumber a.value = a.value := by
      apply toNumber_small
      rw [MAX_CBOR_ITEMS, valueOf] at total
      omega
    rw [valueOf, exact_, Int.toNat_natCast] at all
    obtain ⟨stop, reached, last, holds⟩ := takeEntries_reads reads a.value [] k n _ found within all
    refine ⟨stop, reached, last, fun free => ?_⟩
    obtain ⟨-, taken, spans, items, length, sized, rfl, are⟩ := holds free
    refine ⟨_, spans, .map (some a) items, ⟨?_, sized⟩, ?_, fun value meant => meaning_map are meant⟩
    · simp [length]
    · simp [Item.encode]

theorem decodeMajor_tag {additional : Nat} {value : Int} (reads : Reads data item IsItem) (within : k ≤ data.length)
    (run : (decodeMajor replaced data turns item 6 additional value).run ⟨k, n⟩ = .ok v r) :
    Yields data k (head 6 argument) v r := by
  obtain ⟨stop, reached, last, holds⟩ := reads k n r v within run
  refine ⟨stop, reached, last, fun free => ?_⟩
  obtain ⟨-, taken, spans, content, sized, rfl, agrees⟩ := holds free
  refine ⟨_, spans, .tag argument content, sized, rfl, fun value meant => ?_⟩
  simp only [Item.meaning, Option.bind_eq_some_iff] at meant
  obtain ⟨a, -, meant⟩ := meant
  exact agrees value meant

theorem decodeMajor_simple {value : Int} (within : k ≤ data.length)
    (run : (decodeMajor replaced data turns item 7 (infoOf argument) value).run ⟨k, n⟩ = .ok v r) :
    Yields data k (head 7 argument) v r := by
  simp only [decodeMajor] at run
  split at run
  · next same =>
    obtain ⟨rfl, rfl⟩ := pure_ok_iff.mp run
    rw [Item.argument_short (by decide) same]
    exact .head within ⟨.boolean false, trivial, rfl, fun value meant => Option.some.inj meant⟩
  · next same =>
    obtain ⟨rfl, rfl⟩ := pure_ok_iff.mp run
    rw [Item.argument_short (by decide) same]
    exact .head within ⟨.boolean true, trivial, rfl, fun value meant => Option.some.inj meant⟩
  · next same =>
    obtain ⟨rfl, rfl⟩ := pure_ok_iff.mp run
    rw [Item.argument_short (by decide) same]
    exact .head within ⟨.null, trivial, rfl, fun value meant => Option.some.inj meant⟩
  · exact absurd run throw_not_ok

/-- Everything but a text without a length is an item. -/
theorem decodeMajor_yields (bounded : data.length ≤ MAX_CBOR_BYTES) (reads : Reads data item IsItem)
    (counts : Counts 1 item) (few : n ≤ MAX_CBOR_ITEMS) (within : k ≤ data.length) (major : Nat)
    (passes : ¬(major = 3 ∧ argument = none))
    (run : (decodeMajor replaced data turns item major (infoOf argument) (valueOf argument)).run ⟨k, n⟩ = .ok v r) :
    Yields data k (head major argument) v r :=
  match major, passes, run with
  | 0, _, run => by
    obtain ⟨rfl, rfl⟩ := pure_ok_iff.mp run
    exact (decodeMajor_integer within n).1
  | 1, _, run => by
    obtain ⟨rfl, rfl⟩ := pure_ok_iff.mp run
    exact (decodeMajor_integer within n).2
  | 2, _, run => decodeMajor_bytes bounded within run
  | 3, passes, run => by
    cases argument with
    | none => exact absurd ⟨rfl, rfl⟩ passes
    | some a => exact decodeMajor_text bounded within run
  | 4, _, run => decodeMajor_array reads within run
  | 5, _, run => decodeMajor_map reads counts few within run
  | 6, _, run => decodeMajor_tag reads within run
  | 7, _, run => decodeMajor_simple within run
  | _ + 8, _, run => absurd run throw_not_ok

theorem countItem_ok_iff {u : Unit} : countItem.run ⟨k, n⟩ = .ok u r ↔ n + 1 ≤ MAX_CBOR_ITEMS ∧ r = ⟨k, n + 1⟩ := by
  simp only [countItem, bind_ok_iff, modify_ok_iff, get_ok_iff, refuse_ok_iff]
  constructor
  · rintro ⟨_, _, rfl, _, _, ⟨rfl, rfl⟩, few, rfl⟩
    exact ⟨Nat.not_lt.mp few, rfl⟩
  · rintro ⟨few, rfl⟩
    exact ⟨⟨⟩, _, rfl, _, _, ⟨rfl, rfl⟩, Nat.not_lt.mpr few, rfl⟩

/-- The step of the head: where it ends, and that it is not the one of a text without a length. -/
theorem head_read {initial : UInt8} (there : data[k]? = some initial)
    (info : infoOf argument = initial.toNat &&& 0x1f)
    (spans : Spans data (k + 1) (k + 1 + (tailOf argument).length) (tailOf argument)) :
    Spans data k (k + 1 + (tailOf argument).length) (head (initial.toNat >>> 5) argument) ∧
      (Stuck data k → initial.toNat >>> 5 = 3 ∧ argument = none) := by
  rw [head_initial info]
  refine ⟨(Spans.byte there).trans spans, fun stuck => ?_⟩
  rw [Stuck, there, Option.some.injEq] at stuck
  subst stuck
  refine ⟨rfl, ?_⟩
  cases argument with
  | none => rfl
  | some a => exact absurd info (infoOf_some_ne a)

theorem decode_reads (bounded : data.length ≤ MAX_CBOR_BYTES) (turns room : Nat) :
    Reads data (decode replaced data turns room) IsItem := by
  induction room with
  | zero => exact fun _ _ _ _ _ run => absurd run throw_not_ok
  | succ room ih =>
    intro k n r v within run
    simp only [decode, bind_ok_iff] at run
    obtain ⟨_, _, counted, initial, _, first, value, _, read, run⟩ := run
    obtain ⟨few, rfl⟩ := countItem_ok_iff.mp counted
    obtain ⟨there, rfl⟩ := takeByte_ok_iff.mp first
    have small : initial.toNat &&& 0x1f < 32 := Nat.lt_succ_of_le Nat.and_le_right
    obtain ⟨argument, info, tail, rfl, rfl⟩ := (takeValue_ok_iff small (Spans.byte there).within).mp read
    obtain ⟨spans, stuck⟩ := head_read there info tail
    rw [← info] at run
    by_cases open_ : initial.toNat >>> 5 = 3 ∧ argument = none
    · -- The offset moves back to the head.
      obtain ⟨major, rfl⟩ := open_
      rw [major] at run
      simp only [decodeMajor, takeSlice, bind_ok_iff, get_ok_iff, refuse_ok_iff, set_ok_iff, pure_ok_iff,
        toNumber_open] at run
      obtain ⟨_, _, ⟨_, _, ⟨rfl, rfl⟩, _, _, ⟨-, rfl⟩, _, _, rfl, rfl, rfl⟩, rfl, rfl⟩ := run
      refine ⟨k, ?_, within, fun free => absurd ?_ free⟩
      · simp [tailOf]
      · have initial_eq := head_initial info
        rw [major] at initial_eq
        rw [Stuck, there]
        exact congrArg some (List.cons.inj initial_eq).1.symm
    · obtain ⟨stop, reached, last, yields⟩ :=
        decodeMajor_yields bounded ih (Counts.decode turns room) few tail.within _ open_ run
      refine ⟨stop, reached, last, fun free => ⟨fun again => open_ (stuck again), ?_⟩⟩
      obtain ⟨taken, more, is⟩ := yields free
      exact ⟨_, spans.trans more, is⟩

/-- The bytes of what is decoded are one item, and nothing after it. -/
theorem decodeCbor_item (decoded : decodeCbor replaced data = .ok v) : IsItem data v := by
  unfold decodeCbor at decoded
  split at decoded
  · cases decoded
  · next size =>
    split at decoded
    · cases decoded
    · next value reader run =>
      split at decoded
      · cases decoded
      · next whole =>
        obtain rfl := Except.ok.inj decoded
        obtain ⟨stop, reached, last, holds⟩ :=
          decode_reads (by omega) _ _ 0 0 reader value (Nat.zero_le _) run
        rw [not_not, reached] at whole
        obtain rfl : stop = data.length := by exact_mod_cast whole
        have free : ¬Stuck data data.length := by
          rw [Stuck, List.getElem?_eq_none (Nat.le_refl _)]
          simp
        obtain ⟨-, taken, spans, is⟩ := holds free
        have all := spans.ahead
        rw [List.drop_zero, List.drop_length, List.append_nil] at all
        rwa [all]

/-- What is accepted is an item that denotes the value just when no part of it has a reserved head, is a text
that is not UTF-8, or repeats a key. -/
theorem decodeCbor_language_iff (replaced : List UInt8 → String) (data : List UInt8) (v : CborValue)
    (decoded : decodeCbor replaced data = .ok v) :
    (∃ item : Item, item.Sized ∧ data = item.encode ∧ item.meaning = some v) ↔
      ∃ item : Item, item.Sized ∧ data = item.encode ∧ ∀ part, Item.Part part item → ¬part.Flawed := by
  obtain ⟨item, sized, bytes, agrees⟩ := decodeCbor_item decoded
  constructor
  · rintro ⟨other, otherSized, otherBytes, meant⟩
    refine ⟨other, otherSized, otherBytes, ?_⟩
    rw [← Item.meaning_isSome_iff, meant]
    rfl
  · rintro ⟨other, otherSized, otherBytes, sound⟩
    rw [← Item.meaning_isSome_iff] at sound
    obtain ⟨value, meant⟩ := Option.isSome_iff_exists.mp sound
    have same : item = other := by
      refine (Item.encode_inj item sized otherSized (?_ : _ ++ [] = _ ++ [])).1
      rw [List.append_nil, List.append_nil, ← bytes, otherBytes]
    rw [← same] at meant
    exact ⟨item, sized, bytes, by rw [agrees value meant, meant]⟩

theorem zero_language : (∃ item : Item, item.Sized ∧ [0x00] = item.encode ∧
      item.meaning = some (.number (toNumber 0))) ↔
    ∃ item : Item, item.Sized ∧ [0x00] = item.encode ∧ ∀ part, Item.Part part item → ¬part.Flawed :=
  decodeCbor_language_iff (fun _ => "") [0x00] (.number (toNumber 0)) rfl

/-- The reserved head 0x1f is read as -1. -/
theorem reserved_head_is_number : ¬∀ (replaced : List UInt8 → String) (data : List UInt8) (v : CborValue),
    decodeCbor replaced data = .ok v →
      ∃ item : Item, item.Sized ∧ data = item.encode ∧ item.meaning = some v := by
  intro all
  obtain ⟨item, sized, bytes, meant⟩ := all (fun _ => "") [0x1f] (.number (toNumber (-1))) rfl
  have same : Item.unsigned none = item :=
    (@Item.encode_inj (.unsigned none) item [] [] trivial sized (by rw [← bytes]; rfl)).1
  rw [← same] at meant
  cases meant

end Finverse.Webauthn
