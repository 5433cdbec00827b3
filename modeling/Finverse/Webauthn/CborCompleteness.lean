import Finverse.Webauthn.CborSoundness

/-! Every item that is not too long, too deep or too large is decoded. -/

namespace Finverse.Webauthn

open Attempts

variable {replaced : List UInt8 → String} {data taken more : List UInt8} {k k' n turns room : Nat}
  {decoder : Decoder CborValue} {argument : Option Argument} {v : CborValue}

theorem Spans.split (spans : Spans data k k' (taken ++ more)) :
    Spans data k (k + taken.length) taken ∧ Spans data (k + taken.length) k' more := by
  have within : k ≤ data.length := by
    have length := spans.length
    have last := spans.within
    omega
  have ahead : data.drop k = taken ++ (more ++ data.drop k') := by rw [spans.ahead, List.append_assoc]
  have first := Spans.of_ahead ahead within
  have rest : data.drop (k + taken.length) = more ++ data.drop k' := by
    have both := first.ahead
    rw [ahead] at both
    exact (List.append_cancel_left both).symm
  have length := spans.length
  rw [List.length_append] at length
  exact ⟨first, rest, by omega, spans.within⟩

/-- The decoder reads every item of so many levels, as far as the items are not too many. -/
def ReadsAll (data : List UInt8) (decoder : Decoder CborValue) (room : Nat) : Prop :=
  ∀ (item : Item) (k k' n : Nat) (v : CborValue), item.Sized → item.meaning = some v → item.depth ≤ room →
    Spans data k k' item.encode → n + item.count ≤ MAX_CBOR_ITEMS →
    decoder.run ⟨k, n⟩ = .ok v ⟨k', n + item.count⟩

theorem takeItems_all (reads : ReadsAll data decoder room) {items : List Item} {values : List CborValue}
    (sized : Item.AllSized items) (meant : Item.meanings items = some values) (deep : Item.depthAll items ≤ room)
    (spans : Spans data k k' (Item.encodeAll items)) (few : n + Item.countAll items ≤ MAX_CBOR_ITEMS) :
    (takeItems decoder items.length).run ⟨k, n⟩ = .ok values ⟨k', n + Item.countAll items⟩ := by
  induction items generalizing values k n with
  | nil =>
    obtain rfl : [] = values := Option.some.inj meant
    have length := spans.length
    rw [Item.encodeAll, List.length_nil] at length
    subst length
    rfl
  | cons item items ih =>
    simp only [Item.meanings, Option.bind_eq_some_iff, Option.map_eq_some_iff] at meant
    obtain ⟨first, one, rest, others, rfl⟩ := meant
    rw [Item.depthAll] at deep
    rw [Item.countAll] at few ⊢
    rw [Item.encodeAll] at spans
    obtain ⟨left, right⟩ := spans.split
    have head := reads item k _ n first sized.1 one (by omega) left (by omega)
    have tail := ih sized.2 others (by omega) right (by omega : n + item.count + Item.countAll items ≤ _)
    rw [List.length_cons, takeItems, bind_of_ok head, bind_of_ok tail, Nat.add_assoc]
    rfl

theorem takeEntries_all (reads : ReadsAll data decoder room) {items : List (Item × Item)}
    {entries values : List (CborValue × CborValue)} (sized : Item.EntriesSized items)
    (meant : Item.meaningEntries items = some values) (distinct : Item.DistinctKeys (entries ++ values))
    (deep : Item.depthEntries items ≤ room) (spans : Spans data k k' (Item.encodeEntries items))
    (few : n + Item.countEntries items ≤ MAX_CBOR_ITEMS) :
    (takeEntries decoder items.length entries).run ⟨k, n⟩ =
      .ok (entries ++ values) ⟨k', n + Item.countEntries items⟩ := by
  induction items generalizing values entries k n with
  | nil =>
    obtain rfl : [] = values := Option.some.inj meant
    have length := spans.length
    rw [Item.encodeEntries, List.length_nil] at length
    subst length
    rw [List.append_nil]
    rfl
  | cons item items ih =>
    obtain ⟨key, value⟩ := item
    simp only [Item.meaningEntries, Option.bind_eq_some_iff, Option.map_eq_some_iff] at meant
    obtain ⟨m, keyMeant, m', valueMeant, rest, others, rfl⟩ := meant
    rw [Item.depthEntries] at deep
    rw [Item.countEntries] at few ⊢
    rw [Item.encodeEntries, List.append_assoc] at spans
    obtain ⟨left, back⟩ := spans.split
    obtain ⟨middle, right⟩ := back.split
    have first := reads key k _ n m sized.1 keyMeant (by omega) left (by omega)
    have second := reads value _ _ (n + key.count) m' sized.2.1 valueMeant (by omega) middle (by omega)
    have shift : entries ++ (m, m') :: rest = setEntry entries m m' ++ rest := by
      rw [setEntry_new distinct, List.append_assoc]
      rfl
    rw [shift] at distinct ⊢
    have tail := ih sized.2.2 others distinct (by omega) right
      (by omega : n + key.count + value.count + Item.countEntries items ≤ _)
    have total : n + (key.count + value.count + Item.countEntries items) =
        n + key.count + value.count + Item.countEntries items := by omega
    rw [List.length_cons, takeEntries, bind_of_ok first, bind_of_ok second, tail, total]

theorem not_break {item : Item} (spans : Spans data k k' (item.encode ++ more)) : byteAt data k ≠ some 0xff := by
  intro ended
  rw [byteAt_natCast] at ended
  have first := Spans.byte ended
  have ahead := spans.ahead
  rw [first.ahead, List.append_assoc] at ahead
  exact Item.encode_ne_break item _ _ ahead.symm

theorem takeUntilBreak_all (reads : ReadsAll data decoder room) {items : List (Item × Item)}
    {entries values : List (CborValue × CborValue)} (sized : Item.EntriesSized items)
    (meant : Item.meaningEntries items = some values) (distinct : Item.DistinctKeys (entries ++ values))
    (deep : Item.depthEntries items ≤ room) (spans : Spans data k k' (Item.encodeEntries items ++ [0xff]))
    (few : n + Item.countEntries items ≤ MAX_CBOR_ITEMS) (patient : Item.countEntries items < turns) :
    (takeUntilBreak data decoder turns entries).run ⟨k, n⟩ =
      .ok (entries ++ values) ⟨k', n + Item.countEntries items⟩ := by
  induction items generalizing values entries k n turns with
  | nil =>
    obtain rfl : [] = values := Option.some.inj meant
    obtain ⟨turns, rfl⟩ := Nat.exists_eq_add_of_lt patient
    have ended := spans.head_eq
    have length := spans.length
    rw [takeUntilBreak, bind_of_ok (EStateM.run_get _), byteAt_natCast, if_pos ended, List.append_nil]
    subst length
    rfl
  | cons item items ih =>
    obtain ⟨key, value⟩ := item
    simp only [Item.meaningEntries, Option.bind_eq_some_iff, Option.map_eq_some_iff] at meant
    obtain ⟨m, keyMeant, m', valueMeant, rest, others, rfl⟩ := meant
    rw [Item.depthEntries] at deep
    rw [Item.countEntries] at few patient ⊢
    rw [Item.encodeEntries, List.append_assoc, List.append_assoc] at spans
    have goes := not_break spans
    obtain ⟨left, back⟩ := spans.split
    obtain ⟨middle, right⟩ := back.split
    have first := reads key k _ n m sized.1 keyMeant (by omega) left (by omega)
    have second := reads value _ _ (n + key.count) m' sized.2.1 valueMeant (by omega) middle (by omega)
    have shift : entries ++ (m, m') :: rest = setEntry entries m m' ++ rest := by
      rw [setEntry_new distinct, List.append_assoc]
      rfl
    rw [shift] at distinct ⊢
    have counts := Item.count_pos key
    obtain ⟨turns, rfl⟩ := Nat.exists_eq_add_of_lt patient
    have tail := ih sized.2.2 others distinct (by omega) right
      (by omega : n + key.count + value.count + Item.countEntries items ≤ _)
      (by omega : Item.countEntries items < key.count + value.count + Item.countEntries items + turns)
    have total : n + (key.count + value.count + Item.countEntries items) =
        n + key.count + value.count + Item.countEntries items := by omega
    rw [takeUntilBreak, bind_of_ok (EStateM.run_get _), if_neg goes, bind_of_ok first, bind_of_ok second, tail, total]

/-! ### Heads and what follows them -/

theorem toNumber_length {m : Nat} (small : m ≤ 2 ^ 20) : toNumber m = m := by
  apply toNumber_exact
  rw [Int.abs_natCast]
  omega

theorem length_le_countAll (items : List Item) : items.length ≤ Item.countAll items := by
  induction items with
  | nil => exact Nat.le_refl _
  | cons item items ih =>
    have pos := item.count_pos
    rw [List.length_cons, Item.countAll]
    omega

theorem length_le_countEntries (entries : List (Item × Item)) : entries.length ≤ Item.countEntries entries := by
  induction entries with
  | nil => exact Nat.le_refl _
  | cons entry entries ih =>
    have pos := entry.1.count_pos
    rw [List.length_cons, Item.countEntries]
    omega

theorem refuse_of_not {bad : Prop} [Decidable bad] {message : String} {r : Reader} (good : ¬bad) :
    (refuse bad message).run r = .ok () r := refuse_ok_iff.mpr ⟨good, rfl⟩

theorem takeSlice_all {a : Argument} {content : List UInt8} {message : String} {m : Nat}
    (bounded : data.length ≤ MAX_CBOR_BYTES) (sized : a.value = content.length) (spans : Spans data k k' content) :
    toNumber (valueOf (some a)) = content.length ∧
      (takeSlice data (toNumber (valueOf (some a))) message).run ⟨k, m⟩ = .ok content ⟨k', m⟩ := by
  have length := spans.length
  have last := spans.within
  have value : toNumber (valueOf (some a)) = content.length := by
    rw [valueOf, sized]
    apply toNumber_length
    rw [MAX_CBOR_BYTES] at bounded
    omega
  refine ⟨value, ?_⟩
  rw [value, takeSlice_ok_iff (by omega)]
  subst length
  exact ⟨rfl, spans, rfl⟩

variable (replaced) in
/-- What is written behind the head gives the value. -/
theorem decodeMajor_all (reads : ReadsAll data decoder room) (bounded : data.length ≤ MAX_CBOR_BYTES)
    (patient : MAX_CBOR_ITEMS < turns) {item : Item} (sized : item.Sized) (meant : item.meaning = some v)
    (deep : item.depth ≤ room + 1) (spans : Spans data k k' item.body)
    (few : n + item.count ≤ MAX_CBOR_ITEMS) :
    (decodeMajor replaced data turns decoder item.major (infoOf item.headArgument)
      (valueOf item.headArgument)).run ⟨k, n + 1⟩ = .ok v ⟨k', n + item.count⟩ := by
  cases item with
  | unsigned argument =>
    simp only [Item.meaning, Option.map_eq_some_iff] at meant
    obtain ⟨a, rfl, rfl⟩ := meant
    obtain rfl : k' = k := spans.length
    rw [integer_unsigned]
    rfl
  | negative argument =>
    simp only [Item.meaning, Option.map_eq_some_iff] at meant
    obtain ⟨a, rfl, rfl⟩ := meant
    obtain rfl : k' = k := spans.length
    rw [integer_negative]
    rfl
  | bytes argument content =>
    obtain rfl : .bytes content = v := Option.some.inj meant
    obtain ⟨value, slice⟩ := takeSlice_all bounded sized spans
    change (decodeMajor replaced data turns decoder 2 _ (valueOf (some argument))).run _ = _
    simp only [decodeMajor]
    exact bind_ok_iff.mpr ⟨⟨⟩, _, refuse_of_not (by omega), bind_ok_iff.mpr ⟨content, _, slice, rfl⟩⟩
  | text argument content =>
    simp only [Item.meaning, Option.map_eq_some_iff] at meant
    obtain ⟨s, read, rfl⟩ := meant
    obtain ⟨value, slice⟩ := takeSlice_all bounded sized spans
    change (decodeMajor replaced data turns decoder 3 _ (valueOf (some argument))).run _ = _
    have same : .text s = CborValue.text (utf8Text replaced content) := by rw [utf8Text, read, Option.getD_some]
    rw [same]
    simp only [decodeMajor]
    exact bind_ok_iff.mpr ⟨content, _, slice, rfl⟩
  | array argument items =>
    simp only [Item.meaning, Option.map_eq_some_iff] at meant
    obtain ⟨values, others, rfl⟩ := meant
    rw [Item.depth] at deep
    rw [Item.count] at few ⊢
    have many := length_le_countAll items
    rw [MAX_CBOR_ITEMS] at few
    have value : toNumber (valueOf (some argument)) = items.length := by
      rw [valueOf, sized.1]
      exact toNumber_length (by omega)
    have all := takeItems_all reads sized.2 others (by omega) spans
      (by rw [MAX_CBOR_ITEMS]; omega : n + 1 + Item.countAll items ≤ _)
    have total : n + (Item.countAll items + 1) = n + 1 + Item.countAll items := by omega
    change (decodeMajor replaced data turns decoder 4 _ (valueOf (some argument))).run _ = _
    simp only [decodeMajor]
    have limit : ¬((MAX_CBOR_ITEMS : Int) - (n + 1 : Nat) < toNumber (valueOf (some argument))) := by
      rw [value, MAX_CBOR_ITEMS]
      omega
    have whole : (takeItems decoder (toNumber (valueOf (some argument))).toNat).run ⟨k, n + 1⟩ =
        .ok values ⟨k', n + (Item.countAll items + 1)⟩ := by
      rw [value, Int.toNat_natCast, all, total]
    exact bind_ok_iff.mpr ⟨⟨⟩, _, refuse_of_not (by omega), bind_ok_iff.mpr ⟨_, _, EStateM.run_get _,
      bind_ok_iff.mpr ⟨⟨⟩, _, refuse_of_not limit, bind_ok_iff.mpr ⟨values, _, whole, rfl⟩⟩⟩⟩
  | map argument entries =>
    simp only [Item.meaning, Option.bind_eq_some_iff, Option.ite_none_right_eq_some, Option.some.injEq] at meant
    obtain ⟨values, others, distinct, rfl⟩ := meant
    have distinct : Item.DistinctKeys ([] ++ values) := distinct
    rw [Item.depth] at deep
    rw [Item.count] at few ⊢
    have many := length_le_countEntries entries
    rw [MAX_CBOR_ITEMS] at few
    have total : n + (Item.countEntries entries + 1) = n + 1 + Item.countEntries entries := by omega
    cases argument with
    | none =>
      have all := takeUntilBreak_all reads sized.2 others distinct (by omega) spans
        (by rw [MAX_CBOR_ITEMS]; omega : n + 1 + Item.countEntries entries ≤ _)
        (by rw [MAX_CBOR_ITEMS] at patient; omega : _ < turns)
      change (decodeMajor replaced data turns decoder 5 31 (-1)).run _ = _
      simp only [decodeMajor, if_true]
      rw [total]
      exact bind_ok_iff.mpr ⟨values, _, all, rfl⟩
    | some a =>
      have value : toNumber (valueOf (some a)) = entries.length := by
        rw [valueOf, sized.1 a rfl]
        exact toNumber_length (by omega)
      have whole : Spans data k k' (Item.encodeEntries entries) := by simpa [Item.body] using spans
      have all := takeEntries_all reads sized.2 others distinct (by omega) whole
        (by rw [MAX_CBOR_ITEMS]; omega : n + 1 + Item.countEntries entries ≤ _)
      change (decodeMajor replaced data turns decoder 5 (infoOf (some a)) (valueOf (some a))).run _ = _
      simp only [decodeMajor]
      rw [if_neg (infoOf_some_ne a), value, Int.toNat_natCast, total]
      exact bind_ok_iff.mpr ⟨values, _, all, rfl⟩
  | tag argument content =>
    simp only [Item.meaning, Option.bind_eq_some_iff] at meant
    obtain ⟨a, -, meant⟩ := meant
    rw [Item.depth] at deep
    rw [Item.count] at few ⊢
    have total : n + (content.count + 1) = n + 1 + content.count := by omega
    rw [total]
    exact reads content k k' (n + 1) v sized meant (by omega) spans (by omega)
  | boolean b =>
    obtain rfl : .boolean b = v := Option.some.inj meant
    obtain rfl : k' = k := spans.length
    cases b <;> rfl
  | null =>
    obtain rfl : .null = v := Option.some.inj meant
    obtain rfl : k' = k := spans.length
    rfl

variable (replaced) in
theorem decode_all (bounded : data.length ≤ MAX_CBOR_BYTES) (patient : MAX_CBOR_ITEMS < turns) (room : Nat) :
    ReadsAll data (decode replaced data turns room) room := by
  induction room with
  | zero =>
    intro item k k' n v sized meant deep
    have pos := item.depth_pos
    omega
  | succ room ih =>
    intro item k k' n v sized meant deep spans few
    rw [Item.encode_eq, head] at spans
    rw [List.cons_append] at spans
    have there := spans.head_eq
    obtain ⟨info, major⟩ := initial_head item.major_lt item.headArgument
    have parts : Spans data k k' ([_] ++ (tailOf item.headArgument ++ item.body)) := spans
    obtain ⟨tail, body⟩ := parts.split.2.split
    have small := Item.infoOf_lt item.headArgument
    have read := (takeValue_ok_iff (n := n + 1) small (Spans.byte there).within).mpr
      ⟨item.headArgument, rfl, tail, rfl, rfl⟩
    have value := decodeMajor_all replaced ih bounded patient sized meant deep body few
    rw [decode]
    refine bind_ok_iff.mpr ⟨⟨⟩, _, countItem_ok_iff.mpr ⟨?_, rfl⟩,
      bind_ok_iff.mpr ⟨_, _, takeByte_ok_iff.mpr ⟨there, rfl⟩, ?_⟩⟩
    · have pos := item.count_pos
      omega
    · rw [info, major]
      exact bind_ok_iff.mpr ⟨_, _, read, value⟩

/-- An item within the limits is decoded to its value. -/
theorem decodeCbor_complete (replaced : List UInt8 → String) {item : Item} (sized : item.Sized)
    (meant : item.meaning = some v) (short : item.encode.length ≤ MAX_CBOR_BYTES)
    (shallow : item.depth ≤ MAX_CBOR_DEPTH + 1) (few : item.count ≤ MAX_CBOR_ITEMS) :
    decodeCbor replaced item.encode = .ok v := by
  have whole : Spans item.encode 0 item.encode.length item.encode := by
    refine ⟨?_, (Nat.zero_add _).symm, Nat.le_refl _⟩
    rw [List.drop_length, List.append_nil, List.drop_zero]
  have run := decode_all replaced short (Nat.lt_succ_self MAX_CBOR_ITEMS)
    (MAX_CBOR_DEPTH + 1) item 0 item.encode.length 0 v sized meant shallow whole (by omega)
  have some_ : item.encode.length ≠ 0 := by rw [Item.encode_eq, head]; simp
  have start : (⟨0, 0⟩ : Reader) = ⟨((0 : Nat) : Int), 0⟩ := rfl
  rw [decodeCbor, if_neg (by omega), start, run]
  simp

end Finverse.Webauthn
