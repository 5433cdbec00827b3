import Finverse.Framework.Steps
import Finverse.Webauthn.CborItems

/-! The bytes that the decoder takes, step by step. -/

namespace Finverse.Webauthn

open Attempts

variable {data taken more : List UInt8} {k k' m n : Nat} {r : Reader} {message : String}

/-! ### The bytes between two offsets -/

/-- `taken` is in the data from `k` to `k'`. -/
structure Spans (data : List UInt8) (k k' : Nat) (taken : List UInt8) : Prop where
  ahead : data.drop k = taken ++ data.drop k'
  length : k' = k + taken.length
  within : k' ≤ data.length

theorem Spans.refl (within : k ≤ data.length) : Spans data k k [] := ⟨rfl, rfl, within⟩

theorem Spans.trans (first : Spans data k k' taken) (second : Spans data k' m more) :
    Spans data k m (taken ++ more) where
  ahead := by rw [first.ahead, second.ahead, List.append_assoc]
  length := by rw [second.length, first.length, List.length_append, Nat.add_assoc]
  within := second.within

theorem Spans.of_ahead {rest : List UInt8} (ahead : data.drop k = taken ++ rest) (within : k ≤ data.length) :
    Spans data k (k + taken.length) taken where
  ahead := by rw [← List.drop_drop, ahead, List.drop_left]
  length := rfl
  within := by
    have lengths := congrArg List.length ahead
    rw [List.length_drop, List.length_append] at lengths
    omega

theorem Spans.byte {byte : UInt8} (there : data[k]? = some byte) : Spans data k (k + 1) [byte] := by
  obtain ⟨low, rfl⟩ := List.getElem?_eq_some_iff.mp there
  exact ⟨List.drop_eq_getElem_cons low, rfl, low⟩

theorem Spans.head_eq {byte : UInt8} (spans : Spans data k k' (byte :: taken)) : data[k]? = some byte := by
  have first := congrArg List.head? spans.ahead
  rwa [List.head?_drop, List.cons_append, List.head?_cons] at first

theorem Spans.taken_eq (spans : Spans data k k' taken) (other : Spans data k k' more) : taken = more := by
  have lengths : taken.length = more.length := by
    have first := spans.length
    have second := other.length
    omega
  exact (List.append_inj (spans.ahead.symm.trans other.ahead) lengths).1

/-! ### Bytes -/

theorem byteAt_natCast (data : List UInt8) (k : Nat) : byteAt data k = data[k]? := by
  rw [byteAt, if_neg (by omega), Int.toNat_natCast]

theorem refuse_ok_iff {bad : Prop} [Decidable bad] {s : Reader} {u : Unit} :
    (refuse bad message).run s = .ok u r ↔ ¬bad ∧ r = s := by
  unfold refuse
  split
  · next refused => exact iff_of_false throw_not_ok fun h => h.1 refused
  · next passes => rw [pure_ok_iff, and_iff_right passes, and_iff_right rfl]

theorem takeByte_ok_iff {byte : UInt8} : (takeByte data).run ⟨k, n⟩ = .ok byte r ↔
    data[k]? = some byte ∧ r = ⟨(k + 1 : Nat), n⟩ := by
  rw [takeByte, bind_of_ok (EStateM.run_get _), byteAt_natCast]
  cases data[k]? with
  | none => exact iff_of_false throw_not_ok (by simp)
  | some found =>
    simp only [bind_ok_iff, set_ok_iff, pure_ok_iff]
    constructor
    · rintro ⟨_, _, rfl, rfl, rfl⟩
      exact ⟨rfl, rfl⟩
    · rintro ⟨same, rfl⟩
      obtain rfl := Option.some.inj same
      exact ⟨⟨⟩, _, rfl, rfl, rfl⟩

theorem takeBigInt_ok_iff {count start v : Nat} (within : k ≤ data.length) :
    (takeBigInt data count start).run ⟨k, n⟩ = .ok v r ↔ ∃ taken, taken.length = count ∧
      Spans data k (k + count) taken ∧ r = ⟨(k + count : Nat), n⟩ ∧
      v = taken.foldl (fun n byte => n * 256 + byte.toNat) start := by
  induction count generalizing k start with
  | zero =>
    rw [takeBigInt, pure_ok_iff]
    constructor
    · rintro ⟨rfl, rfl⟩
      exact ⟨[], rfl, .refl within, rfl, rfl⟩
    · rintro ⟨taken, empty, -, rfl, rfl⟩
      obtain rfl := List.length_eq_zero_iff.mp empty
      exact ⟨rfl, rfl⟩
  | succ count ih =>
    simp only [takeBigInt, bind_ok_iff, takeByte_ok_iff]
    constructor
    · rintro ⟨byte, _, ⟨there, rfl⟩, rest⟩
      have first := Spans.byte there
      obtain ⟨taken, length, spans, rfl, rfl⟩ := (ih first.within).mp rest
      have offsets : k + 1 + count = k + (count + 1) := by omega
      rw [offsets] at spans
      exact ⟨byte :: taken, by rw [List.length_cons, length], first.trans spans, by rw [offsets], rfl⟩
    · rintro ⟨taken, length, spans, rfl, rfl⟩
      obtain ⟨byte, taken, rfl⟩ := List.exists_cons_of_length_eq_add_one length
      have there := spans.head_eq
      have first := Spans.byte there
      have ahead : data.drop (k + 1) = taken ++ data.drop (k + (count + 1)) := by
        have both := spans.ahead
        rw [first.ahead] at both
        simpa using both
      have offsets : k + 1 + count = k + (count + 1) := by omega
      refine ⟨byte, _, ⟨there, rfl⟩, (ih first.within).mpr ⟨taken, Nat.succ.inj length, ?_, by rw [offsets], rfl⟩⟩
      have rest := Spans.of_ahead ahead first.within
      rwa [Nat.succ.inj length] at rest

/-! ### Values -/

/-- The value that is read for an argument, -1 without one. -/
def valueOf : Option Argument → Int
  | none => -1
  | some argument => argument.value

theorem shift_or (high low : UInt8) : (high.toNat <<< 8) ||| low.toNat = high.toNat * 256 + low.toNat := by
  have small : low.toNat < 2 ^ 8 := low.toNat_lt
  rw [← Nat.shiftLeft_add_eq_or_of_lt small, Nat.shiftLeft_eq]

/-- The four ways of reading bytes are one. -/
theorem takeValue_eq (data : List UInt8) (info : Nat) : takeValue data info =
    match Item.widthOf info with
    | some .short => pure (info : Int)
    | some width => do
      let value ← takeBigInt data width.size 0
      return (value : Int)
    | none => if info = 31 then pure (-1) else throw (.error "CBOR: unsupported additional info") := by
  by_cases short : info < 24
  · simp only [takeValue, Item.widthOf, if_pos short]
  by_cases one : info = 24
  · subst one
    simp [takeValue, Item.widthOf, Width.size, takeBigInt]
  by_cases two : info = 25
  · subst two
    simp [takeValue, Item.widthOf, Width.size, takeBigInt, shift_or]
  by_cases four : info = 26
  · subst four
    have sum (a b c d : UInt8) : a.toNat * 2 ^ 24 + b.toNat * 2 ^ 16 + c.toNat * 2 ^ 8 + d.toNat =
        ((a.toNat * 256 + b.toNat) * 256 + c.toNat) * 256 + d.toNat := by omega
    have left : takeValue data 26 = (do
        let a ← takeByte data
        let b ← takeByte data
        let c ← takeByte data
        let d ← takeByte data
        return (a.toNat * 2 ^ 24 + b.toNat * 2 ^ 16 + c.toNat * 2 ^ 8 + d.toNat : Nat)) := rfl
    rw [left]
    simp only [sum]
    simp [Item.widthOf, Width.size, takeBigInt]
  by_cases eight : info = 27
  · subst eight
    rfl
  · simp only [takeValue, Item.widthOf, if_neg short, if_neg one, if_neg two, if_neg four, if_neg eight]

/-- The argument of so many bytes. -/
def Argument.ofBytes (width : Width) (long : width.bound = 256 ^ width.size) (taken : List UInt8)
    (length : taken.length = width.size) : Argument :=
  ⟨width, BigEndian.value taken, by rw [long, ← length]; exact BigEndian.value_lt taken⟩

theorem tailOf_ofBytes {width : Width} (long : width.bound = 256 ^ width.size)
    (length : taken.length = width.size) : tailOf (some (.ofBytes width long taken length)) = taken := by
  change BigEndian.bytes width.size (BigEndian.value taken) = taken
  rw [← length, BigEndian.bytes_value]

theorem infoOf_of_widthOf {info : Nat} {width : Width} (widths : Item.widthOf info = some width)
    (long : width ≠ .short) {argument : Argument} (same : argument.width = width) :
    infoOf (some argument) = info := by
  change argument.info = info
  unfold Item.widthOf at widths
  split_ifs at widths with short one two four eight
  all_goals
    obtain rfl := Option.some.inj widths
    first
    | exact absurd rfl long
    | rw [Argument.info, same]; exact Eq.symm ‹_›

theorem takeValue_ok_iff {info : Nat} {v : Int} (small : info < 32) (within : k ≤ data.length) :
    (takeValue data info).run ⟨k, n⟩ = .ok v r ↔ ∃ argument, infoOf argument = info ∧
      Spans data k (k + (tailOf argument).length) (tailOf argument) ∧
      r = ⟨(k + (tailOf argument).length : Nat), n⟩ ∧ v = valueOf argument := by
  rw [takeValue_eq]
  constructor
  · intro read
    cases widths : Item.widthOf info with
    | none =>
      simp only [widths] at read
      split at read
      · next marker =>
        obtain ⟨rfl, rfl⟩ := pure_ok_iff.mp read
        exact ⟨none, marker.symm, .refl within, rfl, rfl⟩
      · exact absurd read throw_not_ok
    | some width =>
      by_cases short : width = .short
      · subst short
        simp only [widths] at read
        obtain ⟨rfl, rfl⟩ := pure_ok_iff.mp read
        have low : info < 24 := by
          by_contra high
          rw [Item.widthOf, if_neg high] at widths
          split_ifs at widths
          all_goals cases widths
        exact ⟨some ⟨.short, info, low⟩, rfl, .refl within, rfl, rfl⟩
      · have read : (takeBigInt data width.size 0 >>= fun value => pure (value : Int)).run ⟨k, n⟩ = .ok v r := by
          cases width <;> simp only [widths] at read <;> first | exact read | exact absurd rfl short
        obtain ⟨value, _, bytes, rest⟩ := bind_ok_iff.mp read
        obtain ⟨rfl, rfl⟩ := pure_ok_iff.mp rest
        obtain ⟨taken, length, spans, rfl, rfl⟩ := (takeBigInt_ok_iff within).mp bytes
        have long : width.bound = 256 ^ width.size := by cases width <;> first | rfl | exact absurd rfl short
        have tail := tailOf_ofBytes long length
        refine ⟨some (.ofBytes width long taken length), infoOf_of_widthOf widths short rfl, ?_, ?_, rfl⟩
        · rw [tail, length]
          exact spans
        · rw [tail, length]
  · rintro ⟨argument, rfl, spans, rfl, rfl⟩
    have widths := Item.widthOf_info argument
    rcases argument with _ | ⟨width, value, fits⟩
    · simp only [widths, Option.map_none]
      exact pure_ok_iff.mpr ⟨rfl, rfl⟩
    · by_cases short : width = .short
      · subst short
        simp only [widths, Option.map_some]
        exact pure_ok_iff.mpr ⟨rfl, rfl⟩
      · have bytes : (takeBigInt data width.size 0 >>= fun value => pure (value : Int)).run ⟨k, n⟩ =
            .ok (value : Int) ⟨(k + width.size : Nat), n⟩ := by
          refine bind_ok_iff.mpr ⟨value, _, (takeBigInt_ok_iff within).mpr
            ⟨BigEndian.bytes width.size value, BigEndian.length_bytes _ _, ?_, rfl, ?_⟩, pure_ok_iff.mpr ⟨rfl, rfl⟩⟩
          · simpa [tailOf] using spans
          · exact (BigEndian.value_bytes (@Item.fits_size ⟨width, value, fits⟩ short)).symm
        have size : (tailOf (some ⟨width, value, fits⟩)).length = width.size := BigEndian.length_bytes _ _
        rw [size]
        cases width <;> simp only [widths, Option.map_some] <;> first | exact bytes | exact absurd rfl short

/-! ### Heads and slices -/

theorem head_initial {initial : UInt8} {argument : Option Argument}
    (info : infoOf argument = initial.toNat &&& 0x1f) :
    head (initial.toNat >>> 5) argument = initial :: tailOf argument := by
  have low : initial.toNat &&& 0x1f = initial.toNat % 32 := Nat.and_two_pow_sub_one_eq_mod _ 5
  have high : initial.toNat >>> 5 = initial.toNat / 32 := Nat.shiftRight_eq_div_pow _ 5
  have parts : initial.toNat / 32 * 32 + initial.toNat % 32 = initial.toNat := by omega
  rw [head, info, low, high, parts, UInt8.ofNat_toNat]

theorem initial_head {major : Nat} (small : major < 8) (argument : Option Argument) :
    (UInt8.ofNat (major * 32 + infoOf argument)).toNat &&& 0x1f = infoOf argument ∧
      (UInt8.ofNat (major * 32 + infoOf argument)).toNat >>> 5 = major := by
  have info := Item.infoOf_lt argument
  have number : (UInt8.ofNat (major * 32 + infoOf argument)).toNat = major * 32 + infoOf argument := by
    rw [UInt8.toNat_ofNat']
    omega
  have low := Nat.and_two_pow_sub_one_eq_mod (major * 32 + infoOf argument) 5
  rw [number, Nat.shiftRight_eq_div_pow]
  constructor
  · rw [show 0x1f = 2 ^ 5 - 1 from rfl, low]
    omega
  · omega

theorem takeSlice_ok_iff {length : Nat} (within : k ≤ data.length) :
    (takeSlice data length message).run ⟨k, n⟩ = .ok taken r ↔ taken.length = length ∧
      Spans data k (k + length) taken ∧ r = ⟨(k + length : Nat), n⟩ := by
  rw [takeSlice, bind_of_ok (EStateM.run_get _)]
  simp only [bind_ok_iff, refuse_ok_iff, set_ok_iff, pure_ok_iff, Int.toNat_natCast]
  constructor
  · rintro ⟨_, _, ⟨fits, rfl⟩, _, _, rfl, rfl, rfl⟩
    have low : k + length ≤ data.length := by omega
    have size : ((data.drop k).take length).length = length := by
      rw [List.length_take, List.length_drop]
      omega
    refine ⟨size, ?_, rfl⟩
    have spans := @Spans.of_ahead data ((data.drop k).take length) k _ (List.take_append_drop length _).symm within
    rwa [size] at spans
  · rintro ⟨size, spans, rfl⟩
    have low := spans.within
    refine ⟨⟨⟩, _, ⟨by omega, rfl⟩, ⟨⟩, _, rfl, ?_, rfl⟩
    rw [spans.ahead, ← size, List.take_left]

/-! ### Numbers -/

theorem toNumber_exact {n : Int} (small : |n| ≤ 2 ^ 53) : toNumber n = n := by
  rw [toNumber, Doubles.nearest_intCast small, Int.floor_intCast]

/-- A whole number that is read as a small one is read exactly. -/
theorem toNumber_small {n : Nat} (small : toNumber n ≤ 2 ^ 20) : toNumber n = n := by
  apply toNumber_exact
  by_contra large
  have large : (2 : Rat) ^ 53 < n := by
    rw [Int.abs_natCast, not_le] at large
    exact_mod_cast large
  have near := Doubles.abs_nearest_sub_le ((n : Int) : Rat)
  have pos : (0 : Rat) ≤ n := Nat.cast_nonneg n
  rw [Int.cast_natCast, abs_of_nonneg pos, abs_le] at near
  have floor : Doubles.nearest ((n : Int) : Rat) < 2 ^ 20 + 1 := by
    have step := Int.lt_floor_add_one (Doubles.nearest ((n : Int) : Rat))
    have bound : ((toNumber n : Int) : Rat) ≤ 2 ^ 20 := by exact_mod_cast small
    rw [toNumber] at bound
    linarith
  rw [Int.cast_natCast] at floor
  have third : (n : Rat) / 2 ^ 53 ≤ n / 2 := by
    apply div_le_div_of_nonneg_left pos <;> norm_num
  linarith

theorem integer_unsigned (n : Nat) : Item.integer n = .number (toNumber n) := by
  rw [Item.integer]
  split
  · next small => rw [toNumber_exact small]
  · rw [if_pos (by omega)]

theorem integer_negative (n : Nat) : Item.integer (-1 - n) = .number (toNumber (-1 - toNumber n)) := by
  rw [Item.integer]
  split
  · next small =>
    have low : |(n : Int)| ≤ 2 ^ 53 := by
      rw [abs_le] at small ⊢
      omega
    rw [toNumber_exact low, toNumber_exact small]
  · have back : (-1 - (-1 - (n : Int))) = n := by omega
    rw [if_neg (by omega), back]

end Finverse.Webauthn
