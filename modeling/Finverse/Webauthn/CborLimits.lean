import Finverse.Webauthn.CborJournal

/-! The decoder stops: what it can do before it runs into one of its limits. -/

namespace Finverse.Webauthn

open Attempts

variable {data : List UInt8} {replaced : List UInt8 → String} {α β : Type} {s : Reader × Journal} {least more : Nat}
  {back further : Int} {P : α → Prop} {Q : β → Prop}

/-! ### What holds between the steps, and in the end -/

def InData (data : List UInt8) (offset : Int) : Prop := 0 ≤ offset ∧ offset ≤ data.length

structure Inside (data : List UInt8) (s : Reader × Journal) : Prop where
  here : InData data s.1.offset
  past : ∀ offset ∈ s.2.offsets, InData data offset

/-- As long as nothing is thrown, every call has been counted as an item. -/
structure Running (data : List UInt8) (s : Reader × Journal) : Prop extends Inside data s where
  items : s.1.decodedItems ≤ MAX_CBOR_ITEMS
  counted : s.2.calls.length = s.1.decodedItems
  depths : ∀ depth ∈ s.2.calls, depth ≤ MAX_CBOR_DEPTH

structure Halted (data : List UInt8) (s : Reader × Journal) : Prop extends Inside data s where
  few : s.2.calls.length ≤ MAX_CBOR_ITEMS + 1
  depths : ∀ depth ∈ s.2.calls, depth ≤ MAX_CBOR_DEPTH + 1

theorem Running.halted (running : Running data s) : Halted data s where
  here := running.here
  past := running.past
  few := by
    rw [running.counted]
    exact running.items.trans (Nat.le_succ _)
  depths := fun depth called => (running.depths depth called).trans (Nat.le_succ _)

/-- So many items more are counted at least, and the offset is `back` places back at most; or something
is thrown, but not for want of turns. -/
def Outcome (data : List UInt8) (start : Reader) (least : Nat) (back : Int) (P : α → Prop) :
    EStateM.Result CborError (Reader × Journal) α → Prop
  | .ok a s => Running data s ∧ start.decodedItems + least ≤ s.1.decodedItems ∧ start.offset - back ≤ s.1.offset ∧ P a
  | .error e s => e ≠ .outOfTurns ∧ Halted data s

/-- What follows a step that has come to an end. -/
theorem Outcome.bind {x : Watched α} {f : α → Watched β} (first : Outcome data s.1 least back P (x.run s))
    (rest : ∀ a t, Running data t → s.1.decodedItems + least ≤ t.1.decodedItems →
      s.1.offset - back ≤ t.1.offset → P a → Outcome data t.1 more further Q ((f a).run t)) :
    Outcome data s.1 (least + more) (back + further) Q ((x >>= f).run s) := by
  rw [EStateM.run_bind]
  generalize x.run s = result at first
  cases result with
  | error e t => exact first
  | ok a t =>
    obtain ⟨running, counted, reached, holds⟩ := first
    have second := rest a t running counted reached holds
    change Outcome data s.1 _ _ Q ((f a).run t)
    generalize (f a).run t = result at second
    cases result with
    | error e u => exact second
    | ok b u =>
      obtain ⟨last, counted', reached', holds'⟩ := second
      exact ⟨last, by omega, by omega, holds'⟩

theorem Outcome.mono {P' : α → Prop} {least' : Nat} {back' : Int} {start : Reader}
    {result : EStateM.Result CborError (Reader × Journal) α} (outcome : Outcome data start least back P result)
    (fewer : least' ≤ least) (far : back ≤ back') (implies : ∀ a, P a → P' a) :
    Outcome data start least' back' P' result := by
  cases result with
  | error e t => exact outcome
  | ok a t =>
    obtain ⟨running, counted, reached, holds⟩ := outcome
    exact ⟨running, by omega, by omega, implies a holds⟩

def Tame (data : List UInt8) (least : Nat) (back : Int) (P : α → Prop) (x : Watched α) : Prop :=
  ∀ s, Running data s → back ≤ s.1.offset → Outcome data s.1 least back P (x.run s)

/-- A step that counts nothing. -/
def Moves (data : List UInt8) (back : Int) (P : α → Prop) (y : Decoder α) : Prop :=
  ∀ r, InData data r.offset → back ≤ r.offset →
    match y.run r with
    | .ok a r' => r'.decodedItems = r.decodedItems ∧ InData data r'.offset ∧ r.offset - back ≤ r'.offset ∧ P a
    | .error e r' => e ≠ .outOfTurns ∧ InData data r'.offset ∧ r'.decodedItems = r.decodedItems

def Any (_ : α) : Prop := True

namespace Tame

variable {x : Watched α} {f : α → Watched β}

theorem pure (a : α) (holds : P a) : Tame data 0 0 P (pure a : Watched α) := by
  intro s running _
  refine ⟨running, Nat.le_refl _, ?_, holds⟩
  omega

theorem throw {e : CborError} (other : e ≠ .outOfTurns) : Tame data least back P (throw e : Watched α) :=
  fun _ running _ => ⟨other, running.halted⟩

theorem bind (first : Tame data least back P x) (rest : ∀ a, P a → Tame data more further Q (f a))
    (within : back ≤ 0 ∨ 0 ≤ further) : Tame data (least + more) (back + further) Q (x >>= f) := by
  intro s running room
  have inside := running.here.1
  apply (first s running (by omega)).bind
  intro a t running' counted reached holds
  exact rest a holds t running' (by omega)

theorem mono {P' : α → Prop} {least' : Nat} {back' : Int} (tame : Tame data least back P x) (fewer : least' ≤ least)
    (far : back ≤ back') (implies : ∀ a, P a → P' a) : Tame data least' back' P' x :=
  fun s running room => (tame s running (far.trans room)).mono fewer far implies

theorem watch {y : Decoder α} (moves : Moves data back P y) : Tame data 0 back P (watch y) := by
  intro s running room
  have step := moves s.1 running.here room
  change Outcome data s.1 0 back P (Webauthn.watch y s)
  unfold Webauthn.watch
  generalize y.run s.1 = result at step
  cases result with
  | ok a r =>
    obtain ⟨same, inside, reached, holds⟩ := step
    refine ⟨⟨⟨inside, ?_⟩, ?_, ?_, running.depths⟩, ?_, reached, holds⟩
    · exact List.forall_mem_cons.mpr ⟨inside, running.past⟩
    · rw [same]
      exact running.items
    · rw [same]
      exact running.counted
    · rw [same]
      exact Nat.le_refl _
  | error e r =>
    obtain ⟨other, inside, -⟩ := step
    exact ⟨other, ⟨inside, List.forall_mem_cons.mpr ⟨inside, running.past⟩⟩, running.halted.few,
      running.halted.depths⟩

end Tame

/-! ### Single steps -/

namespace Moves

theorem refuse {bad : Prop} [Decidable bad] (message : String) : Moves data 0 Any (refuse bad message) := by
  intro r inside _
  by_cases refused : bad
  · rw [Webauthn.refuse, if_pos refused]
    exact ⟨CborError.noConfusion, inside, rfl⟩
  · rw [Webauthn.refuse, if_neg refused]
    exact ⟨rfl, inside, by omega, trivial⟩

theorem get : Moves data 0 Any (get : Decoder Reader) := fun r inside _ => ⟨rfl, inside, by omega, trivial⟩

/-- A byte that is taken moves the offset on. -/
theorem takeByte : Moves data (-1) Any (takeByte data) := by
  intro r inside _
  cases there : byteAt data r.offset with
  | none =>
    have truncated : (Webauthn.takeByte data).run r = .error (.error "CBOR: truncated input") r := by
      rw [Webauthn.takeByte, bind_of_ok (EStateM.run_get _), there]
      rfl
    rw [truncated]
    exact ⟨by simp, inside, rfl⟩
  | some byte =>
    have taken : (Webauthn.takeByte data).run r = .ok byte { r with offset := r.offset + 1 } := by
      rw [Webauthn.takeByte, bind_of_ok (EStateM.run_get _), there]
      rfl
    rw [taken]
    obtain ⟨low, high⟩ := inside
    have below : r.offset < data.length := by
      rw [byteAt, if_neg (by omega)] at there
      obtain ⟨bound, -⟩ := List.getElem?_eq_some_iff.mp there
      omega
    refine ⟨rfl, ⟨?_, ?_⟩, ?_, trivial⟩ <;> dsimp only <;> omega

/-- A length of -1 takes the offset a place back. -/
theorem takeSlice {length : Int} (least : -1 ≤ length) (message : String) :
    Moves data 1 Any (takeSlice data length message) := by
  intro r inside room
  obtain ⟨low, high⟩ := inside
  by_cases far : data.length < r.offset + length
  · have refused : (Webauthn.takeSlice data length message).run r = .error (.error message) r := by
      rw [Webauthn.takeSlice, bind_of_ok (EStateM.run_get _)]
      simp only [Webauthn.refuse, if_pos far]
      rfl
    rw [refused]
    exact ⟨by simp, ⟨low, high⟩, rfl⟩
  · have taken : (Webauthn.takeSlice data length message).run r =
        .ok ((data.drop r.offset.toNat).take length.toNat) { r with offset := r.offset + length } := by
      rw [Webauthn.takeSlice, bind_of_ok (EStateM.run_get _)]
      simp only [Webauthn.refuse, if_neg far]
      rfl
    rw [taken]
    refine ⟨rfl, ⟨?_, ?_⟩, ?_, trivial⟩ <;> dsimp only <;> omega

end Moves

/-! ### Values -/

theorem toNumber_least {n : Int} (least : -1 ≤ n) : -1 ≤ toNumber n := by
  rcases Int.le_iff_lt_or_eq.mp least with above | rfl
  · have nonneg : (0 : Rat) ≤ n := by exact_mod_cast (by omega : 0 ≤ n)
    have near := (abs_le.mp (Doubles.abs_nearest_sub_le n)).1
    rw [abs_of_nonneg nonneg] at near
    have part : (n : Rat) / 2 ^ 53 ≤ n := div_le_self nonneg (by norm_num)
    have floor : 0 ≤ toNumber n := Int.floor_nonneg.mpr (by linarith)
    omega
  · decide +kernel

namespace Tame

variable {x : Watched CborValue}

theorem takeByte : Tame data 0 (-1) Any (Webauthn.watch (takeByte data)) := watch Moves.takeByte

theorem takeBigInt (count n : Nat) : Tame data 0 0 Any (Watched.takeBigInt data count n) := by
  induction count generalizing n with
  | zero => exact pure n trivial
  | succ count ih => exact (takeByte.bind (fun byte _ => ih _) (.inl (by decide))).mono le_rfl (by decide) fun _ => id

theorem takeValue (additional : Nat) : Tame data 0 0 (-1 ≤ ·) (Watched.takeValue data additional) := by
  have value (n : Nat) : Tame data 0 0 (-1 ≤ ·) (Pure.pure (n : Int) : Watched Int) := pure _ (by omega)
  unfold Watched.takeValue
  split
  · exact value _
  split
  · exact (takeByte.bind (fun _ _ => value _) (.inl (by decide))).mono le_rfl (by decide) fun _ => id
  split
  · exact (takeByte.bind (fun _ _ => takeByte.bind (fun _ _ => value _) (.inl (by decide)))
      (.inl (by decide))).mono le_rfl (by decide) fun _ => id
  split
  · exact (takeByte.bind (fun _ _ => takeByte.bind (fun _ _ => takeByte.bind (fun _ _ => takeByte.bind
      (fun _ _ => value _) (.inl (by decide))) (.inl (by decide))) (.inl (by decide)))
      (.inl (by decide))).mono le_rfl (by decide) fun _ => id
  split
  · exact ((takeBigInt _ _).bind (fun _ _ => value _) (.inl le_rfl)).mono le_rfl le_rfl fun _ => id
  split
  · exact pure _ le_rfl
  · exact throw CborError.noConfusion

/-! ### Containers -/

theorem takeItems (item : Tame data 1 0 Any x) (count : Nat) : Tame data 0 0 Any (Watched.takeItems x count) := by
  induction count with
  | zero => exact pure _ trivial
  | succ count ih =>
    exact (item.bind (fun _ _ => ih.bind (fun _ _ => pure _ trivial) (.inl le_rfl)) (.inl le_rfl)).mono
      (Nat.zero_le _) le_rfl fun _ => id

theorem takeEntries (item : Tame data 1 0 Any x) (count : Nat) (entries : List (CborValue × CborValue)) :
    Tame data 0 0 Any (Watched.takeEntries x count entries) := by
  induction count generalizing entries with
  | zero => exact pure _ trivial
  | succ count ih =>
    exact (item.bind (fun _ _ => item.bind (fun _ _ => ih _) (.inl le_rfl)) (.inl le_rfl)).mono
      (Nat.zero_le _) le_rfl fun _ => id

/-- Every turn counts two items, so that the loop is never out of turns. -/
theorem takeUntilBreak (item : Tame data 1 0 Any x) {turns : Nat} (entries : List (CborValue × CborValue))
    (running : Running data s) (enough : MAX_CBOR_ITEMS < s.1.decodedItems + turns) :
    Outcome data s.1 0 0 Any ((Watched.takeUntilBreak data x turns entries).run s) := by
  induction turns generalizing s entries with
  | zero =>
    have items := running.items
    omega
  | succ turns ih =>
    have visited : Running data (s.1, { s.2 with offsets := s.1.offset :: s.2.offsets }) :=
      ⟨⟨running.here, List.forall_mem_cons.mpr ⟨running.here, running.past⟩⟩, running.items, running.counted,
        running.depths⟩
    have start : (Watched.takeUntilBreak data x (turns + 1) entries).run s =
        (if byteAt data s.1.offset = some 0xff then do
          Webauthn.watch (set { s.1 with offset := s.1.offset + 1 })
          return entries
        else do
          let key ← x
          let value ← x
          Watched.takeUntilBreak data x turns (setEntry entries key value)).run
            (s.1, { s.2 with offsets := s.1.offset :: s.2.offsets }) := rfl
    rw [start]
    by_cases ended : byteAt data s.1.offset = some 0xff
    · rw [if_pos ended]
      have low := running.here.1
      have below : s.1.offset + 1 ≤ data.length := by
        rw [byteAt, if_neg (by omega)] at ended
        obtain ⟨bound, -⟩ := List.getElem?_eq_some_iff.mp ended
        omega
      have inside : InData data (s.1.offset + 1) := ⟨by omega, below⟩
      refine ⟨⟨⟨inside, List.forall_mem_cons.mpr ⟨inside, visited.past⟩⟩, running.items, running.counted,
        running.depths⟩, Nat.le_refl _, ?_, trivial⟩
      dsimp only
      omega
    · rw [if_neg ended]
      have room := running.here.1
      have loop := (item _ visited room).bind fun key t running' counted reached _ =>
        (item t running' running'.here.1).bind fun value u running'' counted' reached' _ =>
          ih (setEntry entries key value) running'' (by dsimp only at counted; omega)
      exact loop.mono (Nat.zero_le _) le_rfl fun _ => id

/-! ### Items -/

theorem decodeMajor (item : Tame data 1 0 Any x) {turns : Nat} (enough : MAX_CBOR_ITEMS < turns)
    (major additional : Nat) {value : Int} (least : -1 ≤ value) :
    Tame data 0 1 Any (Watched.decodeMajor replaced data turns x major additional value) := by
  have done (v : CborValue) : Tame data 0 0 Any (Pure.pure v : Watched CborValue) := pure v trivial
  have small := toNumber_least least
  have ahead : (0 : Int) ≤ 1 := by decide
  unfold Watched.decodeMajor
  split
  · exact (done _).mono le_rfl ahead fun _ => id
  · exact (done _).mono le_rfl ahead fun _ => id
  · exact (watch (Moves.refuse _)).bind (fun _ _ => (watch (Moves.takeSlice small _)).bind
      (fun _ _ => done _) (.inr le_rfl)) (.inl le_rfl)
  · exact (watch (Moves.takeSlice small _)).bind (fun _ _ => done _) (.inr le_rfl)
  · exact ((watch (Moves.refuse _)).bind (fun _ _ => (watch Moves.get).bind (fun _ _ =>
      (watch (Moves.refuse _)).bind (fun _ _ => (takeItems item _).bind (fun _ _ => done _)
      (.inl le_rfl)) (.inl le_rfl)) (.inl le_rfl)) (.inl le_rfl)).mono le_rfl ahead fun _ => id
  · split
    · have loop : Tame data 0 0 Any (Watched.takeUntilBreak data x turns []) :=
        fun s running _ => takeUntilBreak item [] running (by omega)
      exact (loop.bind (fun _ _ => done _) (.inl le_rfl)).mono le_rfl ahead fun _ => id
    · exact ((takeEntries item _ []).bind (fun _ _ => done _) (.inl le_rfl)).mono le_rfl ahead fun _ => id
  · exact item.mono (Nat.zero_le _) ahead fun _ => id
  · split
    · exact (done _).mono le_rfl ahead fun _ => id
    · exact (done _).mono le_rfl ahead fun _ => id
    · exact (done _).mono le_rfl ahead fun _ => id
    · exact throw CborError.noConfusion
  · exact throw CborError.noConfusion

theorem countItem_run (r : Reader) : Webauthn.countItem.run r =
    if MAX_CBOR_ITEMS < r.decodedItems + 1 then
      .error (.error "CBOR: item limit exceeded") { r with decodedItems := r.decodedItems + 1 }
    else .ok () { r with decodedItems := r.decodedItems + 1 } := by
  have start : Webauthn.countItem.run r = (refuse (MAX_CBOR_ITEMS < r.decodedItems + 1)
      "CBOR: item limit exceeded").run { r with decodedItems := r.decodedItems + 1 } := rfl
  rw [start, refuse]
  split <;> rfl

/-- A call is counted, or it is one too many. -/
theorem countItem {depth : Nat} (shallow : depth ≤ MAX_CBOR_DEPTH) :
    Tame data 1 0 Any (Watched.enter depth >>= fun _ => Webauthn.watch countItem) := by
  intro s running _
  have items := running.items
  have inside := List.forall_mem_cons.mpr ⟨running.here, running.past⟩
  have calls : (depth :: s.2.calls).length = s.1.decodedItems + 1 := by rw [List.length_cons, running.counted]
  have depths : ∀ called ∈ depth :: s.2.calls, called ≤ MAX_CBOR_DEPTH :=
    List.forall_mem_cons.mpr ⟨shallow, running.depths⟩
  by_cases full : MAX_CBOR_ITEMS < s.1.decodedItems + 1
  · have refused : (Watched.enter depth >>= fun _ => Webauthn.watch Webauthn.countItem).run s =
        .error (.error "CBOR: item limit exceeded") ({ s.1 with decodedItems := s.1.decodedItems + 1 },
          ⟨depth :: s.2.calls, s.1.offset :: s.2.offsets⟩) := by
      have thrown := countItem_run s.1
      rw [if_pos full] at thrown
      change Webauthn.watch Webauthn.countItem (s.1, _) = _
      simp only [Webauthn.watch, thrown]
    rw [refused]
    refine ⟨CborError.noConfusion, ⟨running.here, inside⟩, ?_,
      fun depth called => (depths depth called).trans (Nat.le_succ _)⟩
    change (depth :: s.2.calls).length ≤ _
    rw [calls]
    exact Nat.succ_le_succ items
  · have counted : (Watched.enter depth >>= fun _ => Webauthn.watch Webauthn.countItem).run s =
        .ok () ({ s.1 with decodedItems := s.1.decodedItems + 1 },
          ⟨depth :: s.2.calls, s.1.offset :: s.2.offsets⟩) := by
      have passed := countItem_run s.1
      rw [if_neg full] at passed
      change Webauthn.watch Webauthn.countItem (s.1, _) = _
      simp only [Webauthn.watch, passed]
    rw [counted]
    exact ⟨⟨⟨running.here, inside⟩, not_lt.mp full, calls, depths⟩, le_rfl, by dsimp only; omega, trivial⟩

theorem decode {turns : Nat} (enough : MAX_CBOR_ITEMS < turns) (room : Nat) :
    Tame data 1 0 Any (Watched.decode replaced data turns room) := by
  induction room with
  | zero =>
    intro s running _
    refine ⟨CborError.noConfusion, ⟨running.here, running.past⟩, ?_, ?_⟩
    · have items := running.items
      have counted := running.counted
      change (_ :: s.2.calls).length ≤ _
      rw [List.length_cons]
      omega
    · exact List.forall_mem_cons.mpr ⟨le_rfl, running.halted.depths⟩
  | succ room ih =>
    have value (additional : Nat) : Tame data 0 0 (-1 ≤ ·) (Watched.takeValue data additional) := takeValue additional
    have major (m additional : Nat) {value : Int} (least : -1 ≤ value) : Tame data 0 1 Any
        (Watched.decodeMajor replaced data turns (Watched.decode replaced data turns room) m additional value) :=
      decodeMajor ih enough m additional least
    have step := (countItem (Nat.sub_le MAX_CBOR_DEPTH room)).bind (fun _ _ => takeByte.bind (fun initial _ =>
      (value (initial.toNat &&& 0x1f)).bind (fun _ least =>
        major (initial.toNat >>> 5) (initial.toNat &&& 0x1f) least)
        (.inl le_rfl)) (.inl (by decide))) (.inl le_rfl)
    rw [bind_assoc] at step
    exact step.mono le_rfl le_rfl fun _ => id

end Tame

/-- What comes of a decoder that is kept within its limits. -/
structure Within (data : List UInt8) (result : Except CborError CborValue × Journal) : Prop where
  ends : result.1 ≠ .error .outOfTurns
  calls : result.2.calls.length ≤ MAX_CBOR_ITEMS + 1
  depths : ∀ depth ∈ result.2.calls, depth ≤ MAX_CBOR_DEPTH + 1
  offsets : ∀ offset ∈ result.2.offsets, InData data offset

theorem Halted.within {result : Except CborError CborValue} (halted : Halted data s) (ends : result ≠ .error .outOfTurns) :
    Within data (result, s.2) := ⟨ends, halted.few, halted.depths, halted.past⟩

theorem watched_within (replaced : List UInt8 → String) (data : List UInt8) :
    Within data (Watched.decodeCbor replaced data) := by
  unfold Watched.decodeCbor
  split
  · refine ⟨?_, Nat.zero_le _, by simp, by simp⟩
    intro out
    cases out
  · have origin : InData data 0 := ⟨le_rfl, Int.natCast_nonneg _⟩
    have start : Running data (⟨0, 0⟩, ⟨[], [0]⟩) :=
      ⟨⟨origin, List.forall_mem_singleton.mpr origin⟩, Nat.zero_le _, rfl, by simp⟩
    have tame : Tame data 1 0 Any (Watched.decode replaced data (MAX_CBOR_ITEMS + 1) (MAX_CBOR_DEPTH + 1)) :=
      Tame.decode (Nat.lt_succ_self MAX_CBOR_ITEMS) (MAX_CBOR_DEPTH + 1)
    have outcome := tame _ start le_rfl
    generalize (Watched.decode replaced data (MAX_CBOR_ITEMS + 1) (MAX_CBOR_DEPTH + 1)).run
      (⟨0, 0⟩, ⟨[], [0]⟩) = result at outcome
    cases result with
    | error e t =>
      obtain ⟨other, halted⟩ := outcome
      apply halted.within
      intro out
      exact other (Except.error.inj out)
    | ok value t =>
      have halted := outcome.1.halted
      dsimp only
      split
      · apply halted.within
        intro out
        cases out
      · apply halted.within
        intro out
        cases out

/-- The journal is that of the decoder, whose loops are never out of turns; it has so many calls at most,
none deeper than that, and the offset has always been in the data. -/
structure Stops (replaced : List UInt8 → String) (data : List UInt8) : Prop where
  outcome : (Watched.decodeCbor replaced data).1 = decodeCbor replaced data
  ends : decodeCbor replaced data ≠ .error .outOfTurns
  calls : (Watched.decodeCbor replaced data).2.calls.length ≤ 1025
  depths : ∀ depth ∈ (Watched.decodeCbor replaced data).2.calls, depth ≤ 17
  offsets : ∀ offset ∈ (Watched.decodeCbor replaced data).2.offsets, 0 ≤ offset ∧ offset ≤ data.length

theorem decodeCbor_stops (replaced : List UInt8 → String) (data : List UInt8) : Stops replaced data := by
  have outcome := watched_decodeCbor replaced data
  have within := watched_within replaced data
  refine ⟨outcome, ?_, within.calls, within.depths, within.offsets⟩
  rw [← outcome]
  exact within.ends

end Finverse.Webauthn
