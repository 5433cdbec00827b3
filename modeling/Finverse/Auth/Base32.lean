import Finverse.Framework.BitQueue

/-! The text of a secret for one-time codes. Its bits pass through a number of 32 bits that is never
masked. -/

namespace Finverse.Auth

open BitQueue (Holds)

def ALPHABET : List Char := "ABCDEFGHIJKLMNOPQRSTUVWXYZ234567".toList

/-! ### The operators of the runtime -/

/-- `x << count` -/
def shiftLeft (x : BitVec 32) (count : Nat) : BitVec 32 := x <<< (count % 32)

/-- `x >>> count` -/
def shiftRight (x : BitVec 32) (count : Nat) : BitVec 32 := x >>> (count % 32)

/-! ### Encoding -/

/-- `ALPHABET[x & 31]` -/
def letter (x : BitVec 32) : Char := ALPHABET.getD (x &&& 31#32).toNat '='

/-- `while (bits >= 5)`: the bits that are left, and the result. -/
def takeLetters (value : BitVec 32) : Nat → List Char → Nat × List Char
  | bits + 5, result => takeLetters value bits (result ++ [letter (shiftRight value bits)])
  | bits, result => (bits, result)

/-- The loop over the bytes, and the letter that is filled up with zeros. -/
def encodeFrom : Nat → BitVec 32 → List Char → List UInt8 → List Char
  | bits, value, result, [] =>
    if 0 < bits then result ++ [letter (shiftLeft value (5 - bits))] else result
  | bits, value, result, byte :: bytes =>
    let value := shiftLeft value 8 ||| BitVec.ofNat 32 byte.toNat
    let (bits, result) := takeLetters value (bits + 8) result
    encodeFrom bits value result bytes

def encodeBase32 (bytes : List UInt8) : List Char := encodeFrom 0 0#32 [] bytes

/-! ### Decoding -/

/-- `/^[A-Z2-7]+$/` -/
def isBase32 (text : List Char) : Bool :=
  text ≠ [] ∧ text.all fun c => ('A' ≤ c && c ≤ 'Z') || ('2' ≤ c && c ≤ '7')

/-- `x & 0xff` -/
def lowByte (x : BitVec 32) : UInt8 := UInt8.ofNat (x &&& 0xff#32).toNat

def decodeFrom : Nat → BitVec 32 → List UInt8 → List Char → List UInt8
  | _, _, bytes, [] => bytes
  | bits, buffer, bytes, character :: rest =>
    let index := ALPHABET.idxOf character
    let buffer := shiftLeft buffer 5 ||| BitVec.ofNat 32 index
    let bits := bits + 5
    if 8 ≤ bits then
      decodeFrom (bits - 8) buffer (bytes ++ [lowByte (shiftRight buffer (bits - 8))]) rest
    else decodeFrom bits buffer bytes rest

def decodeBase32 (value : List Char) : Except String (List UInt8) :=
  if isBase32 value then .ok (decodeFrom 0 0#32 [] value) else .error "Invalid TOTP secret."

/-! ### The bits of a text -/

/-- The five bits that a letter stands for. -/
def letterBits (c : Char) : List Bool := BitQueue.bits 5 (ALPHABET.idxOf c)

def byteBits (byte : UInt8) : List Bool := BitQueue.bits 8 byte.toNat

theorem letterBits_letter {x : BitVec 32} {front : List Bool} (five : front.length = 5)
    (low : x.toNat % 2 ^ front.length = BitQueue.value front) :
    letterBits (letter x) = front ∧ letter x ∈ ALPHABET := by
  have all : ∀ n : Fin 32, ALPHABET.idxOf (ALPHABET.getD n '=') = n.val ∧ ALPHABET.getD n '=' ∈ ALPHABET := by
    decide +kernel
  have masked : (x &&& 31#32).toNat = BitQueue.value front := by
    rw [← low, five, BitVec.toNat_and]
    exact Nat.and_two_pow_sub_one_eq_mod x.toNat 5
  have small : BitQueue.value front < 32 := by
    have bound := BitQueue.value_lt front
    rwa [five] at bound
  obtain ⟨index, listed⟩ := all ⟨BitQueue.value front, small⟩
  rw [letterBits, letter, masked]
  refine ⟨?_, listed⟩
  rw [index, ← five]
  exact BitQueue.bits_value front

/-- The letters that are taken are the bits at the front; fewer than five are left. -/
theorem takeLetters_conserves {value : BitVec 32} {queue : List Bool} (holds : Holds value queue)
    (small : queue.length ≤ 32) (result : List Char) :
    ∃ letters back, takeLetters value queue.length result = (back.length, result ++ letters) ∧
      letters.flatMap letterBits ++ back = queue ∧ back.length < 5 ∧ (∀ c ∈ letters, c ∈ ALPHABET) ∧
      Holds value back := by
  induction length : queue.length using Nat.strong_induction_on generalizing queue result with
  | _ n ih =>
    by_cases enough : n < 5
    · refine ⟨[], queue, ?_, rfl, by omega, by simp, holds⟩
      rw [List.append_nil, length]
      match n, enough with
      | 0, _ | 1, _ | 2, _ | 3, _ | 4, _ => rfl
    · obtain ⟨bits, rfl⟩ : ∃ bits, n = bits + 5 := ⟨n - 5, by omega⟩
      have front : (queue.take 5).length = 5 := by
        rw [List.length_take]
        omega
      have rest : (queue.drop 5).length = bits := by
        rw [List.length_drop]
        omega
      have parts : queue.take 5 ++ queue.drop 5 = queue := List.take_append_drop 5 queue
      rw [← parts] at holds
      have low := holds.front
      have shift : shiftRight value bits = value >>> (queue.drop 5).length := by
        rw [shiftRight, Nat.mod_eq_of_lt (by omega), rest]
      rw [← shift] at low
      obtain ⟨first, listed⟩ := letterBits_letter front low
      obtain ⟨letters, back, taken, conserved, short, all, left⟩ := ih bits (by omega) holds.back (by omega)
        (result ++ [letter (shiftRight value bits)]) rest
      refine ⟨letter (shiftRight value bits) :: letters, back, ?_, ?_, short, ?_, left⟩
      · rw [takeLetters, taken, List.append_assoc, List.singleton_append]
      · rw [List.flatMap_cons, first, List.append_assoc, conserved, parts]
      · exact List.forall_mem_cons.mpr ⟨listed, all⟩

theorem push_byte {value : BitVec 32} {queue : List Bool} (holds : Holds value queue) (short : queue.length < 5)
    (byte : UInt8) : Holds (shiftLeft value 8 ||| BitVec.ofNat 32 byte.toNat) (queue ++ byteBits byte) :=
  holds.push (by omega) byte.toNat_lt

theorem push_letter {value : BitVec 32} {queue : List Bool} (holds : Holds value queue) (short : queue.length < 8)
    {c : Char} (listed : c ∈ ALPHABET) :
    Holds (shiftLeft value 5 ||| BitVec.ofNat 32 (ALPHABET.idxOf c)) (queue ++ letterBits c) := by
  have small : ALPHABET.idxOf c < 2 ^ 5 := List.idxOf_lt_length_of_mem listed
  exact holds.push (by omega) small

/-- The letter at the end is filled up with zeros. -/
theorem letterBits_filled {value : BitVec 32} {queue : List Bool} (holds : Holds value queue)
    (short : queue.length < 5) :
    letterBits (letter (shiftLeft value (5 - queue.length))) = queue ++ List.replicate (5 - queue.length) false ∧
      letter (shiftLeft value (5 - queue.length)) ∈ ALPHABET := by
  have zeros : ∀ width, BitQueue.bits width 0 = List.replicate width false := by
    intro width
    induction width with
    | zero => rfl
    | succ width ih => rw [BitQueue.bits, Nat.zero_div, ih, List.replicate_succ']; rfl
  have filled : Holds ((value <<< (5 - queue.length)) ||| BitVec.ofNat 32 0)
      (queue ++ BitQueue.bits (5 - queue.length) 0) := holds.push (by omega) (Nat.two_pow_pos _)
  rw [zeros, BitVec.or_zero] at filled
  have shift : shiftLeft value (5 - queue.length) = value <<< (5 - queue.length) := by
    rw [shiftLeft, Nat.mod_eq_of_lt (by omega)]
  rw [shift]
  have length : (queue ++ List.replicate (5 - queue.length) false).length = 5 := by
    rw [List.length_append, List.length_replicate]
    omega
  exact letterBits_letter length filled

/-- Letters of the bits that are queued, of the bytes that follow, and of fewer than five zeros. -/
theorem encodeFrom_conserves {value : BitVec 32} {queue : List Bool} (holds : Holds value queue)
    (short : queue.length < 5) (result : List Char) (bytes : List UInt8) :
    ∃ letters zeros, encodeFrom queue.length value result bytes = result ++ letters ∧
      letters.flatMap letterBits = queue ++ bytes.flatMap byteBits ++ zeros ∧ zeros.length < 5 ∧
      ∀ c ∈ letters, c ∈ ALPHABET := by
  induction bytes generalizing value queue result with
  | nil =>
    by_cases some_left : 0 < queue.length
    · obtain ⟨filled, listed⟩ := letterBits_filled holds short
      refine ⟨[letter (shiftLeft value (5 - queue.length))], List.replicate (5 - queue.length) false, ?_, ?_, ?_, ?_⟩
      · rw [encodeFrom, if_pos some_left]
      · simpa using filled
      · rw [List.length_replicate]
        omega
      · simpa using listed
    · have empty : queue = [] := List.length_eq_zero_iff.mp (by omega)
      refine ⟨[], [], ?_, ?_, by simp, by simp⟩
      · rw [encodeFrom, if_neg some_left, List.append_nil]
      · simp [empty]
  | cons byte bytes ih =>
    have pushed := push_byte holds short byte
    have length : (queue ++ byteBits byte).length = queue.length + 8 := by
      rw [List.length_append, byteBits, BitQueue.length_bits]
    obtain ⟨first, back, taken, conserved, left, listed, kept⟩ := takeLetters_conserves pushed (by omega) result
    obtain ⟨letters, zeros, rest, conserved', few, listed'⟩ := ih kept left (result ++ first)
    rw [length] at taken
    refine ⟨first ++ letters, zeros, ?_, ?_, few, ?_⟩
    · rw [encodeFrom]
      simp only [taken]
      rw [rest, List.append_assoc]
    · rw [List.flatMap_append, conserved', ← List.append_assoc, ← List.append_assoc, conserved,
        List.flatMap_cons, List.append_assoc queue]
    · intro c stored
      rcases List.mem_append.mp stored with stored | stored
      · exact listed c stored
      · exact listed' c stored

/-- The byte that is cut out is that of the bits at the front. -/
theorem byteBits_lowByte {x : BitVec 32} {front : List Bool} (eight : front.length = 8)
    (low : x.toNat % 2 ^ front.length = BitQueue.value front) : byteBits (lowByte x) = front := by
  have masked : (x &&& 0xff#32).toNat = BitQueue.value front := by
    rw [← low, eight, BitVec.toNat_and]
    exact Nat.and_two_pow_sub_one_eq_mod x.toNat 8
  have small : BitQueue.value front < 2 ^ 8 := by
    have bound := BitQueue.value_lt front
    rwa [eight] at bound
  rw [byteBits, lowByte, masked, UInt8.toNat_ofNat', Nat.mod_eq_of_lt small, ← eight]
  exact BitQueue.bits_value front

/-- Bytes of the bits that are queued and of the letters that follow; fewer than eight bits are dropped. -/
theorem decodeFrom_conserves {buffer : BitVec 32} {queue : List Bool} (holds : Holds buffer queue)
    (short : queue.length < 8) (bytes : List UInt8) {text : List Char} (listed : ∀ c ∈ text, c ∈ ALPHABET) :
    ∃ more dropped, decodeFrom queue.length buffer bytes text = bytes ++ more ∧
      more.flatMap byteBits ++ dropped = queue ++ text.flatMap letterBits ∧ dropped.length < 8 := by
  induction text generalizing buffer queue bytes with
  | nil => exact ⟨[], queue, by rw [decodeFrom, List.append_nil], by simp, short⟩
  | cons c text ih =>
    obtain ⟨first, others⟩ := List.forall_mem_cons.mp listed
    have pushed := push_letter holds short first
    have length : (queue ++ letterBits c).length = queue.length + 5 := by
      rw [List.length_append, letterBits, BitQueue.length_bits]
    by_cases enough : 8 ≤ queue.length + 5
    · have parts : (queue ++ letterBits c).take 8 ++ (queue ++ letterBits c).drop 8 = queue ++ letterBits c :=
        List.take_append_drop 8 _
      have front : ((queue ++ letterBits c).take 8).length = 8 := by
        rw [List.length_take]
        omega
      have left : ((queue ++ letterBits c).drop 8).length = queue.length + 5 - 8 := by
        rw [List.length_drop]
        omega
      rw [← parts] at pushed
      have low := pushed.front
      have shift (x : BitVec 32) : shiftRight x (queue.length + 5 - 8) = x >>> (queue.length + 5 - 8) := by
        rw [shiftRight, Nat.mod_eq_of_lt (by omega)]
      rw [left, ← shift] at low
      have cut := byteBits_lowByte front low
      have kept := pushed.back
      generalize written : shiftLeft buffer 5 ||| BitVec.ofNat 32 (ALPHABET.idxOf c) = register at cut kept
      obtain ⟨more, dropped, rest, conserved, few⟩ := ih kept (by omega)
        (bytes ++ [lowByte (shiftRight register (queue.length + 5 - 8))]) others
      refine ⟨lowByte (shiftRight register (queue.length + 5 - 8)) :: more, dropped, ?_, ?_, few⟩
      · rw [decodeFrom]
        simp only [if_pos enough, written]
        rw [left] at rest
        rw [rest, List.append_assoc, List.singleton_append]
      · rw [List.flatMap_cons, cut, List.append_assoc, conserved, ← List.append_assoc, parts, List.flatMap_cons,
          List.append_assoc]
    · obtain ⟨more, dropped, rest, conserved, few⟩ := ih pushed (by omega) bytes others
      refine ⟨more, dropped, ?_, ?_, few⟩
      · rw [decodeFrom]
        simp only [if_neg enough]
        rw [← rest, length]
      · rw [conserved, List.flatMap_cons, List.append_assoc]

/-! ### The round trip -/

theorem isBase32_of_listed {text : List Char} (nonempty : text ≠ []) (listed : ∀ c ∈ text, c ∈ ALPHABET) :
    isBase32 text = true := by
  have all : ∀ c ∈ ALPHABET, (('A' ≤ c && c ≤ 'Z') || ('2' ≤ c && c ≤ '7')) = true :=
    List.all_eq_true.mp (by decide +kernel)
  have classes : (text.all fun c => ('A' ≤ c && c ≤ 'Z') || ('2' ≤ c && c ≤ '7')) = true :=
    List.all_eq_true.mpr fun c stored => all c (listed c stored)
  exact decide_eq_true ⟨nonempty, classes⟩

theorem byteBits_injective : Function.Injective byteBits := by
  intro a b same
  have values := congrArg BitQueue.value same
  rw [byteBits, byteBits, BitQueue.value_bits a.toNat_lt, BitQueue.value_bits b.toNat_lt] at values
  exact UInt8.toNat_inj.mp values

theorem length_byteBits (byte : UInt8) : (byteBits byte).length = 8 := BitQueue.length_bits 8 _

/-- Bits that are those of bytes, with fewer than eight after each, are those of the same bytes. -/
theorem bytes_of_bits {bytes more : List UInt8} {zeros dropped : List Bool} (few : zeros.length < 8)
    (few' : dropped.length < 8) (same : more.flatMap byteBits ++ dropped = bytes.flatMap byteBits ++ zeros) :
    more = bytes := by
  have total (bytes : List UInt8) : (bytes.flatMap byteBits).length = 8 * bytes.length := by
    induction bytes with
    | nil => rfl
    | cons byte bytes ih =>
      rw [List.flatMap_cons, List.length_append, length_byteBits, ih, List.length_cons]
      omega
  have lengths := congrArg List.length same
  rw [List.length_append, List.length_append, total, total] at lengths
  have equal : more.length = bytes.length := by omega
  have bits := List.append_inj_left same (by rw [total, total, equal])
  exact BitQueue.flatMap_injective length_byteBits (by decide) byteBits_injective bits

/-- A secret is read back from its text, whatever its length. -/
theorem decodeBase32_encodeBase32 {bytes : List UInt8} (nonempty : bytes ≠ []) :
    decodeBase32 (encodeBase32 bytes) = .ok bytes := by
  obtain ⟨letters, zeros, encoded, conserved, few, listed⟩ :=
    encodeFrom_conserves (BitQueue.holds_empty 0#32) (by decide) [] bytes
  rw [List.nil_append] at encoded conserved
  have text : encodeBase32 bytes = letters := encoded
  have some_letter : letters ≠ [] := by
    rintro rfl
    have lengths := congrArg List.length conserved
    obtain ⟨byte, rest, rfl⟩ := List.exists_cons_of_ne_nil nonempty
    simp only [List.flatMap_nil, List.flatMap_cons, List.length_nil, List.length_append, length_byteBits] at lengths
    omega
  obtain ⟨more, dropped, decoded, conserved', few'⟩ :=
    decodeFrom_conserves (BitQueue.holds_empty 0#32) (by decide) [] listed
  rw [List.nil_append, conserved] at conserved'
  rw [decodeBase32, text, if_pos (isBase32_of_listed some_letter listed)]
  have read : decodeFrom 0 0#32 [] letters = more := decoded
  rw [read, bytes_of_bits (by omega) few' conserved']

theorem foo_read_back : ([0x66, 0x6f, 0x6f] : List UInt8) ≠ [] ∧
    decodeBase32 (encodeBase32 [0x66, 0x6f, 0x6f]) = .ok [0x66, 0x6f, 0x6f] :=
  ⟨by decide, decodeBase32_encodeBase32 (by decide)⟩

end Finverse.Auth
