import Finverse.Framework.Bytes
import Finverse.Webauthn.Attestation

/-! The written key is a distinguished encoding, in base64 between two lines. -/

namespace Finverse.Webauthn

variable {n : Nat} {out bytes : List UInt8}

/-! ### Lengths -/

theorem low_eight (n : Nat) : n &&& 0xff = n % 256 := Nat.and_two_pow_sub_one_eq_mod n 8

theorem low_seven (n : Nat) : n &&& 0x7f = n % 128 := Nat.and_two_pow_sub_one_eq_mod n 7

theorem unshiftLength_zero (out : List UInt8) : unshiftLength out 0 = out := by rw [unshiftLength, if_pos rfl]

theorem unshiftLength_step (pos : n ≠ 0) :
    unshiftLength out n = unshiftLength (UInt8.ofNat (n % 256) :: out) (n / 256) := by
  rw [unshiftLength, if_neg pos, low_eight, Nat.shiftRight_eq_div_pow]

/-- The octets of `n`, in front of what is there. -/
theorem unshiftLength_spec (n : Nat) : ∀ out, ∃ octets, unshiftLength out n = octets ++ out ∧
    BigEndian.value octets = n ∧ octets.head? ≠ some 0 ∧ ∀ k, n < 256 ^ k → octets.length ≤ k := by
  induction n using Nat.strongRecOn with
  | ind n ih =>
    intro out
    by_cases zero : n = 0
    · subst zero
      exact ⟨[], unshiftLength_zero out, rfl, by simp, fun k _ => Nat.zero_le k⟩
    · have less : n / 256 < n := by omega
      obtain ⟨octets, written, value, minimal, few⟩ := ih (n / 256) less (UInt8.ofNat (n % 256) :: out)
      have last : (UInt8.ofNat (n % 256)).toNat = n % 256 := by
        rw [UInt8.toNat_ofNat']
        omega
      refine ⟨octets ++ [UInt8.ofNat (n % 256)], ?_, ?_, ?_, ?_⟩
      · rw [unshiftLength_step zero, written, List.append_assoc]
        rfl
      · rw [BigEndian.value_concat, value, last]
        omega
      · cases octets with
        | nil =>
          have high : n / 256 = 0 := value.symm
          intro head
          have first := congrArg UInt8.toNat (Option.some.inj head)
          rw [last] at first
          change n % 256 = 0 at first
          omega
        | cons octet octets => exact minimal
      · intro k fits
        cases k with
        | zero =>
          rw [Nat.pow_zero] at fits
          omega
        | succ k =>
          have shorter := few k (by
            rw [Nat.pow_succ] at fits
            exact Nat.div_lt_of_lt_mul (by rw [Nat.mul_comm]; exact fits))
          rw [List.length_append, List.length_singleton]
          omega

theorem derLength_length (small : n < 2 ^ 32) : Der.Length n (derLength n) := by
  rw [derLength]
  split
  · next short => exact .short short
  · next long =>
    obtain ⟨octets, written, value, minimal, few⟩ := unshiftLength_spec n []
    rw [List.append_nil] at written
    have count := few 4 small
    have some_ : octets.length ≠ 0 := by
      intro none_
      rw [List.length_eq_zero_iff.mp none_, BigEndian.value_nil] at value
      omega
    have marker : 0x81 + (octets.length - 1) = 0x80 + octets.length := by omega
    dsimp only
    rw [written, marker]
    exact .long (by omega) value minimal (by omega)

/-! ### Identifiers -/

theorem unshiftPart_zero (bytes : List UInt8) : unshiftPart bytes 0 = bytes := by rw [unshiftPart, if_pos rfl]

theorem marked_octet (n : Nat) : (UInt8.ofNat (n &&& 0x7f ||| 0x80)).toNat = n % 128 + 128 := by
  have small : n % 128 < 2 ^ 7 := Nat.mod_lt _ (by decide)
  have sum : n % 128 ||| 0x80 = n % 128 + 128 := by
    have apart : 0x80 + n % 128 = 0x80 ||| n % 128 := Nat.two_pow_add_eq_or_of_lt small 1
    rw [Nat.or_comm, ← apart, Nat.add_comm]
  rw [low_seven, sum, UInt8.toNat_ofNat']
  omega

theorem unshiftPart_spec (n : Nat) : ∀ bytes, ∃ front, unshiftPart bytes n = front ++ bytes ∧
    Der.sevenBits front = n ∧ (∀ octet ∈ front, 128 ≤ octet.toNat) ∧ front.head? ≠ some 0x80 ∧
      front.length ≤ n := by
  induction n using Nat.strongRecOn with
  | ind n ih =>
    intro bytes
    by_cases zero : n = 0
    · subst zero
      exact ⟨[], unshiftPart_zero bytes, rfl, by simp, by simp, Nat.le_refl 0⟩
    · have less : n / 128 < n := by omega
      obtain ⟨front, written, value, marked, minimal, short⟩ := ih (n / 128) less (UInt8.ofNat (n &&& 0x7f ||| 0x80) :: bytes)
      have octet := marked_octet n
      refine ⟨front ++ [UInt8.ofNat (n &&& 0x7f ||| 0x80)], ?_, ?_, ?_, ?_, ?_⟩
      · rw [unshiftPart, if_neg zero, Nat.shiftRight_eq_div_pow, written, List.append_assoc]
        rfl
      · rw [Der.sevenBits_concat, value, octet]
        omega
      · intro o there
        rcases List.mem_append.mp there with there | there
        · exact marked o there
        · rw [List.mem_singleton.mp there, octet]
          omega
      · cases front with
        | nil =>
          have high : n / 128 = 0 := value.symm
          intro head
          have first := congrArg UInt8.toNat (Option.some.inj head)
          rw [octet] at first
          change n % 128 + 128 = 128 at first
          omega
        | cons first front => exact minimal
      · rw [List.length_append, List.length_singleton]
        omega

theorem derPart_isArc (part : Nat) : Der.IsArc part (derPart part) := by
  obtain ⟨front, written, value, marked, minimal, -⟩ :=
    unshiftPart_spec (part / 128) [UInt8.ofNat (part &&& 0x7f)]
  have last : (UInt8.ofNat (part &&& 0x7f)).toNat = part % 128 := by
    rw [low_seven, UInt8.toNat_ofNat']
    omega
  refine ⟨front, UInt8.ofNat (part &&& 0x7f), ?_, ?_, marked, ?_, minimal⟩
  · rw [derPart, Nat.shiftRight_eq_div_pow]
    exact written
  · rw [Der.sevenBits_concat, value, last]
    omega
  · rw [last]
    omega

theorem isArc_small (small : n < 128) : Der.IsArc n [UInt8.ofNat n] := by
  have octet : (UInt8.ofNat n).toNat = n := by
    rw [UInt8.toNat_ofNat']
    omega
  refine ⟨[], UInt8.ofNat n, rfl, ?_, by simp, by omega, by simp⟩
  rw [Der.sevenBits_concat, octet]
  change 0 * 128 + n % 128 = n
  omega

theorem length_derPart (part : Nat) : (derPart part).length ≤ part / 128 + 1 := by
  obtain ⟨front, written, -, -, -, short⟩ := unshiftPart_spec (part / 128) [UInt8.ofNat (part &&& 0x7f)]
  rw [derPart, Nat.shiftRight_eq_div_pow, show 2 ^ 7 = 128 from rfl, written, List.length_append,
    List.length_singleton]
  omega

theorem derOid_encodes {first second : Nat} {rest : List Nat} (root : first < 2 ∧ second < 40)
    (small : (rest.flatMap derPart).length < 2 ^ 16) :
    Der.Encodes (.oid first second rest) (derOid (first :: second :: rest)) := by
  have each : List.Forall₂ Der.IsArc rest (rest.map derPart) := by
    rw [List.forall₂_map_right_iff]
    exact List.forall₂_same.mpr fun part _ => derPart_isArc part
  have body : [UInt8.ofNat (first * 40 + second)] ++ (rest.map derPart).flatten =
      UInt8.ofNat (first * 40 + second) :: rest.flatMap derPart := by
    rw [List.flatMap_def]
    rfl
  have size : Der.Length ([UInt8.ofNat (first * 40 + second)] ++ (rest.map derPart).flatten).length
      (derLength (UInt8.ofNat (first * 40 + second) :: rest.flatMap derPart).length) := by
    rw [body]
    apply derLength_length
    rw [List.length_cons]
    omega
  have encodes := Der.Encodes.oid root (isArc_small (by omega)) each size
  rw [body] at encodes
  exact encodes

theorem derBitString_encodes (small : bytes.length < 2 ^ 16) : Der.Encodes (.bitString bytes) (derBitString bytes) := by
  have size : Der.Length (bytes.length + 1) (derLength (bytes.length + 1)) := derLength_length (by omega)
  simpa [derBitString] using Der.Encodes.bitString size

theorem derSequence_encodes {contents : List Der.Value} {parts : List (List UInt8)}
    (each : List.Forall₂ Der.Encodes contents parts) (small : parts.flatten.length < 2 ^ 32) :
    Der.Encodes (.sequence contents) (derSequence parts.flatten) := by
  simpa [derSequence] using Der.Encodes.sequence each (derLength_length small)

theorem length_derLength_le (small : n < 2 ^ 16) : (derLength n).length ≤ 3 := by
  rw [derLength]
  split
  · exact Nat.succ_le_succ (Nat.zero_le 2)
  · obtain ⟨octets, written, -, -, few⟩ := unshiftLength_spec n []
    have count := few 2 small
    rw [List.append_nil] at written
    dsimp only
    rw [written, List.length_cons]
    omega

/-! ### The key -/

/-- The key of an uncompressed point on P-256. -/
def subjectPublicKeyInfo (x y : List UInt8) : Der.Value :=
  .sequence [.sequence [.oid 1 2 [840, 10045, 2, 1], .oid 1 2 [840, 10045, 3, 1, 7]],
    .bitString (0x04 :: x ++ y)]

theorem algorithm_lengths : (([840, 10045, 2, 1] : List Nat).flatMap derPart).length ≤ 100 ∧
    (([840, 10045, 3, 1, 7] : List Nat).flatMap derPart).length ≤ 100 := by
  have a := length_derPart 840
  have b := length_derPart 10045
  have c := length_derPart 2
  have d := length_derPart 1
  have e := length_derPart 3
  have f := length_derPart 7
  simp only [List.flatMap_cons, List.flatMap_nil, List.length_append, List.length_nil]
  omega

theorem length_derOid {first second : Nat} {rest : List Nat} (small : (rest.flatMap derPart).length ≤ 100) :
    (derOid (first :: second :: rest)).length ≤ 105 := by
  have head := @length_derLength_le ((rest.flatMap derPart).length + 1) (by omega)
  simp only [derOid, List.drop_succ_cons, List.drop_zero, List.length_append, List.length_cons, List.length_nil]
  omega

theorem spkiP256_encodes {x y : List UInt8} (left : x.length = 32) (right : y.length = 32) :
    Der.Encodes (subjectPublicKeyInfo x y) (spkiP256 x y) := by
  obtain ⟨key, curve⟩ := algorithm_lengths
  have point : (0x04 :: x ++ y).length = 65 := by simp [left, right]
  have keyOid := @derOid_encodes 1 2 [840, 10045, 2, 1] (by decide) (by omega)
  have curveOid := @derOid_encodes 1 2 [840, 10045, 3, 1, 7] (by decide) (by omega)
  have keyLength := @length_derOid 1 2 _ key
  have curveLength := @length_derOid 1 2 _ curve
  have algorithm := derSequence_encodes (.cons keyOid (.cons curveOid .nil)) (by simp; omega)
  have bits := @derBitString_encodes (0x04 :: x ++ y) (by omega)
  have whole := derSequence_encodes (.cons algorithm (.cons bits .nil)) (by
    have outer := @length_derLength_le ((derOid [1, 2, 840, 10045, 2, 1]).length +
      (derOid [1, 2, 840, 10045, 3, 1, 7]).length) (by omega)
    have inner := @length_derLength_le ((0x04 :: x ++ y).length + 1) (by omega)
    simp [derSequence, derBitString] at outer inner ⊢
    omega)
  simpa [spkiP256, subjectPublicKeyInfo] using whole

/-! ### The text -/

/-- Base64 of the encoding of a value, between the two lines. -/
def IsPem (value : Der.Value) (text : String) : Prop :=
  ∃ body bytes, text = "-----BEGIN PUBLIC KEY-----\n" ++ String.ofList body ++ "\n-----END PUBLIC KEY-----" ∧
    Base64.decode body = some bytes ∧ Der.Encodes value bytes

theorem pemOf_isPem {value : Der.Value} (encodes : Der.Encodes value bytes) : IsPem value (pemOf bytes) :=
  ⟨Base64.encode bytes, bytes, rfl, Base64.decode_encode bytes, encodes⟩

end Finverse.Webauthn
