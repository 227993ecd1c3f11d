import Mathlib.Data.Nat.Digits.Lemmas

/-! Numbers as bytes, the most significant first and no more of them than the number needs. -/

namespace Library.BigEndian
open List

def encode (number : Nat) : List UInt8 := (Nat.digits 256 number).reverse.map UInt8.ofNat

def decode (bytes : List UInt8) : Nat := Nat.ofDigits 256 (bytes.reverse.map UInt8.toNat)

theorem length_encode_le (number width : Nat) : (encode number).length ≤ width ↔ number < 256 ^ width := by
  simp only [encode, length_map, length_reverse]
  exact Nat.digits_length_le_iff (by decide) number

theorem decode_encode (number : Nat) : decode (encode number) = number := by
  have bytes : (Nat.digits 256 number).map (UInt8.toNat ∘ UInt8.ofNat) = Nat.digits 256 number := by
    conv_rhs => rw [← map_id (Nat.digits 256 number)]
    refine map_congr_left fun digit member => ?_
    have small : digit < 256 := Nat.digits_lt_base (by decide) member
    exact UInt8.toNat_ofNat_of_lt small
  rw [decode, encode, ← map_reverse, reverse_reverse, map_map, bytes, Nat.ofDigits_digits]

theorem decode_pad (bytes : List UInt8) (count : Nat) :
    decode (bytes ++ List.replicate count 0) = decode bytes * 256 ^ count := by
  simp only [decode, reverse_append, reverse_replicate, map_append, map_replicate,
    UInt8.toNat_zero, Nat.ofDigits_append, Nat.ofDigits_replicate_zero, length_replicate, zero_add]
  exact Nat.mul_comm _ _

/-- The number as the first bytes of a field, with zeros after it. -/
def leftAligned (width number : Nat) : List UInt8 :=
  encode number ++ List.replicate (width - (encode number).length) 0

theorem decode_leftAligned_iff {width number : Nat} (fits : number < 256 ^ (width + 1)) :
    decode (leftAligned (width + 1) number) = number ↔ number = 0 ∨ 256 ^ width ≤ number := by
  have within := (length_encode_le number (width + 1)).mpr fits
  have short := length_encode_le number width
  rw [leftAligned, decode_pad, decode_encode]
  constructor
  · intro same
    by_contra! small
    obtain ⟨positive, low⟩ := small
    have missing : width + 1 - (encode number).length ≠ 0 := by have := short.mpr low; omega
    have more := Nat.one_lt_pow missing (by decide : 1 < 256)
    have : number < number * 256 ^ (width + 1 - (encode number).length) := by
      apply lt_mul_of_one_lt_right (Nat.pos_of_ne_zero positive) more
    omega
  · rintro (none | large)
    · rw [none, zero_mul]
    · have full : width + 1 - (encode number).length = 0 := by
        have : ¬ (encode number).length ≤ width := fun few => absurd (short.mp few) (not_lt.mpr large)
        omega
      rw [full, pow_zero, mul_one]

/-- The number as the last bytes of a field, with zeros before it. -/
def rightAligned (width number : Nat) : List UInt8 :=
  List.replicate (width - (encode number).length) 0 ++ encode number

theorem encode_eq_rightAligned_iff {width number : Nat} (fits : number < 256 ^ (width + 1)) :
    encode number = rightAligned (width + 1) number ↔ 256 ^ width ≤ number := by
  have within := (length_encode_le number (width + 1)).mpr fits
  rw [rightAligned, self_eq_append_left, replicate_eq_nil_iff, ← not_lt, ← length_encode_le]
  omega

theorem length_rightAligned {width number : Nat} (fits : number < 256 ^ width) : (rightAligned width number).length = width := by
  have within := (length_encode_le number width).mpr fits
  rw [rightAligned, length_append, length_replicate]
  omega

end Library.BigEndian
