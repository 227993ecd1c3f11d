import Mathlib.Data.Nat.ModEq

/-! Numbers of a fixed width as bytes, the least significant first. -/

namespace Library.LittleEndian

def encode : Nat → Nat → List UInt8
  | 0, _ => []
  | width + 1, number => UInt8.ofNat number :: encode width (number / 256)

def decode : List UInt8 → Nat
  | [] => 0
  | byte :: bytes => byte.toNat + 256 * decode bytes

@[simp] theorem length_encode (width number : Nat) : (encode width number).length = width := by
  induction width generalizing number with
  | zero => rfl
  | succ width ih => simp [encode, ih]

theorem decode_encode (width number : Nat) : decode (encode width number) = number % 256 ^ width := by
  induction width generalizing number with
  | zero => simp [encode, decode, Nat.mod_one]
  | succ width ih =>
    have low : (UInt8.ofNat number).toNat = number % 256 := by simp
    rw [encode, decode, ih, low, pow_succ', Nat.mod_mul]

end Library.LittleEndian
