import Mathlib.Data.List.Basic

/-! Base64 with the standard alphabet and padding. The decoder skips line ends and does
not check the bits that the padding leaves over. -/

namespace Library.Base64
open List Option UInt8

def digit (value : Nat) : UInt8 :=
  if value < 26 then ofNat (65 + value)
  else if value < 52 then ofNat (71 + value)
  else if value < 62 then ofNat (value - 4)
  else if value = 62 then 43 else 47

def value? (byte : UInt8) : Option Nat :=
  if 65 ≤ byte ∧ byte ≤ 90 then some (byte.toNat - 65)
  else if 97 ≤ byte ∧ byte ≤ 122 then some (byte.toNat - 71)
  else if 48 ≤ byte ∧ byte ≤ 57 then some (byte.toNat + 4)
  else if byte = 43 then some 62
  else if byte = 47 then some 63
  else none

def pad : UInt8 := 61

def encode : List UInt8 → List UInt8
  | [] => []
  | [first] => [digit (first.toNat / 4), digit (first.toNat % 4 * 16), pad, pad]
  | [first, second] =>
    [digit (first.toNat / 4), digit (first.toNat % 4 * 16 + second.toNat / 16), digit (second.toNat % 16 * 4), pad]
  | first :: second :: third :: rest =>
    digit (first.toNat / 4) :: digit (first.toNat % 4 * 16 + second.toNat / 16) ::
      digit (second.toNat % 16 * 4 + third.toNat / 64) :: digit (third.toNat % 64) :: encode rest

/-- The quanta of four digits; only the last one may be padded. -/
def decodeQuanta : List UInt8 → Option (List UInt8)
  | [] => some []
  | first :: second :: third :: fourth :: rest => do
    let high ← value? first
    let low ← value? second
    let firstByte := ofNat (high * 4 + low / 16)
    if fourth = pad ∧ rest = [] then
      if third = pad then some [firstByte]
      else
        let middle ← value? third
        some [firstByte, ofNat (low % 16 * 16 + middle / 4)]
    else
      let middle ← value? third
      let last ← value? fourth
      let bytes ← decodeQuanta rest
      some (firstByte :: ofNat (low % 16 * 16 + middle / 4) :: ofNat (middle % 4 * 64 + last) :: bytes)
  | _ => none

def decode (text : List UInt8) : Option (List UInt8) := decodeQuanta (text.filter fun byte => byte ≠ 10 ∧ byte ≠ 13)

private theorem value?_digit : ∀ value < 64, value? (digit value) = some value := by decide

private theorem digit_plain : ∀ value < 64, digit value ≠ pad ∧ digit value ≠ 10 ∧ digit value ≠ 13 := by decide

private theorem byte_eq {byte : UInt8} {value : Nat} (same : value = byte.toNat) : UInt8.ofNat value = byte := by
  rw [same, UInt8.ofNat_toNat]

private theorem decodeQuanta_encode (bytes : List UInt8) : decodeQuanta (encode bytes) = some bytes := by
  fun_induction encode bytes with
  | case1 => rfl
  | case2 first =>
    have bound := first.toNat_lt
    have low := value?_digit (first.toNat % 4 * 16) (by omega)
    simp only [decodeQuanta, value?_digit _ (show first.toNat / 4 < 64 by omega), low, bind_eq_bind, bind_some,
      and_self, if_true, some_inj, List.cons.injEq, and_true]
    exact byte_eq (by omega)
  | case3 first second =>
    have bound := first.toNat_lt
    have bound' := second.toNat_lt
    have low := value?_digit (first.toNat % 4 * 16 + second.toNat / 16) (by omega)
    have middle := value?_digit (second.toNat % 16 * 4) (by omega)
    simp only [decodeQuanta, value?_digit _ (show first.toNat / 4 < 64 by omega), low, middle, bind_eq_bind,
      bind_some, and_self, if_true, if_neg (digit_plain (second.toNat % 16 * 4) (by omega)).1, some_inj,
      List.cons.injEq, and_true]
    exact ⟨byte_eq (by omega), byte_eq (by omega)⟩
  | case4 first second third rest ih =>
    have bound := first.toNat_lt
    have bound' := second.toNat_lt
    have bound'' := third.toNat_lt
    have low := value?_digit (first.toNat % 4 * 16 + second.toNat / 16) (by omega)
    have middle := value?_digit (second.toNat % 16 * 4 + third.toNat / 64) (by omega)
    have last := value?_digit (third.toNat % 64) (by omega)
    have unpadded := (digit_plain (third.toNat % 64) (by omega)).1
    simp only [decodeQuanta, value?_digit _ (show first.toNat / 4 < 64 by omega), low, middle, last, ih, bind_eq_bind,
      bind_some, unpadded, false_and, if_false, some_inj, List.cons.injEq, and_true]
    exact ⟨byte_eq (by omega), byte_eq (by omega), byte_eq (by omega)⟩

private theorem mem_encode {symbol : UInt8} {bytes : List UInt8} (member : symbol ∈ encode bytes) :
    symbol = pad ∨ ∃ value < 64, symbol = digit value := by
  fun_induction encode bytes with
  | case1 => cases member
  | case2 first =>
    have bound := first.toNat_lt
    simp only [mem_cons, not_mem_nil, or_false] at member
    rcases member with rfl | rfl | padded | padded
    · exact .inr ⟨_, by omega, rfl⟩
    · exact .inr ⟨_, by omega, rfl⟩
    · exact .inl padded
    · exact .inl padded
  | case3 first second =>
    have bound := first.toNat_lt
    have bound' := second.toNat_lt
    simp only [mem_cons, not_mem_nil, or_false] at member
    rcases member with rfl | rfl | rfl | padded
    · exact .inr ⟨_, by omega, rfl⟩
    · exact .inr ⟨_, by omega, rfl⟩
    · exact .inr ⟨_, by omega, rfl⟩
    · exact .inl padded
  | case4 first second third rest ih =>
    have bound := first.toNat_lt
    have bound' := second.toNat_lt
    have bound'' := third.toNat_lt
    simp only [mem_cons] at member
    rcases member with rfl | rfl | rfl | rfl | later
    · exact .inr ⟨_, by omega, rfl⟩
    · exact .inr ⟨_, by omega, rfl⟩
    · exact .inr ⟨_, by omega, rfl⟩
    · exact .inr ⟨_, by omega, rfl⟩
    · exact ih later

private theorem filter_encode (bytes : List UInt8) :
    (encode bytes).filter (fun byte => byte ≠ 10 ∧ byte ≠ 13) = encode bytes := by
  rw [filter_eq_self]
  intro symbol member
  rcases mem_encode member with rfl | ⟨value, bound, rfl⟩
  · decide
  · exact decide_eq_true (digit_plain value bound).2

theorem decode_encode (bytes : List UInt8) : decode (encode bytes) = some bytes := by
  rw [decode, filter_encode, decodeQuanta_encode]

theorem encode_injective : Function.Injective encode := by
  intro first second same
  simpa [decode_encode] using congrArg decode same

theorem encode_append {bytes : List UInt8} (quanta : 3 ∣ bytes.length) (rest : List UInt8) :
    encode (bytes ++ rest) = encode bytes ++ encode rest := by
  fun_induction encode bytes with
  | case1 => rfl
  | case2 | case3 =>
    simp only [length_cons, length_nil] at quanta
    omega
  | case4 first second third bytes ih =>
    simp only [cons_append, encode]
    rw [ih ((Nat.dvd_add_left (Nat.dvd_refl 3)).mp quanta)]

theorem length_encode {bytes : List UInt8} (quanta : 3 ∣ bytes.length) : (encode bytes).length = bytes.length / 3 * 4 := by
  fun_induction encode bytes with
  | case1 => rfl
  | case2 | case3 =>
    simp only [length_cons, length_nil] at quanta
    omega
  | case4 first second third bytes ih =>
    have shorter := ih ((Nat.dvd_add_left (Nat.dvd_refl 3)).mp quanta)
    simp only [length_cons, shorter]
    omega

end Library.Base64
