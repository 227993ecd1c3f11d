import Mathlib.Data.List.Basic

/-! Lower-case hexadecimal text of a byte string, as characters or as bytes, and its
decoder. The decoder also reads upper-case digits. -/

namespace Library.Hex
open List

/-- The sixteen digits, and what is read as one of them. -/
structure Alphabet (α : Type) where
  digit : Nat → α
  value? : α → Option Nat
  value?_digit : ∀ value < 16, value? (digit value) = some value

def value? (char : Char) : Option Nat :=
  if '0' ≤ char ∧ char ≤ '9' then some (char.toNat - '0'.toNat)
  else if 'a' ≤ char ∧ char ≤ 'f' then some (char.toNat - 'a'.toNat + 10)
  else if 'A' ≤ char ∧ char ≤ 'F' then some (char.toNat - 'A'.toNat + 10)
  else none

def characters : Alphabet Char := ⟨Nat.digitChar, value?, by decide⟩

def bytes : Alphabet UInt8 :=
  ⟨fun value => UInt8.ofNat value.digitChar.toNat, fun byte => value? (Char.ofNat byte.toNat), by decide⟩

variable {α : Type} (alphabet : Alphabet α)

def Alphabet.encodeByte (byte : UInt8) : List α := [alphabet.digit (byte.toNat / 16), alphabet.digit (byte.toNat % 16)]

def Alphabet.encode (bytes : List UInt8) : List α := bytes.flatMap alphabet.encodeByte

def Alphabet.decode : List α → Option (List UInt8)
  | [] => some []
  | [_] => none
  | high :: low :: rest => do
    let high ← alphabet.value? high
    let low ← alphabet.value? low
    let bytes ← Alphabet.decode rest
    some (UInt8.ofNat (16 * high + low) :: bytes)

/-- The bytes read before the first fault. -/
def Alphabet.decoded : List α → List UInt8
  | high :: low :: rest =>
    match alphabet.value? high, alphabet.value? low with
    | some high, some low => UInt8.ofNat (16 * high + low) :: Alphabet.decoded rest
    | _, _ => []
  | _ => []

def encode (bytes : List UInt8) : String := String.ofList (characters.encode bytes)

private theorem high_lt (byte : UInt8) : byte.toNat / 16 < 16 := by
  have bound := byte.toNat_lt
  omega

@[simp] theorem decode_encode (bytes : List UInt8) : alphabet.decode (alphabet.encode bytes) = some bytes := by
  induction bytes with
  | nil => rfl
  | cons byte bytes ih =>
    have low : byte.toNat % 16 < 16 := Nat.mod_lt _ (by decide)
    have joined : 16 * (byte.toNat / 16) + byte.toNat % 16 = byte.toNat := Nat.div_add_mod _ _
    have rest : alphabet.decode (bytes.flatMap alphabet.encodeByte) = some bytes := ih
    simp only [Alphabet.encode, flatMap_cons, Alphabet.encodeByte, cons_append, nil_append, Alphabet.decode,
      alphabet.value?_digit _ (high_lt byte), alphabet.value?_digit _ low, rest, Option.bind_eq_bind, Option.bind_some, joined]
    simp

theorem encode_injective : Function.Injective encode := by
  intro first second same
  have decoded := congrArg (fun text : String => characters.decode text.toList) same
  simpa [encode] using decoded

theorem mem_encode {symbol : α} {bytes : List UInt8} (member : symbol ∈ alphabet.encode bytes) :
    ∃ value < 16, symbol = alphabet.digit value := by
  obtain ⟨byte, -, digits⟩ := mem_flatMap.mp member
  rcases mem_cons.mp digits with high | low
  · exact ⟨_, high_lt byte, high⟩
  · exact ⟨_, Nat.mod_lt _ (by decide), mem_singleton.mp low⟩

end Library.Hex
