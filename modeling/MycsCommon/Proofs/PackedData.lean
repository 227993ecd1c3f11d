import MycsCommon.Crypto.RsaPack
import MycsCommon.Proofs.TokenExchange

/-! Packed data is unpacked at the boundaries at which it was put together. -/

namespace MycsCommon.Crypto
open Network Library Rest List LittleEndian

variable {Seed : Type} {aes : Aes} {zlib : Zlib} {key : RSAKey Seed} {draws : Draws Seed} {data : Bytes}

theorem bind_ok {ε α β : Type} (value : α) (rest : α → Except ε β) : (Except.ok value >>= rest) = rest value := rfl

theorem newCrypt_drawn (aes : Aes) (draws : Draws Seed) :
    newCrypt aes draws.cryptKey.val = some (aes draws.cryptKey.val) :=
  if_pos (.inr (.inr draws.cryptKey.property))

theorem packParts_eq (aes : Aes) (zlib : Zlib) (key : RSAKey Seed) (draws : Draws Seed) (data : Bytes) :
    ∃ compressedData encryptedKey, zlib.read compressedData = some data ∧
      key.decryptOAEP encryptedKey = some draws.cryptKey.val ∧
      packParts aes zlib key draws data =
        some ((aes draws.cryptKey.val).encrypt draws.nonce compressedData, encryptedKey) := by
  obtain ⟨compressedData, written, read⟩ := zlib.inverts data
  obtain ⟨encryptedKey, encrypted, decrypted⟩ := key.inverts draws.seed draws.cryptKey.val draws.cryptKey.property
  exact ⟨compressedData, encryptedKey, read, decrypted, by simp [packParts, written, encrypted, newCrypt_drawn]⟩

theorem unpackParts_frame {encryptedData} (encryptedKey : Bytes) (short : encryptedData.length < 2 ^ 32) :
    unpackParts (encode 4 (encryptedData.length % 2 ^ 32) ++ encryptedData ++ encryptedKey) =
      .ok (encryptedData, encryptedKey) := by
  have size : decode (encode 4 (encryptedData.length % 2 ^ 32)) = encryptedData.length := by
    rw [decode_encode]
    omega
  rw [append_assoc]
  simp only [unpackParts, take_left' (length_encode 4 _), size]
  rw [if_neg (by simp), if_neg (by simp), drop_left' (length_encode 4 _), ← drop_drop,
    drop_left' (length_encode 4 _), take_left, drop_left]

/-- Unpacking gives the data back, and the length, the sealed data and the key are read
where they were written. -/
theorem decryptUnpack_encryptPack (aes : Aes) (zlib : Zlib) (key : RSAKey Seed) (draws : Draws Seed) (data : Bytes)
    (short : ∀ encryptedData encryptedKey, packParts aes zlib key draws data = some (encryptedData, encryptedKey) →
      encryptedData.length < 2 ^ 32) :
    ∃ encryptedData encryptedKey cipherData,
      packParts aes zlib key draws data = some (encryptedData, encryptedKey) ∧
      encryptPack aes zlib key draws data = some cipherData ∧
      decode (cipherData.take 4) = encryptedData.length ∧
      unpackParts cipherData = .ok (encryptedData, encryptedKey) ∧
      decryptUnpack aes zlib key cipherData = .ok data := by
  obtain ⟨compressedData, encryptedKey, read, decrypted, parts⟩ := packParts_eq aes zlib key draws data
  have small := short _ _ parts
  have frame := unpackParts_frame encryptedKey small
  have crypt := newCrypt_drawn aes draws
  have opened := Crypt.decrypt_encrypt (aes draws.cryptKey.val) draws.nonce compressedData
  refine ⟨_, _, _, parts, by simp [encryptPack, parts], ?_, frame, ?_⟩
  · rw [append_assoc, take_left' (length_encode 4 _), decode_encode]
    omega
  · unfold decryptUnpack
    rw [frame]
    simp [bind_ok, decrypted, crypt, opened, read, orFailed]

/-- Unpacking returns data or an error exactly when the frame is as long as it claims. -/
theorem decryptUnpack_returns_iff (aes : Aes) (zlib : Zlib) (key : RSAKey Seed) (cipherData : Bytes) :
    ((∃ data, decryptUnpack aes zlib key cipherData = .ok data) ∨ decryptUnpack aes zlib key cipherData = .error .failed) ↔
      4 ≤ cipherData.length ∧ 4 + decode (cipherData.take 4) ≤ cipherData.length := by
  have total : ∀ {α : Type} (found : Option α), (∃ value, orFailed found = .ok value) ∨ orFailed found = .error .failed := by
    intro α found
    cases found with
    | none => exact .inr rfl
    | some value => exact .inl ⟨value, rfl⟩
  by_cases framed : 4 ≤ cipherData.length ∧ 4 + decode (cipherData.take 4) ≤ cipherData.length
  · refine iff_of_true ?_ framed
    obtain ⟨parts, cut⟩ : ∃ parts, unpackParts cipherData = .ok parts := by
      simp only [unpackParts]
      rw [if_neg (by omega), if_neg (by omega)]
      exact ⟨_, rfl⟩
    simp only [decryptUnpack, cut, bind_ok]
    obtain ⟨cryptKey, opened⟩ | failed := total (key.decryptOAEP parts.2)
    · obtain ⟨crypt, made⟩ | failed := total (newCrypt aes cryptKey)
      · obtain ⟨compressedData, decrypted⟩ | failed := total (crypt.decrypt parts.1)
        · simpa only [opened, made, decrypted, bind_ok] using total (zlib.read compressedData)
        · exact .inr (by simp only [opened, made, failed, bind_ok]; rfl)
      · exact .inr (by simp only [opened, failed, bind_ok]; rfl)
    · exact .inr (by simp only [failed]; rfl)
  · refine iff_of_false ?_ framed
    have panics : decryptUnpack aes zlib key cipherData = .error .outOfRange := by
      simp only [decryptUnpack, unpackParts]
      by_cases short : cipherData.length < 4
      · rw [if_pos short]
        rfl
      · rw [if_neg short, if_pos (by omega)]
        rfl
    simp [panics]

def plainZlib : Zlib := ⟨some, some, fun data => ⟨data, rfl, rfl⟩⟩

def plainKey : RSAKey Unit := ⟨fun _ message => some message, some, fun _ message _ => ⟨message, rfl, rfl⟩⟩

def plainDraws : Draws Unit := ⟨⟨List.replicate 32 7, by decide⟩, ⟨List.replicate 12 5, by decide⟩, ()⟩

theorem decryptUnpack_encryptPack_bytes :
    ∃ encryptedData encryptedKey cipherData,
      packParts plainAes plainZlib plainKey plainDraws [104, 105] = some (encryptedData, encryptedKey) ∧
      encryptPack plainAes plainZlib plainKey plainDraws [104, 105] = some cipherData ∧
      decode (cipherData.take 4) = encryptedData.length ∧
      unpackParts cipherData = .ok (encryptedData, encryptedKey) ∧
      decryptUnpack plainAes plainZlib plainKey cipherData = .ok [104, 105] := by
  apply decryptUnpack_encryptPack plainAes plainZlib plainKey plainDraws [104, 105]
  intro encryptedData encryptedKey parts
  have sealed : packParts plainAes plainZlib plainKey plainDraws [104, 105] = some (List.replicate 12 5 ++ [104, 105], List.replicate 32 7) := by
    decide
  rw [sealed] at parts
  cases parts
  decide

/-- An empty input and one that claims a byte it does not have. -/
theorem decryptUnpack_panics :
    decryptUnpack plainAes plainZlib plainKey [] = .error .outOfRange ∧
      decryptUnpack plainAes plainZlib plainKey [1, 0, 0, 0] = .error .outOfRange :=
  ⟨rfl, rfl⟩

end MycsCommon.Crypto
