import MycsCommon.Library.LittleEndian
import MycsCommon.Rest.AuthToken

/-! Packed data of crypto/rsa.go: compressed, sealed with a key of its own, and framed with
its length in front and the key, encrypted for the owner of the RSA key, behind. -/

namespace MycsCommon.Crypto
open Network Library Rest

/-- AES in Galois/counter mode, for every key. -/
abbrev Aes := Bytes → Crypt

/-- A cipher that changes nothing. -/
def plainAes : Aes := fun _ => ⟨fun _ plainData => plainData, fun _ cipherData => some cipherData, fun _ _ => rfl⟩

/-- `aes.NewCipher` takes keys of 16, 24 and 32 bytes only. -/
def newCrypt (aes : Aes) (key : Bytes) : Option Crypt :=
  if key.length = 16 ∨ key.length = 24 ∨ key.length = 32 then some (aes key) else none

/-- zlib, as its writer and its reader. -/
structure Zlib where
  write : Bytes → Option Bytes
  read : Bytes → Option Bytes
  inverts : ∀ data, ∃ compressed, write data = some compressed ∧ read compressed = some data

/-- An RSA key with OAEP padding; encryption draws a seed. -/
structure RSAKey (Seed : Type) where
  encryptOAEP : Seed → Bytes → Option Bytes
  decryptOAEP : Bytes → Option Bytes
  inverts : ∀ seed message, message.length = 32 →
    ∃ ciphertext, encryptOAEP seed message = some ciphertext ∧ decryptOAEP ciphertext = some message

/-- `DecryptBase64`, given `Decrypt`: a text that is not base64 gives neither bytes nor an error. -/
def decryptBase64 (decrypt : Bytes → Option Bytes) (ciphertext : Bytes) : Option Bytes :=
  match Base64.decode ciphertext with
  | none => some []
  | some decoded => decrypt decoded

inductive UnpackFault where
  /-- An index or a length out of range, which panics. -/
  | outOfRange
  | failed
deriving DecidableEq, Repr

variable {Seed : Type} (aes : Aes) (zlib : Zlib) (key : RSAKey Seed)

/-- What `EncryptPack` draws. -/
structure Draws (Seed : Type) where
  cryptKey : { key : Bytes // key.length = 32 }
  nonce : Nonce
  seed : Seed

/-- The sealed data and the encrypted key that go into the frame. -/
def packParts (draws : Draws Seed) (data : Bytes) : Option (Bytes × Bytes) := do
  let compressedData ← zlib.write data
  let crypt ← newCrypt aes draws.cryptKey.val
  let encryptedData := crypt.encrypt draws.nonce compressedData
  let encryptedKey ← key.encryptOAEP draws.seed draws.cryptKey.val
  return (encryptedData, encryptedKey)

def encryptPack (draws : Draws Seed) (data : Bytes) : Option Bytes := do
  let (encryptedData, encryptedKey) ← packParts aes zlib key draws data
  -- the length is cut to 32 bits, the data is not
  return LittleEndian.encode 4 (encryptedData.length % 2 ^ 32) ++ encryptedData ++ encryptedKey

/-- What the frame holds, read with the length it starts with. -/
def unpackParts (cipherData : Bytes) : Except UnpackFault (Bytes × Bytes) :=
  if cipherData.length < 4 then .error .outOfRange
  else
    let l := LittleEndian.decode (cipherData.take 4)
    if cipherData.length < 4 + l then .error .outOfRange
    else .ok ((cipherData.drop 4).take l, cipherData.drop (4 + l))

def orFailed {α : Type} : Option α → Except UnpackFault α
  | none => .error .failed
  | some value => .ok value

def decryptUnpack (cipherData : Bytes) : Except UnpackFault Bytes := do
  let (encryptedData, encryptedKey) ← unpackParts cipherData
  let cryptKey ← orFailed (key.decryptOAEP encryptedKey)
  let crypt ← orFailed (newCrypt aes cryptKey)
  let compressedData ← orFailed (crypt.decrypt encryptedData)
  orFailed (zlib.read compressedData)

end MycsCommon.Crypto
