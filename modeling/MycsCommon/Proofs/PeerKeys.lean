import MycsCommon.Proofs.AuthState
import MycsCommon.Proofs.NodeKeys

/-! What becomes of a peer's key. The secret has only the bytes that its number needs, and a text that
is not base64 or a key of a wrong length is not reported as an error. -/

namespace MycsCommon.Crypto
open Network Library List BigEndian Mycsnode Base64 Option

/-- The secret is the first coordinate of the product, in as many bytes as it needs. -/
def coordinateCurve (parsePKIXPublicKey : Bytes → Option Point) (coordinate : ECDHKey → Point → Nat) : Curve ECDHKey Point where
  parsePKIXPublicKey
  scalarMult key point := encode (coordinate key point)

/-- The secret of two keys is a key of 32 bytes exactly when its first byte is not zero. -/
theorem secret_fills_iff {parsePKIXPublicKey : Bytes → Option Point} {coordinate : ECDHKey → Point → Nat} {key peer : ECDHKey}
    (fits : coordinate key peer.point < 2 ^ 256) :
    let curve := coordinateCurve parsePKIXPublicKey coordinate
    let expected := rightAligned 32 (coordinate key peer.point)
    expected.length = 32 ∧
    (∀ text der, Base64.decode text = some der → parsePKIXPublicKey der = some peer.point →
      (sharedSecret curve key text = some expected ↔ 256 ^ 31 ≤ coordinate key peer.point)) ∧
    (∀ text buffer, Base64.decode text = some buffer → nodePoint buffer = .ok peer.point →
      (key.sharedSecretFromNodeJS curve text = .ok expected ↔ 256 ^ 31 ≤ coordinate key peer.point)) ∧
    ∀ (deps : AuthDeps ECDHKey Point) identity (attempt : Attempt ECDHKey) session agreement der, deps.curve = curve →
      attempt.ecdhKey = some key → agree deps identity attempt = .ok agreement →
      Base64.decode agreement.authRespKey.nodeECDHKey = some der → parsePKIXPublicKey der = some peer.point →
      ((authenticate deps identity attempt session).1 = .ok () ∧ agreement.encryptionKey = expected ↔
        256 ^ 31 ≤ coordinate key peer.point) := by
  rw [coordinate_width] at fits
  intro curve expected
  have aligned := encode_eq_rightAligned_iff fits
  have long : expected.length = 32 := length_rightAligned fits
  have shared : ∀ text der, Base64.decode text = some der → parsePKIXPublicKey der = some peer.point →
      sharedSecret curve key text = some (encode (coordinate key peer.point)) := by
    intro text der decoded parsed
    simp [sharedSecret, decoded, curve, coordinateCurve, parsed]
  refine ⟨long, fun text der decoded parsed => ?_, fun text buffer decoded read => ?_, ?_⟩
  · rw [shared text der decoded parsed, some.injEq]
    exact aligned
  · have operand : P256.Operand peer.point := .inr peer.onCurve
    have returned : key.sharedSecretFromNodeJS curve text = .ok (encode (coordinate key peer.point)) := by
      simp only [ECDHKey.sharedSecretFromNodeJS, decoded, read]
      exact if_pos operand
    rw [returned, Except.ok.injEq]
    exact aligned
  · intro deps identity attempt session agreement der same drawn agreed decoded parsed
    obtain ⟨ecdhKey, used, secret⟩ := (agree_ok agreed).secret
    obtain rfl := some.inj (drawn.symm.trans used)
    rw [same, shared _ der decoded parsed, some.injEq] at secret
    rw [← secret, aligned, and_iff_right_iff_imp]
    intro full
    have made : newCrypt deps.aes agreement.encryptionKey = some (deps.aes agreement.encryptionKey) := by
      rw [newCrypt, if_pos]
      rw [← secret, aligned.mpr full]
      exact .inr (.inr long)
    simp [authenticate, agreed, made]

/-- The key with private part 379; the first coordinate of its point is short of a byte. -/
def narrowKey : ECDHKey where
  D := 379
  point := ⟨0x5543894af3d00ed7d740abdbd75c96b06877b787db5f70eea78b90a8d7c00a,
    0xbb4c85a3d8ea29efaafa24406912dd84d5b14dc32bf656ef6c6bd58a5d943f92⟩
  onCurve := by decide +kernel

theorem secret_fills_generator :
    sharedSecret fieldCurve generatorKey (encode (LittleEndian.encode 32 generatorKey.point.X ++ LittleEndian.encode 32 generatorKey.point.Y)) =
      some (rightAligned 32 generatorKey.point.X) := by
  have fits := generatorKey.onCurve.fits.1
  obtain ⟨der, marshalled, parsed⟩ := marshals_fieldCurve generatorKey.point generatorKey.onCurve
  obtain rfl := some.inj marshalled
  exact ((@secret_fills_iff fieldCurve.parsePKIXPublicKey (fun _ point => point.X) generatorKey generatorKey fits).2.1 _ _
    (decode_encode _) parsed).mpr (by decide +kernel)

/-- The secret of a key and the one with private part 1 has 31 bytes, which is no key for AES. -/
theorem narrowKey_secret :
    ∃ text secret, sharedSecret fieldCurve generatorKey text = some secret ∧ secret ≠ rightAligned 32 narrowKey.point.X ∧
      ∀ aes, newCrypt aes secret = none := by
  obtain ⟨der, marshalled, parsed⟩ := marshals_fieldCurve narrowKey.point narrowKey.onCurve
  have short : (encode narrowKey.point.X).length = 31 := by decide +kernel
  have long : (rightAligned 32 narrowKey.point.X).length = 32 :=
    length_rightAligned (coordinate_width ▸ narrowKey.onCurve.fits.1)
  refine ⟨encode der, encode narrowKey.point.X, ?_, fun same => ?_, fun aes => ?_⟩
  · rw [sharedSecret, Base64.decode_encode]
    simp only [parsed, map_some]
    rfl
  · rw [same, long] at short
    cases short
  · rw [newCrypt, short]
    rfl

/-! Texts that are not keys. -/

section Sound

variable {PrivateKey PublicKey : Type}

/-- An error, or the secret for a key on P-256. -/
def SecretSound (curve : Curve PrivateKey PublicKey) (onP256 : PublicKey → Prop) (key : PrivateKey) (text : Bytes) : Prop :=
  sharedSecret curve key text = none ∨ ∃ der publicKey, Base64.decode text = some der ∧
    curve.parsePKIXPublicKey der = some publicKey ∧ onP256 publicKey ∧ sharedSecret curve key text = some (curve.scalarMult key publicKey)

/-- The secret for a point on P-256 that was encoded in full. There is no error to return. -/
def NodeSound (curve : Curve ECDHKey Point) (key : ECDHKey) (text : Bytes) : Prop :=
  ∃ buffer point, Base64.decode text = some buffer ∧ buffer.length = 65 ∧ buffer.head? = some 4 ∧ nodePoint buffer = .ok point ∧
    P256.OnCurve point ∧ key.sharedSecretFromNodeJS curve text = .ok (curve.scalarMult key point)

/-- An error, or what the decoded text decrypts to. -/
def DecryptSound (decrypt : Bytes → Option Bytes) (text : Bytes) : Prop :=
  decryptBase64 decrypt text = none ∨ ∃ decoded plaintext, Base64.decode text = some decoded ∧ decrypt decoded = some plaintext ∧
    decryptBase64 decrypt text = some plaintext

theorem peerInput_sound_iff (curve : Curve PrivateKey PublicKey) (onP256 : PublicKey → Prop) (key : PrivateKey)
    (nodeCurve : Curve ECDHKey Point) (nodeKey : ECDHKey) (decrypt : Bytes → Option Bytes) (text : Bytes) :
    (SecretSound curve onP256 key text ↔
      ∃ der, Base64.decode text = some der ∧ ∀ publicKey, curve.parsePKIXPublicKey der = some publicKey → onP256 publicKey) ∧
    (NodeSound nodeCurve nodeKey text ↔
      ∃ buffer, Base64.decode text = some buffer ∧ buffer.length = 65 ∧ buffer.head? = some 4 ∧
        P256.OnCurve ⟨decode ((buffer.drop 1).take 32), decode (buffer.drop 33)⟩) ∧
    (DecryptSound decrypt text ↔ ∃ decoded, Base64.decode text = some decoded) := by
  refine ⟨?_, ?_, ?_⟩
  · unfold SecretSound sharedSecret
    cases Base64.decode text with
    | none => simp
    | some der =>
      cases parsed : curve.parsePKIXPublicKey der with
      | none => simp [parsed]
      | some publicKey => simp [parsed]
  · constructor
    · rintro ⟨buffer, point, decoded, length, first, read, onCurve, -⟩
      rw [nodePoint, if_neg (by omega), Except.ok.injEq] at read
      exact ⟨buffer, decoded, length, first, read ▸ onCurve⟩
    · rintro ⟨buffer, decoded, length, first, onCurve⟩
      have read : nodePoint buffer = .ok ⟨decode ((buffer.drop 1).take 32), decode (buffer.drop 33)⟩ :=
        if_neg (by omega)
      refine ⟨buffer, _, decoded, length, first, read, onCurve, ?_⟩
      simp only [ECDHKey.sharedSecretFromNodeJS, decoded, read]
      exact if_pos (.inr onCurve)
  · unfold DecryptSound decryptBase64
    cases Base64.decode text with
    | none => simp
    | some decoded => cases opened : decrypt decoded <;> simp [opened]

end Sound

/-- A text that is not base64 gives neither a secret nor an error, and a key of one byte panics. -/
theorem peerInput_misread :
    Base64.decode [42] = none ∧ ¬ SecretSound fieldCurve P256.OnCurve generatorKey [42] ∧ sharedSecret fieldCurve generatorKey [42] = some [] ∧
      generatorKey.sharedSecretFromNodeJS fieldCurve [42] = .ok [] ∧ decryptBase64 some [42] = some [] ∧
      generatorKey.sharedSecretFromNodeJS fieldCurve (Base64.encode [4]) = .error .sliceBounds := by
  have invalid : Base64.decode [42] = none := by decide
  refine ⟨invalid, ?_, by decide, by decide, by decide, by decide⟩
  rintro (failed | ⟨der, -, decoded, -⟩)
  · exact absurd failed (by decide)
  · cases invalid.symm.trans decoded

end MycsCommon.Crypto
