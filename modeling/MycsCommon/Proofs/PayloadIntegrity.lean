import MycsCommon.Proofs.TokenExchange

/-! An encrypted payload and the token that travels with it. The token carries the checksum
of the payload, and the other side returns only data with that checksum. -/

namespace MycsCommon.Rest
open Network Library List AuthTokenCommon Hex RequestAuthToken ResponseAuthToken

variable {libs : Libs}

/-- What a body holds for a token, if it can be decrypted. -/
def AuthTokenCommon.content (libs : Libs) (token : AuthTokenCommon) (body : Bytes) : Option Bytes := do
  token.authCrypt.crypt.decrypt (← libs.decodePayload body >>= Base64.decode)

theorem AuthTokenCommon.decryptPayload_ok_iff {token : AuthTokenCommon} {body data} :
    token.decryptPayload libs body = .ok data ↔
      token.content libs body = some data ∧ checksumOf libs token.hashKey data = .ok token.payloadChecksum := by
  unfold decryptPayload content
  cases decoded : libs.decodePayload body >>= Base64.decode with
  | none => simp [throw, throwThe, MonadExceptOf.throw]
  | some decodedBody =>
    cases decrypted : token.authCrypt.crypt.decrypt decodedBody with
    | none => simp [throw, throwThe, MonadExceptOf.throw, decrypted]
    | some decryptedBody =>
      simp only [Option.bind_eq_bind, Option.bind_some, decrypted, Option.some.injEq]
      cases summed : checksumOf libs token.hashKey decryptedBody with
      | error fault =>
        rw [bind_of_error rfl]
        constructor
        · intro ended
          cases ended
        · rintro ⟨rfl, ended⟩
          rw [summed] at ended
          cases ended
      | ok checksum =>
        rw [bind_of_ok rfl]
        by_cases same : checksum = token.payloadChecksum
        · simp only [same, ne_eq, not_true_eq_false, if_false]
          constructor
          · rintro ⟨⟩
            exact ⟨rfl, by rw [summed, same]⟩
          · rintro ⟨rfl, -⟩
            rfl
        · simp only [same, ne_eq, not_false_eq_true, if_true]
          constructor
          · intro ended
            cases ended
          · rintro ⟨rfl, ended⟩
            rw [summed] at ended
            exact absurd (Except.ok.inj ended) same

theorem AuthTokenCommon.decryptPayload_error {token : AuthTokenCommon} {body}
    (refused : ∀ data, token.content libs body = some data → checksumOf libs token.hashKey data ≠ .ok token.payloadChecksum) :
    ∃ fault, token.decryptPayload libs body = .error fault := by
  cases ended : token.decryptPayload libs body with
  | error fault => exact ⟨fault, rfl⟩
  | ok data =>
    obtain ⟨held, summed⟩ := decryptPayload_ok_iff.mp ended
    exact absurd summed (refused data held)

theorem hex_injective : Function.Injective (bytes.encode : Bytes → Bytes) := by
  intro first second same
  have decoded := congrArg bytes.decode same
  simpa using decoded

/-- The payload comes back from its body, another content is refused, and so is any
content by a token that holds another checksum. -/
structure Protected (libs : Libs) (token : AuthTokenCommon) (payload body : Bytes) : Prop where
  returned : token.decryptPayload libs body = .ok payload
  tampered : ∀ other, token.content libs other ≠ some payload → ∃ fault, token.decryptPayload libs other = .error fault
  mistaken : ∀ (holder : AuthTokenCommon) (other data : Bytes), holder.content libs other = some data →
    checksumOf libs holder.hashKey data ≠ .ok holder.payloadChecksum →
    ∃ fault, holder.decryptPayload libs other = .error fault

theorem checksumOf_ok {hashKey data checksum} (summed : checksumOf libs hashKey data = .ok checksum) :
    hashKey.length = 32 ∧ checksum = bytes.encode (libs.sum64 hashKey data) := by
  unfold checksumOf at summed
  by_cases size : hashKey.length = 32
  · rw [if_pos size] at summed
    exact ⟨size, (Except.ok.inj summed).symm⟩
  · rw [if_neg size] at summed
    cases summed

theorem AuthTokenCommon.encryptPayload_ok {sender sent : AuthTokenCommon} {payload body nonce}
    (encrypted : sender.encryptPayload libs nonce payload = .ok (sent, body)) : sender.hashKey.length = 32 ∧
      sent = { sender with payloadChecksum := bytes.encode (libs.sum64 sender.hashKey payload) } ∧
      body = libs.encodePayload (Base64.encode (sender.authCrypt.crypt.encrypt nonce payload)) := by
  have size : sender.hashKey.length = 32 := by
    cases summed : checksumOf libs sender.hashKey payload with
    | ok checksum => exact (checksumOf_ok summed).1
    | error fault =>
      rw [encryptPayload, bind_of_error summed] at encrypted
      cases encrypted
  rw [encryptPayload_eq libs size] at encrypted
  cases encrypted
  exact ⟨size, rfl, rfl⟩

theorem protected_of_shared (injective : ∀ hashKey, Function.Injective (libs.sum64 hashKey))
    {sender receiver sent : AuthTokenCommon} {payload body nonce}
    (encrypted : sender.encryptPayload libs nonce payload = .ok (sent, body))
    (crypt : receiver.authCrypt.crypt = sender.authCrypt.crypt) (hashKey : receiver.hashKey = sender.hashKey)
    (checksum : receiver.payloadChecksum = sent.payloadChecksum) : Protected libs receiver payload body := by
  obtain ⟨size, rfl, rfl⟩ := encryptPayload_ok encrypted
  have summed : checksumOf libs receiver.hashKey payload = .ok receiver.payloadChecksum := by
    rw [hashKey, checksum]
    exact if_pos size
  refine ⟨?_, ?_, ?_⟩
  · rw [decryptPayload_ok_iff]
    refine ⟨?_, summed⟩
    simp [content, libs.decode_encode, Base64.decode_encode, crypt]
  · intro other differs
    apply decryptPayload_error
    intro data held same
    -- equal checksums are those of equal data
    have equal : data = payload := by
      have first := (checksumOf_ok same).2
      have second := (checksumOf_ok summed).2
      exact injective _ (hex_injective (first.symm.trans second))
    exact differs (equal ▸ held)
  · intro holder other data held mistaken
    apply decryptPayload_error
    intro found same
    obtain rfl : data = found := Option.some.inj (held.symm.trans same)
    exact mistaken

/-! What a token takes over from the text of the other. -/

theorem splitOn_singleton {text : Bytes} (short : (text.splitOn bar).length ≤ 1) : text.splitOn bar = [text] := by
  have joined : [bar].intercalate (text.splitOn bar) = text := intercalate_splitOn bar
  cases pieces : text.splitOn bar with
  | nil => exact absurd pieces (splitOn_ne_nil _ _)
  | cons piece rest =>
    rw [pieces, length_cons] at short
    obtain rfl : rest = [] := eq_nil_of_length_eq_zero (by omega)
    rw [pieces] at joined
    simpa using joined

theorem splitOn_exact {fields} {last : Bytes}
    (count : ((fields.flatMap (· ++ [bar]) ++ last).splitOn bar).length = fields.length + 1) :
    (fields.flatMap (· ++ [bar]) ++ last).splitOn bar = fields ++ [last] := by
  rw [Text.splitOn_flatMap] at count ⊢
  induction fields with
  | nil => exact splitOn_singleton (Nat.le_of_eq count)
  | cons field fields ih =>
    have positive := Text.length_splitOn_pos bar field
    have lastPositive := Text.length_splitOn_pos bar last
    have others := Text.length_flatMap_splitOn bar fields
    rw [flatMap_cons, append_assoc, length_append, length_append, length_cons] at count
    rw [flatMap_cons, append_assoc, splitOn_singleton (by omega), ih (by rw [length_append]; omega)]
    rfl

theorem RequestAuthToken.text_eq (token : RequestAuthToken) :
    token.authCrypt.authTokenKey ++ [bar] ++ bytes.encode token.hashKey ++ [bar] ++ token.transportDataChecksum ++
        [bar] ++ token.payloadChecksum =
      [token.authCrypt.authTokenKey, bytes.encode token.hashKey, token.transportDataChecksum].flatMap (· ++ [bar]) ++
        token.payloadChecksum := by
  simp

theorem ResponseAuthToken.text_eq (token : ResponseAuthToken) :
    token.authCrypt.authTokenKey ++ [bar] ++ token.transportDataChecksum ++ [bar] ++ token.payloadChecksum =
      [token.authCrypt.authTokenKey, token.transportDataChecksum].flatMap (· ++ [bar]) ++ token.payloadChecksum := by
  simp

theorem ResponseAuthToken.takes {client : RequestAuthToken} {server server' : ResponseAuthToken}
    {nonce encryptedToken} (crypt : server.authCrypt.crypt = client.authCrypt.crypt)
    (asked : client.getEncryptedToken nonce = .ok encryptedToken)
    (taken : server.setEncryptedToken encryptedToken = (server', none)) :
    server'.authCrypt = server.authCrypt ∧ server'.hashKey = client.hashKey ∧
      server'.payloadChecksum = client.payloadChecksum := by
  unfold RequestAuthToken.getEncryptedToken at asked
  by_cases authenticated : client.authCrypt.isAuthenticated = true
  · rw [if_pos authenticated, Except.ok.injEq, RequestAuthToken.text_eq] at asked
    subst asked
    simp only [setEncryptedToken, crypt, Crypt.decryptB64_encryptB64] at taken
    split at taken
    · rename_i key hexKey transportDataChecksum payloadChecksum pieces
      rw [splitOn_exact (by rw [pieces]; rfl)] at pieces
      simp only [cons_append, nil_append, List.cons.injEq, and_true] at pieces
      obtain ⟨rfl, rfl, rfl, rfl⟩ := pieces
      rw [decode_encode] at taken
      split at taken
      · simp only [Prod.mk.injEq, and_true] at taken
        subst taken
        exact ⟨rfl, rfl, rfl⟩
      · cases taken
    · cases taken
  · rw [if_neg authenticated] at asked
    cases asked

theorem RequestAuthToken.takes {client client' : RequestAuthToken} {server : ResponseAuthToken}
    {nonce encryptedToken} (crypt : client.authCrypt.crypt = server.authCrypt.crypt)
    (answered : server.getEncryptedToken nonce = .ok encryptedToken)
    (taken : client.setEncryptedToken encryptedToken = (client', none)) :
    client'.authCrypt = client.authCrypt ∧ client'.hashKey = client.hashKey ∧
      client'.payloadChecksum = server.payloadChecksum := by
  unfold ResponseAuthToken.getEncryptedToken at answered
  by_cases authenticated : server.authCrypt.isAuthenticated = true
  · rw [if_pos authenticated, Except.ok.injEq, ResponseAuthToken.text_eq] at answered
    subst answered
    simp only [setEncryptedToken, crypt, Crypt.decryptB64_encryptB64] at taken
    split at taken
    · rename_i key transportDataChecksum payloadChecksum pieces
      rw [splitOn_exact (by rw [pieces]; rfl)] at pieces
      simp only [cons_append, nil_append, List.cons.injEq, and_true] at pieces
      obtain ⟨rfl, rfl, rfl⟩ := pieces
      split at taken
      · simp only [Prod.mk.injEq, and_true] at taken
        subst taken
        exact ⟨rfl, rfl, rfl⟩
      · cases taken
    · cases taken
  · rw [if_neg authenticated] at answered
    cases answered

/-- A payload the client encrypts is protected at the server that took over its token, and
a payload this server then encrypts is protected at the client that takes over its token. -/
theorem payload_protected (injective : ∀ hashKey, Function.Injective (libs.sum64 hashKey)) {client : RequestAuthToken}
    {server server' : ResponseAuthToken} (crypt : server.authCrypt.crypt = client.authCrypt.crypt)
    {payload body : Bytes} {sent : AuthTokenCommon} {nonce tokenNonce : Nonce} {encryptedToken : Bytes} :
    (client.encryptPayload libs nonce payload = .ok (sent, body) →
      (⟨sent⟩ : RequestAuthToken).getEncryptedToken tokenNonce = .ok encryptedToken →
      server.setEncryptedToken encryptedToken = (server', none) →
      Protected libs server'.toAuthTokenCommon payload body) ∧
    (∀ {requestToken : Bytes} {requestNonce : Nonce} {client' : RequestAuthToken},
      client.getEncryptedToken requestNonce = .ok requestToken →
      server.setEncryptedToken requestToken = (server', none) →
      server'.encryptPayload libs nonce payload = .ok (sent, body) →
      (⟨sent⟩ : ResponseAuthToken).getEncryptedToken tokenNonce = .ok encryptedToken →
      client.setEncryptedToken encryptedToken = (client', none) →
      Protected libs client'.toAuthTokenCommon payload body) := by
  constructor
  · intro encrypted asked taken
    obtain ⟨-, same, -⟩ := encryptPayload_ok encrypted
    obtain ⟨sameCrypt, sameKey, sameSum⟩ := @takes ⟨sent⟩ server server' _ _ (by rw [same]; exact crypt) asked taken
    exact protected_of_shared injective encrypted (by rw [sameCrypt]; exact crypt) (by rw [sameKey, same]) sameSum
  · intro requestToken requestNonce client' asked taken encrypted answered settled
    obtain ⟨serverCrypt, serverKey, -⟩ := takes crypt asked taken
    obtain ⟨-, same, -⟩ := encryptPayload_ok encrypted
    have shared : client.authCrypt.crypt = server'.authCrypt.crypt := by rw [serverCrypt, crypt]
    obtain ⟨sameCrypt, sameKey, sameSum⟩ := @takes client client' ⟨sent⟩ _ _ (by rw [same]; exact shared)
      answered settled
    exact protected_of_shared injective encrypted (by rw [sameCrypt, shared]) (by rw [sameKey, serverKey]) sameSum

def pairedSums (hashKey data : Bytes) : Bytes := hashKey ++ data

def plainClient : RequestAuthToken := new ⟨true, textBytes "key", flipCrypt⟩ stepKey

def plainServer : ResponseAuthToken := new ⟨true, textBytes "key", flipCrypt⟩

def greeting : Bytes := textBytes "hello"

def greetingSent : AuthTokenCommon :=
  { plainClient.toAuthTokenCommon with payloadChecksum := bytes.encode (pairedSums stepKey.val greeting) }

theorem payload_protected_greeting : ∃ (server : ResponseAuthToken) (client : RequestAuthToken) (body reply : Bytes),
    Protected (payloadLibs pairedSums) server.toAuthTokenCommon greeting body ∧
      Protected (payloadLibs pairedSums) client.toAuthTokenCommon greeting reply := by
  have injective : ∀ hashKey, Function.Injective ((payloadLibs pairedSums).sum64 hashKey) := fun hashKey _ _ same =>
    append_cancel_left same
  have encrypted := encryptPayload_eq (payloadLibs pairedSums) (show plainClient.hashKey.length = 32 by decide)
    zeroNonce greeting
  obtain ⟨first, told, heard⟩ := @heard ⟨greetingSent⟩ rfl (by decide) (by decide) (bar_notMem_hex _) zeroNonce
  obtain ⟨asking, asked, taken⟩ := @RequestAuthToken.heard plainClient rfl (by decide) (by decide) (by decide) zeroNonce
  obtain ⟨second, answered, settled⟩ := @ResponseAuthToken.heard ⟨greetingSent⟩ plainClient rfl rfl (by decide) (by decide)
    (bar_notMem_hex _) zeroNonce
  exact ⟨_, _, _, _,
    (@payload_protected _ injective plainClient plainServer _ rfl greeting _ _ zeroNonce zeroNonce first).1 encrypted told heard,
    (@payload_protected _ injective plainClient plainServer _ rfl greeting _ _ zeroNonce zeroNonce second).2 asked taken encrypted
      answered settled⟩

end MycsCommon.Rest
