import MycsCommon.Proofs.SignedData

/-! A request and its reply pass between the two tokens. Each side may encrypt a payload,
then signs what it sends; the other side takes over the token and validates. -/

namespace MycsCommon.Rest
open Network Library List AuthTokenCommon Crypt RequestAuthToken ResponseAuthToken

@[simp] theorem Crypt.decrypt_encrypt (crypt : Crypt) (nonce : Nonce) (plainData : Bytes) :
    crypt.decrypt (crypt.encrypt nonce plainData) = some plainData := by
  have size : (crypt.encrypt nonce plainData).length = 12 + (crypt.gcmSeal nonce.val plainData).length := by
    rw [encrypt, length_append, nonce.property]
  rw [decrypt, if_neg (by omega), encrypt, take_left' nonce.property, drop_left' nonce.property,
    crypt.gcmOpen_gcmSeal]

@[simp] theorem Crypt.decryptB64_encryptB64 (crypt : Crypt) (nonce : Nonce) (plainData : Bytes) :
    crypt.decryptB64 (crypt.encryptB64 nonce plainData) = some plainData := by
  simp [decryptB64, encryptB64, Base64.decode_encode]

theorem splitOn_fields {fields} {last} (plain : ∀ field ∈ fields, bar ∉ field) (plainLast : bar ∉ last) :
    (fields.flatMap (· ++ [bar]) ++ last).splitOn bar = fields ++ [last] := by
  rw [Text.splitOn_fields plain, Text.splitOn_of_notMem plainLast]

theorem bar_notMem_transportChecksum (libs : Libs) (hashKey : Bytes) {keys} (value : Bytes → Bytes)
    (plain : ∀ key ∈ keys, bar ∉ key) : bar ∉ transportChecksum libs hashKey keys value := by
  intro member
  rcases mem_append.mp member with named | hash
  · obtain ⟨key, signed, inside⟩ := mem_flatMap.mp named
    rcases mem_append.mp inside with within | separator
    · exact plain key signed within
    · exact absurd separator (by decide)
  · exact bar_notMem_hex _ hash

theorem RequestAuthToken.heard {token : RequestAuthToken} (authenticated : token.authCrypt.isAuthenticated)
    (plainKey : bar ∉ token.authCrypt.authTokenKey) (plainTransport : bar ∉ token.transportDataChecksum)
    (plainPayload : bar ∉ token.payloadChecksum) (nonce : Nonce) :
    ∃ encryptedToken, token.getEncryptedToken nonce = .ok encryptedToken ∧
      (ResponseAuthToken.new token.authCrypt).setEncryptedToken encryptedToken = (⟨token.toAuthTokenCommon⟩, none) := by
  have fields : (token.authCrypt.authTokenKey ++ [bar] ++ Hex.bytes.encode token.hashKey ++ [bar] ++
      token.transportDataChecksum ++ [bar] ++ token.payloadChecksum).splitOn bar = [token.authCrypt.authTokenKey,
        Hex.bytes.encode token.hashKey, token.transportDataChecksum, token.payloadChecksum] := by
    simpa using @splitOn_fields [token.authCrypt.authTokenKey, Hex.bytes.encode token.hashKey, token.transportDataChecksum]
      token.payloadChecksum (by simp [plainKey, plainTransport, bar_notMem_hex]) plainPayload
  refine ⟨_, if_pos authenticated, ?_⟩
  simp only [ResponseAuthToken.setEncryptedToken, ResponseAuthToken.new, Crypt.decryptB64_encryptB64, fields, if_true,
    Hex.decode_encode]

theorem ResponseAuthToken.heard {token : ResponseAuthToken} {client : RequestAuthToken} (shared : client.authCrypt = token.authCrypt)
    (authenticated : token.authCrypt.isAuthenticated) (plainKey : bar ∉ token.authCrypt.authTokenKey)
    (plainTransport : bar ∉ token.transportDataChecksum) (plainPayload : bar ∉ token.payloadChecksum) (nonce : Nonce) :
    ∃ encryptedToken, token.getEncryptedToken nonce = .ok encryptedToken ∧
      client.setEncryptedToken encryptedToken = ({ client with
        transportDataChecksum := token.transportDataChecksum, payloadChecksum := token.payloadChecksum }, none) := by
  have fields : (token.authCrypt.authTokenKey ++ [bar] ++ token.transportDataChecksum ++ [bar] ++
      token.payloadChecksum).splitOn bar =
        [token.authCrypt.authTokenKey, token.transportDataChecksum, token.payloadChecksum] := by
    simpa using @splitOn_fields [token.authCrypt.authTokenKey, token.transportDataChecksum] token.payloadChecksum
      (by simp [plainKey, plainTransport]) plainPayload
  refine ⟨_, if_pos authenticated, ?_⟩
  simp only [RequestAuthToken.setEncryptedToken, shared, Crypt.decryptB64_encryptB64, fields, if_true]

variable (libs : Libs)

theorem RequestAuthToken.signTransportData_eq {token : RequestAuthToken} (size : token.hashKey.length = 32) (keys : List Bytes)
    (request : Request) : token.signTransportData libs keys request =
      if Panics request.body keys then .error .nilBody
      else .ok ({ token with transportDataChecksum := transportChecksum libs token.hashKey keys request.value }, request) := by
  rw [signTransportData, request.reads.signData libs size]
  split_ifs <;> rfl

theorem ResponseAuthToken.signTransportData_eq {token : ResponseAuthToken} (size : token.hashKey.length = 32) (keys : List Bytes)
    (response : Response) : token.signTransportData libs keys response =
      if Panics response.body keys then .error .nilBody
      else .ok ({ token with transportDataChecksum := transportChecksum libs token.hashKey keys response.value }, response) := by
  rw [signTransportData, response.reads.signData libs size]
  split_ifs <;> rfl

/-- What one side signs, and the payload it encrypts before, if any. -/
structure Side where
  keys : List Bytes
  payload : Option Bytes
  payloadNonce : Nonce
  tokenNonce : Nonce

def AuthTokenCommon.withPayload (token : AuthTokenCommon) (side : Side) : Except Fault AuthTokenCommon :=
  match side.payload with
  | none => .ok token
  | some payload => do
    let (token, _) ← token.encryptPayload libs side.payloadNonce payload
    return token

def Side.payloadChecksum (side : Side) (hashKey held : Bytes) : Bytes :=
  match side.payload with
  | none => held
  | some payload => Hex.bytes.encode (libs.sum64 hashKey payload)

theorem AuthTokenCommon.encryptPayload_eq {token : AuthTokenCommon} (size : token.hashKey.length = 32) (nonce : Nonce)
    (payload : Bytes) : token.encryptPayload libs nonce payload =
      .ok ({ token with payloadChecksum := Hex.bytes.encode (libs.sum64 token.hashKey payload) },
        libs.encodePayload (Base64.encode (token.authCrypt.crypt.encrypt nonce payload))) :=
  bind_of_ok (if_pos size)

theorem AuthTokenCommon.withPayload_eq {token : AuthTokenCommon} (size : token.hashKey.length = 32) (side : Side) :
    token.withPayload libs side =
      .ok { token with payloadChecksum := side.payloadChecksum libs token.hashKey token.payloadChecksum } := by
  unfold withPayload Side.payloadChecksum
  cases side.payload with
  | none => rfl
  | some payload => exact bind_of_ok (encryptPayload_eq libs size _ _)

theorem bar_notMem_payloadChecksum (side : Side) (hashKey : Bytes) {held} (plain : bar ∉ held) :
    bar ∉ side.payloadChecksum libs hashKey held := by
  unfold Side.payloadChecksum
  cases side.payload with
  | none => exact plain
  | some payload => exact bar_notMem_hex _

/-- The tokens and the data after each step: as signed and as heard by the other side. -/
structure Exchange where
  asked : RequestAuthToken
  heard : ResponseAuthToken
  answered : ResponseAuthToken
  settled : RequestAuthToken
  signedRequest : Request
  heardRequest : Request
  signedReply : Response
  heardReply : Response

def succeeds {α : Type} : α × Option RestError → Except Fault α
  | (token, none) => .ok token
  | (_, some error) => .error (.error error)

def exchange (authCrypt : AuthCrypt) (hashKey : HashKey) (asking answering : Side) (request : Request) (reply : Response) :
    Except Fault Exchange := do
  let prepared ← (new authCrypt hashKey).toAuthTokenCommon.withPayload libs asking
  let (asked, signedRequest) ← signTransportData libs ⟨prepared⟩ asking.keys request
  let requestToken ← asked.getEncryptedToken asking.tokenNonce
  let heard ← succeeds ((ResponseAuthToken.new authCrypt).setEncryptedToken requestToken)
  let heardRequest ← heard.validateTransportData libs signedRequest
  let prepared ← heard.toAuthTokenCommon.withPayload libs answering
  let (answered, signedReply) ← signTransportData libs ⟨prepared⟩ answering.keys reply
  let responseToken ← answered.getEncryptedToken answering.tokenNonce
  let settled ← succeeds (asked.setEncryptedToken responseToken)
  let heardReply ← settled.validateTransportData libs signedReply
  return { asked, heard, answered, settled, signedRequest, heardRequest, signedReply, heardReply }

/-- Each side holds what the other one sent, and both bodies can be read as before. -/
structure Exchange.Faithful (run : Exchange) (request : Request) (reply : Response) : Prop where
  heard : run.heard.toAuthTokenCommon = run.asked.toAuthTokenCommon
  settled : run.settled.toAuthTokenCommon = run.answered.toAuthTokenCommon
  signedRequest : run.signedRequest = request
  heardRequest : run.heardRequest = request
  signedReply : run.signedReply = reply
  heardReply : run.heardReply = reply

section Exchange
variable {authCrypt : AuthCrypt} (authenticated : authCrypt.isAuthenticated) (plainKey : bar ∉ authCrypt.authTokenKey)
  (hashKey : HashKey) {asking answering : Side} (plainAsking : ∀ key ∈ asking.keys, bar ∉ key ∧ tilde ∉ key)
  (plainAnswering : ∀ key ∈ answering.keys, bar ∉ key ∧ tilde ∉ key) (request : Request) (reply : Response)
include authenticated plainKey plainAsking plainAnswering

private theorem exchange_eq : ∃ run : Exchange, run.Faithful request reply ∧
    exchange libs authCrypt hashKey asking answering request reply =
      if Panics request.body asking.keys ∨ Panics reply.body answering.keys then .error .nilBody else .ok run := by
  let sent : AuthTokenCommon := ⟨authCrypt, hashKey.val, transportChecksum libs hashKey.val asking.keys request.value,
    asking.payloadChecksum libs hashKey.val []⟩
  let back : AuthTokenCommon := ⟨authCrypt, hashKey.val, transportChecksum libs hashKey.val answering.keys reply.value,
    answering.payloadChecksum libs hashKey.val sent.payloadChecksum⟩
  have plainSent : bar ∉ sent.payloadChecksum := bar_notMem_payloadChecksum libs asking _ (by simp)
  obtain ⟨requestToken, asks, hears⟩ := @heard ⟨sent⟩ authenticated plainKey
    (bar_notMem_transportChecksum libs _ _ fun key member => (plainAsking key member).1) plainSent asking.tokenNonce
  obtain ⟨responseToken, answers, settles⟩ := @heard ⟨back⟩ ⟨sent⟩ rfl authenticated plainKey
    (bar_notMem_transportChecksum libs _ _ fun key member => (plainAnswering key member).1)
    (bar_notMem_payloadChecksum libs answering _ plainSent) answering.tokenNonce
  have signs := @signTransportData_eq libs
    ⟨⟨authCrypt, hashKey.val, [], sent.payloadChecksum⟩⟩ hashKey.property asking.keys request
  have signsReply := @signTransportData_eq libs
    ⟨⟨authCrypt, hashKey.val, sent.transportDataChecksum, back.payloadChecksum⟩⟩ hashKey.property answering.keys reply
  refine ⟨⟨⟨sent⟩, ⟨sent⟩, ⟨back⟩, ⟨back⟩, request, request, reply, reply⟩, ⟨rfl, rfl, rfl, rfl, rfl, rfl⟩, ?_⟩
  refine (bind_of_ok (withPayload_eq libs hashKey.property asking)).trans ?_
  by_cases first : Panics request.body asking.keys
  · rw [if_pos first] at signs
    rw [if_pos (.inl first)]
    exact bind_of_error signs
  rw [if_neg first] at signs
  have validated : validateTransportData libs ⟨sent⟩ request = .ok request :=
    request.reads.validateData_signed libs hashKey.property _ (fun key member => (plainAsking key member).2) first
  refine (bind_of_ok signs).trans <| (bind_of_ok asks).trans <| (bind_of_ok (congrArg succeeds hears)).trans <|
    (bind_of_ok validated).trans <| (bind_of_ok (withPayload_eq libs hashKey.property answering)).trans ?_
  by_cases second : Panics reply.body answering.keys
  · rw [if_pos second] at signsReply
    rw [if_pos (.inr second)]
    exact bind_of_error signsReply
  rw [if_neg second] at signsReply
  rw [if_neg (not_or.mpr ⟨first, second⟩)]
  have validatedReply : validateTransportData libs ⟨back⟩ reply = .ok reply :=
    reply.reads.validateData_signed libs hashKey.property _ (fun key member => (plainAnswering key member).2) second
  exact (bind_of_ok signsReply).trans <| (bind_of_ok answers).trans <| (bind_of_ok (congrArg succeeds settles)).trans <|
    bind_of_ok validatedReply

end Exchange

theorem exchange_faithful_iff {authCrypt : AuthCrypt} (authenticated : authCrypt.isAuthenticated)
    (plainKey : bar ∉ authCrypt.authTokenKey) (hashKey : HashKey) {asking answering : Side}
    (plainAsking : ∀ key ∈ asking.keys, bar ∉ key ∧ tilde ∉ key)
    (plainAnswering : ∀ key ∈ answering.keys, bar ∉ key ∧ tilde ∉ key) (request : Request) (reply : Response) :
    (∃ run, exchange libs authCrypt hashKey asking answering request reply = .ok run ∧ run.Faithful request reply) ↔
      (textBytes "body" ∈ asking.keys → request.body ≠ none) ∧ (textBytes "body" ∈ answering.keys → reply.body ≠ none) := by
  obtain ⟨run, faithful, result⟩ :=
    exchange_eq libs authenticated plainKey hashKey plainAsking plainAnswering request reply
  rw [result, ← not_and, ← not_and]
  constructor
  · intro ⟨ended, returned, _⟩
    rw [← not_or]
    intro (panics : Panics _ _ ∨ Panics _ _)
    rw [if_pos panics] at returned
    cases returned
  · intro readable
    exact ⟨run, if_neg (not_or.mpr readable), faithful⟩

def signedSums (_ data : Bytes) : Bytes :=
  if data = textBytes "/p7\x7b\x7d" then [192, 1, 142, 220, 46, 19, 159, 37]
  else if data = textBytes "ok" then [193, 180, 28, 152, 221, 74, 60, 22] else []

def payloadLibs (sum64 : Bytes → Bytes → Bytes) : Libs where
  sum64 := sum64
  encodePayload payload := textBytes "\x7b\"payload\":\"" ++ payload ++ textBytes "\"\x7d\n"
  decodePayload body := some ((body.drop 12).take (body.length - 15))
  decode_encode payload := by
    have before : (textBytes "\x7b\"payload\":\"").length = 12 := by decide
    have after : (textBytes "\"\x7d\n").length = 3 := by decide
    rw [append_assoc, drop_left' before, length_append, length_append, before, after,
      take_left' (by omega)]

def flipCrypt : Crypt where
  gcmSeal _ := List.map (· ^^^ 90)
  gcmOpen _ cipherData := some (cipherData.map (· ^^^ 90))
  gcmOpen_gcmSeal _ plainData := by
    simp only [map_map, Function.comp_def, UInt8.xor_assoc, UInt8.xor_self, UInt8.xor_zero, map_id_fun', id_eq]

def zeroNonce : Nonce := ⟨List.replicate 12 0, rfl⟩

def stepKey : HashKey := ⟨(List.range 32).map fun index => UInt8.ofNat (8 * index), by decide⟩

def getRequest (body : Body) : Request where
  url := { escapedPath := textBytes "/p" }
  header := fun key => if key = textBytes "X-Id" then [textBytes "7"] else []
  body := body

theorem exchange_faithful_with_bodies : ∃ run : Exchange, exchange (payloadLibs signedSums) ⟨true, textBytes "key", flipCrypt⟩
      stepKey ⟨[textBytes "url", textBytes "x-id", textBytes "body"], none, zeroNonce, zeroNonce⟩
      ⟨[textBytes "body"], none, zeroNonce, zeroNonce⟩ (getRequest (some (textBytes "\x7b\x7d")))
      ⟨fun _ => [], some (textBytes "ok")⟩ = .ok run ∧
    run.Faithful (getRequest (some (textBytes "\x7b\x7d"))) ⟨fun _ => [], some (textBytes "ok")⟩ :=
  (exchange_faithful_iff _ rfl (by decide) _ (by decide) (by decide) _ _).mpr (by decide)

/-- The body of a request without one cannot be signed. -/
theorem exchange_nil_body : exchange (payloadLibs signedSums) ⟨true, textBytes "key", flipCrypt⟩ stepKey
      ⟨[textBytes "url", textBytes "body"], none, zeroNonce, zeroNonce⟩ ⟨[textBytes "body"], none, zeroNonce, zeroNonce⟩
      (getRequest none) ⟨fun _ => [], some (textBytes "ok")⟩ = .error .nilBody := by
  obtain ⟨run, -, result⟩ := @exchange_eq (payloadLibs signedSums) ⟨true, textBytes "key", flipCrypt⟩ rfl (by decide) stepKey
    ⟨[textBytes "url", textBytes "body"], none, zeroNonce, zeroNonce⟩ ⟨[textBytes "body"], none, zeroNonce, zeroNonce⟩
    (by decide) (by decide) (getRequest none) ⟨fun _ => [], some (textBytes "ok")⟩
  exact result.trans (if_pos (by decide))

end MycsCommon.Rest
