import MycsCommon.Mycsnode.ApiRequest
import MycsCommon.Proofs.AuthState
import MycsCommon.Proofs.RequestSigning

/-! How a request ends on a client that holds no key. A client with a key does what
`RestRequest.send` says; without one it depends on which operation of the token comes first. -/

namespace MycsCommon.Mycsnode
open Network Library Rest ApiRequest AuthView Except RequestAuthToken RestApiClient RestRequest

variable {libs : Libs} {urls : UrlLib} {request : ApiRequest} {url : Bytes} {view : AuthView} {trace : Bool}

theorem fromRest_ok {α : Type} (value : α) : fromRest (.ok value) = .ok value := rfl

/-! A client with a key. -/

section
variable {crypt : Crypt} (keyed : view.crypt = some crypt)
include keyed

theorem AuthView.encrypt_keyed (nonce : Nonce) (plainData : Bytes) :
    view.encrypt (some nonce) plainData = .ok (crypt.encrypt nonce plainData) := by
  rw [encrypt, keyed]
  rfl

theorem AuthView.getEncryptedToken_keyed (hashKey : HashKey) (transportDataChecksum payloadChecksum : Bytes) (nonce : Nonce) :
    view.getEncryptedToken hashKey transportDataChecksum payloadChecksum (some nonce) =
      fromRest (RequestAuthToken.getEncryptedToken
        ⟨⟨⟨view.isAuthenticated, view.authTokenKey, crypt⟩, hashKey.val, transportDataChecksum, payloadChecksum⟩⟩ nonce) := by
  unfold AuthView.getEncryptedToken RequestAuthToken.getEncryptedToken
  simp only [AuthView.encrypt_keyed keyed]
  split <;> rfl

theorem AuthView.reader_keyed (hashKey : HashKey) (nonce tokenNonce : Nonce) (payload : Option Bytes) :
    ∃ payloadChecksum body, view.reader libs hashKey (some nonce) payload = .ok (payloadChecksum, body) ∧
      (request.rest payload).reader libs ⟨hashKey, nonce, tokenNonce⟩
          (some (.new ⟨view.isAuthenticated, view.authTokenKey, crypt⟩ hashKey)) =
        .ok (some ⟨⟨⟨view.isAuthenticated, view.authTokenKey, crypt⟩, hashKey.val, [], payloadChecksum⟩⟩, body) := by
  have summed : ∀ data, checksumOf libs hashKey.val data = .ok (Hex.bytes.encode (libs.sum64 hashKey.val data)) := fun _ =>
    if_pos hashKey.property
  cases payload with
  | none => exact ⟨[], none, rfl, rfl⟩
  | some payload =>
    refine ⟨Hex.bytes.encode (libs.sum64 hashKey.val payload), some (libs.encodePayload (Base64.encode (crypt.encrypt nonce payload))), ?_, ?_⟩
    · rw [reader, encryptPayload, summed, encrypt_keyed keyed]
      rfl
    · exact bind_of_ok (AuthTokenCommon.encryptPayload_eq libs hashKey.property nonce payload)

theorem ApiRequest.authorize_keyed (hashKey : HashKey) (payloadNonce tokenNonce : Nonce) (payloadChecksum : Bytes)
    (payload : Option Bytes) (httpRequest : Request) :
    request.authorize libs view hashKey payloadChecksum (some tokenNonce) httpRequest = fromRest (do
      let (_, signed) ← (request.rest payload).authorize libs ⟨hashKey, payloadNonce, tokenNonce⟩ httpRequest
        (some ⟨⟨⟨view.isAuthenticated, view.authTokenKey, crypt⟩, hashKey.val, [], payloadChecksum⟩⟩)
      return signed) := by
  unfold ApiRequest.authorize RestRequest.authorize RequestAuthToken.signTransportData
  simp only [AuthView.getEncryptedToken_keyed keyed, show (request.rest payload).keysToSign = (request.rest none).keysToSign from rfl]
  cases signData libs Request.read hashKey.val (request.rest none).keysToSign httpRequest with
  | error fault => rfl
  | ok signed =>
    simp only [fromRest_ok, bind, Except.bind, pure, Except.pure]
    cases RequestAuthToken.getEncryptedToken
      ⟨⟨⟨view.isAuthenticated, view.authTokenKey, crypt⟩, hashKey.val, signed.1, payloadChecksum⟩⟩ tokenNonce <;> rfl

theorem ApiRequest.send_keyed (hashKey : HashKey) (payloadNonce tokenNonce : Nonce) {payload}
    (read : request.payload trace = .ok payload) :
    request.send libs urls url view trace ⟨some hashKey, some payloadNonce, some tokenNonce⟩ =
      fromRest (do
        let sent ← (request.rest payload).send libs urls ⟨url, some ⟨view.isAuthenticated, view.authTokenKey, crypt⟩⟩
          ⟨hashKey, payloadNonce, tokenNonce⟩ request.method
        return (sent.method, sent.httpRequest)) := by
  obtain ⟨payloadChecksum, body, mine, theirs⟩ :=
    @AuthView.reader_keyed libs request view crypt keyed hashKey payloadNonce tokenNonce payload
  unfold ApiRequest.send RestRequest.send
  simp only [drawn, read, Option.map_some, theirs, bind, Except.bind, mine]
  rw [show RestApiClient.requestUrl ⟨url, some ⟨view.isAuthenticated, view.authTokenKey, crypt⟩⟩ (request.rest payload).path =
    (RestApiClient.mk url none).requestUrl request.path from rfl]
  cases urls.parse ((RestApiClient.mk url none).requestUrl request.path) with
  | none => rfl
  | some parsed =>
    have signed := @ApiRequest.authorize_keyed libs request view crypt keyed hashKey payloadNonce tokenNonce payloadChecksum payload
      { url := parsed, header := (request.rest none).header, body }
    simp only [signed, show (request.rest payload).header = (request.rest none).header from rfl]
    cases (request.rest payload).authorize libs ⟨hashKey, payloadNonce, tokenNonce⟩
      { url := parsed, header := (request.rest none).header, body }
      (some ⟨⟨⟨view.isAuthenticated, view.authTokenKey, crypt⟩, hashKey.val, [], payloadChecksum⟩⟩) <;> rfl

end

/-! A client without one. -/

theorem keyless_unauthenticated {ECDHKey PublicKey : Type} {deps : AuthDeps ECDHKey PublicKey} {identity} {calls}
    (keyless : (sessionAfter deps identity calls).crypt = none) (now : Int) :
    (sessionAfter deps identity calls).isAuthenticatedAt now = false := by
  by_contra authenticated
  obtain ⟨attempt, agreement, backed, -⟩ :=
    isAuthenticated_sound deps identity calls now (Bool.not_eq_false _ ▸ authenticated)
  obtain ⟨crypt, -, held⟩ := backed.crypt
  cases held.symm.trans keyless

section
variable (keyless : view.crypt = none)
include keyless

theorem AuthView.reader_keyless (hashKey : HashKey) (nonce : Option Nonce) (payload : Bytes) :
    view.reader libs hashKey nonce (some payload) = .error .nilCrypt := by
  rw [reader, encryptPayload, checksumOf, if_pos hashKey.property, encrypt, keyless]
  rfl

omit keyless in
theorem ApiRequest.authorize_unauthenticated (unauthenticated : view.isAuthenticated = false) (hashKey : HashKey)
    (payloadChecksum : Bytes) (nonce : Option Nonce) (httpRequest : Request) :
    request.authorize libs view hashKey payloadChecksum nonce httpRequest =
      if Panics httpRequest.body (request.rest none).keysToSign then .error .nilBody
      else .error (.error (.rest .notAuthenticated)) := by
  rw [authorize, httpRequest.reads.signData libs hashKey.property]
  simp only [AuthView.getEncryptedToken, unauthenticated]
  split <;> rfl

end

theorem panics_iff (request : ApiRequest) :
    Panics none (request.rest none).keysToSign ↔ textBytes "body" ∈ request.headers.map Prod.fst := by
  have other : textBytes "body" ≠ textBytes "url" := by decide
  simp [Panics, keysToSign, rest, other]

def ApiRequest.keylessEnd (urls : UrlLib) (request : ApiRequest) (url : Bytes) (trace : Bool) (draws : DoDraws) : DoFault :=
  match draws.hashKey, request.body with
  | none, _ => .error .random
  | some _, some text => if text.isNone && trace then .error .marshal else .nilCrypt
  | some _, none =>
    if (urls.parse ((RestApiClient.mk url none).requestUrl request.path)).isNone then .error (.rest .url)
    else if (request.headers.map Prod.fst).contains (textBytes "body") then .nilBody
    else .error (.rest .notAuthenticated)

theorem ApiRequest.send_keyless (keyless : view.crypt = none) (unauthenticated : view.isAuthenticated = false) (draws : DoDraws) :
    request.send libs urls url view trace draws = .error (request.keylessEnd urls url trace draws) := by
  obtain ⟨hashKey, payloadNonce, -⟩ := draws
  unfold send keylessEnd
  cases hashKey with
  | none => rfl
  | some hashKey =>
    cases given : request.body with
    | some text =>
      -- either the text cannot be had, or the payload is encrypted
      have reads : ∀ payload, view.reader libs hashKey payloadNonce (some payload) = .error .nilCrypt :=
        AuthView.reader_keyless keyless hashKey payloadNonce
      cases text <;> cases trace <;> simp [drawn, ApiRequest.payload, given, reads, bind, Except.bind]
    | none =>
      simp only [drawn, ApiRequest.payload, given, AuthView.reader, bind, Except.bind]
      cases urls.parse ((RestApiClient.mk url none).requestUrl request.path) with
      | none => rfl
      | some parsed =>
        simp only [authorize_unauthenticated unauthenticated, panics_iff, Option.isNone_some, Bool.false_eq_true, if_false,
          List.contains_iff_mem]
        by_cases asked : textBytes "body" ∈ request.headers.map Prod.fst <;> simp [asked]

/-- The call ends before it needs a key: no random numbers, a body that cannot be marshalled for
the trace log, a URL that cannot be parsed; or there is no body and no header asks for it. -/
def ApiRequest.Harmless (urls : UrlLib) (request : ApiRequest) (url : Bytes) (trace : Bool) (draws : DoDraws) : Prop :=
  draws.hashKey = none ∨
    match request.body with
    | some text => text = none ∧ trace = true
    | none => urls.parse ((RestApiClient.mk url none).requestUrl request.path) = none ∨
      textBytes "body" ∉ request.headers.map Prod.fst

theorem ApiRequest.keylessEnd_iff (request : ApiRequest) (draws : DoDraws) :
    (∃ error, request.keylessEnd urls url trace draws = .error error) ↔ request.Harmless urls url trace draws := by
  unfold keylessEnd Harmless
  cases draws.hashKey with
  | none => simp
  | some hashKey =>
    cases request.body with
    | some text => cases text <;> cases trace <;> simp
    | none =>
      simp only [reduceCtorEq, false_or]
      cases urls.parse ((RestApiClient.mk url none).requestUrl request.path) with
      | none => simp
      | some parsed =>
        simp only [Option.isNone_some, Bool.false_eq_true, if_false, List.contains_iff_mem]
        by_cases asked : textBytes "body" ∈ request.headers.map Prod.fst <;> simp [asked]

/-- A client without a key returns an error, and sends nothing, for exactly these requests;
else it panics, for a body on the nil crypt and for a header `body` on the nil body. -/
theorem keyless_send_iff {ECDHKey PublicKey : Type} (deps : AuthDeps ECDHKey PublicKey) (identity : Identity)
    (calls : List (AuthCall ECDHKey)) (keyless : (sessionAfter deps identity calls).crypt = none) (libs : Libs) (urls : UrlLib)
    (request : ApiRequest) (url : Bytes) (now : Int) (trace : Bool) (draws : DoDraws) :
    (∃ error, request.send libs urls url ((sessionAfter deps identity calls).view identity now) trace draws =
      .error (.error error)) ↔ request.Harmless urls url trace draws := by
  have ended := @send_keyless libs urls request url ((sessionAfter deps identity calls).view identity now) trace keyless
    (keyless_unauthenticated keyless now) draws
  rw [← keylessEnd_iff, ended]
  simp

def shortDeps : AuthDeps Unit Unit := { sampleDeps with curve := ⟨fun _ => some (), fun _ _ => [1]⟩ }

theorem keyless_get_refused :
    (sessionAfter shortDeps ⟨[1], [], []⟩ [.authenticate (sampleAttempt 5)]).crypt = none ∧
      ∃ error, send (payloadLibs uriSums) samplePage { method := .get, path := textBytes "/p" } (textBytes "http://h/")
        ((sessionAfter shortDeps ⟨[1], [], []⟩ [.authenticate (sampleAttempt 5)]).view ⟨[1], [], []⟩ 7) false
        ⟨some stepKey, some zeroNonce, some zeroNonce⟩ = .error (.error error) :=
  ⟨rfl, (keyless_send_iff shortDeps ⟨[1], [], []⟩ [.authenticate (sampleAttempt 5)] rfl (payloadLibs uriSums) samplePage _ _ 7 false
    _).mpr (.inr (.inr (by simp)))⟩

/-- A new client panics on the first request with a body. -/
theorem keyless_post_panics :
    send (payloadLibs uriSums) samplePage { method := .post, path := textBytes "/p", body := some (some (textBytes "1")) }
      (textBytes "http://h/") ((sessionAfter sampleDeps ⟨[1], [], []⟩ []).view ⟨[1], [], []⟩ 7) false
      ⟨some stepKey, some zeroNonce, some zeroNonce⟩ = .error .nilCrypt :=
  rfl

end MycsCommon.Mycsnode
