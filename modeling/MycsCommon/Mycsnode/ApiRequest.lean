import MycsCommon.Rest.RestClient
import MycsCommon.Mycsnode.Authenticate

/-! `Request.do` with an `ApiClient` as its `AuthCrypt`, until the request is sent. The
client may not hold a key, the random numbers may not be had, and the body may be a value
that has no JSON text; so this says more than `RestRequest.send` about how a call ends. -/

namespace MycsCommon.Mycsnode
open Network Library Rest

/-- What the methods of `rest.AuthCrypt` answer; the crypt may be a nil pointer. -/
structure AuthView where
  isAuthenticated : Bool
  authTokenKey : Bytes
  crypt : Option Crypt

def Session.view (session : Session) (identity : Identity) (now : Int) : AuthView :=
  { isAuthenticated := session.isAuthenticatedAt now, authTokenKey := identity.refName, crypt := session.crypt }

inductive DoError where
  | rest (error : RestError)
  -- passed on from crypto/rand and from encoding/json
  | random | marshal
deriving DecidableEq, Repr

inductive DoFault where
  | error (error : DoError)
  -- the two panics
  | nilCrypt | nilBody
deriving DecidableEq, Repr

def DoFault.ofRest : Rest.Fault → DoFault
  | .error reason => .error (.rest reason)
  | .nilBody => .nilBody

def fromRest {α : Type} (run : Except Rest.Fault α) : Except DoFault α := run.mapError DoFault.ofRest

/-- `io.ReadFull` from the random source. -/
def drawn {α : Type} : Option α → Except DoFault α
  | none => .error (.error .random)
  | some value => .ok value

/-- What a request draws at random, where it can be drawn. -/
structure DoDraws where
  hashKey : Option HashKey
  payloadNonce : Option Nonce
  tokenNonce : Option Nonce

/-- A request of the client. A body that is not nil has the text `json.Marshal` gives it, if any. -/
structure ApiRequest where
  method : Method
  path : Bytes
  headers : List (Bytes × Bytes) := []
  queryArgs : List (Bytes × Bytes) := []
  rawQuery : Bytes := []
  body : Option (Option Bytes) := none

def ApiRequest.rest (request : ApiRequest) (body : Option Bytes) : RestRequest :=
  { path := request.path, headers := request.headers, queryArgs := request.queryArgs, rawQuery := request.rawQuery, body }

/-- What is read of the body. With the trace log on it is marshalled first; else it goes through
a pipe, ended by a newline, and an error of the encoder is looked at only after the request was sent. -/
def ApiRequest.payload (request : ApiRequest) (trace : Bool) : Except DoFault (Option Bytes) :=
  match request.body with
  | none => .ok none
  | some (some text) => .ok (some (if trace then text else text ++ [10]))
  | some none => if trace then .error (.error .marshal) else .ok (some [])

/-- `Crypt.Encrypt`, called on a pointer: the cipher is read before the nonce is drawn. -/
def AuthView.encrypt (view : AuthView) (nonce : Option Nonce) (plainData : Bytes) : Except DoFault Bytes :=
  match view.crypt with
  | none => .error .nilCrypt
  | some crypt => do return crypt.encrypt (← drawn nonce) plainData

variable (libs : Libs) (urls : UrlLib)

/-- The checksum the token keeps, and the payload that is sent. -/
def AuthView.encryptPayload (view : AuthView) (hashKey : HashKey) (nonce : Option Nonce) (payload : Bytes) :
    Except DoFault (Bytes × Bytes) := do
  let payloadChecksum ← fromRest (checksumOf libs hashKey.val payload)
  -- the crypt is used whether or not the client is authenticated
  let encryptedBody ← view.encrypt nonce payload
  return (payloadChecksum, libs.encodePayload (Base64.encode encryptedBody))

def AuthView.reader (view : AuthView) (hashKey : HashKey) (nonce : Option Nonce) : Option Bytes → Except DoFault (Bytes × Body)
  | none => .ok ([], none)
  | some payload => do
    let (payloadChecksum, encrypted) ← view.encryptPayload libs hashKey nonce payload
    return (payloadChecksum, some encrypted)

def AuthView.getEncryptedToken (view : AuthView) (hashKey : HashKey) (transportDataChecksum payloadChecksum : Bytes)
    (nonce : Option Nonce) : Except DoFault Bytes :=
  if view.isAuthenticated then do
    let token ← view.encrypt nonce (view.authTokenKey ++ [bar] ++ Hex.bytes.encode hashKey.val ++ [bar] ++
      transportDataChecksum ++ [bar] ++ payloadChecksum)
    return Base64.encode token
  else .error (.error (.rest .notAuthenticated))

/-- Sign the request and add the encrypted token to it. -/
def ApiRequest.authorize (request : ApiRequest) (view : AuthView) (hashKey : HashKey) (payloadChecksum : Bytes) (nonce : Option Nonce)
    (httpRequest : Request) : Except DoFault Request := do
  let (transportDataChecksum, httpRequest) ←
    fromRest (signData libs Request.read hashKey.val (request.rest none).keysToSign httpRequest)
  let encryptedReqToken ← view.getEncryptedToken hashKey transportDataChecksum payloadChecksum nonce
  return { httpRequest with header := httpRequest.header.set (textBytes "X-Auth-Token") encryptedReqToken }

/-- `Request.do` of a client at `url`, until the request is handed to the transport. -/
def ApiRequest.send (request : ApiRequest) (url : Bytes) (view : AuthView) (trace : Bool) (draws : DoDraws) :
    Except DoFault (Method × Request) := do
  let hashKey ← drawn draws.hashKey
  let payload ← request.payload trace
  let (payloadChecksum, body) ← view.reader libs hashKey draws.payloadNonce payload
  match urls.parse ((RestApiClient.mk url none).requestUrl request.path) with
  | none => throw (.error (.rest .url))
  | some url =>
    let httpRequest ← request.authorize libs view hashKey payloadChecksum draws.tokenNonce
      { url, header := (request.rest none).header, body }
    return (request.method,
      { httpRequest with url := { url with rawQuery := (request.rest none).query urls url.rawQuery } })

end MycsCommon.Mycsnode
