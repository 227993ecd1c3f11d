import MycsCommon.Rest.AuthToken

/-! The REST client up to the point where the HTTP request is handed to the transport.
Go maps are lists in the order in which a range over them visits the keys. -/

namespace MycsCommon.Rest
open Network

structure RestApiClient where
  url : Bytes
  authCrypt : Option AuthCrypt

/-- `rest.Request`; the body as the JSON text it is encoded to. -/
structure RestRequest where
  path : Bytes
  headers : List (Bytes × Bytes) := []
  queryArgs : List (Bytes × Bytes) := []
  rawQuery : Bytes := []
  body : Option Bytes := none

/-- The URL parser, and `URL.Query`, `Values.Add` and `Values.Encode` in one: the encoded
values are those of the raw query and the arguments, so any argument changes the text. -/
structure UrlLib where
  parse : Bytes → Option Url
  addQuery : Bytes → List (Bytes × Bytes) → Bytes
  addQuery_ne : ∀ rawQuery args, args ≠ [] → addQuery rawQuery args ≠ [] ∧ addQuery rawQuery args ≠ rawQuery

/-- What a request draws at random. -/
structure Draws where
  hashKey : HashKey
  payloadNonce : Nonce
  tokenNonce : Nonce

inductive Method where
  | get | post | put | delete
deriving DecidableEq, Repr

structure Sent where
  method : Method
  httpRequest : Request
  authToken : Option RequestAuthToken

/-- The client's URL and the path, joined by one slash. -/
def RestApiClient.requestUrl (client : RestApiClient) (path : Bytes) : Bytes :=
  if client.url.getLast? = some 47 then
    client.url ++ if path.head? = some 47 then path.drop 1 else path
  else client.url ++ if path.head? = some 47 then path else 47 :: path

variable (libs : Libs) (urls : UrlLib)

/-- The body that is sent: encrypted where there is a token. -/
def RestRequest.reader (request : RestRequest) (draws : Draws) :
    Option RequestAuthToken → Except Fault (Option RequestAuthToken × Body)
  | none => .ok (none, request.body)
  | some authToken =>
    match request.body with
    | none => .ok (some authToken, none)
    | some payload => do
      let (token, encrypted) ← authToken.encryptPayload libs draws.payloadNonce payload
      return (some ⟨token⟩, some encrypted)

def RestRequest.keysToSign (request : RestRequest) : List Bytes := textBytes "url" :: request.headers.map Prod.fst

def RestRequest.header (request : RestRequest) : Header :=
  let json := textBytes "application/json; charset=utf-8"
  request.headers.foldl (fun header named => header.set named.1 named.2)
    (Header.set (Header.set (fun _ => []) (textBytes "Content-Type") json) (textBytes "Accept") json)

/-- Sign the request and add the encrypted token to it. -/
def RestRequest.authorize (request : RestRequest) (draws : Draws) (httpRequest : Request) :
    Option RequestAuthToken → Except Fault (Option RequestAuthToken × Request)
  | none => .ok (none, httpRequest)
  | some authToken => do
    let (authToken, httpRequest) ← authToken.signTransportData libs request.keysToSign httpRequest
    let encryptedReqToken ← authToken.getEncryptedToken draws.tokenNonce
    return (some authToken,
      { httpRequest with header := httpRequest.header.set (textBytes "X-Auth-Token") encryptedReqToken })

def RestRequest.query (request : RestRequest) (rawQuery : Bytes) : Bytes :=
  if request.queryArgs ≠ [] then urls.addQuery rawQuery request.queryArgs
  else if request.rawQuery ≠ [] then request.rawQuery
  else rawQuery

/-- `Request.do`, until the request is sent. -/
def RestRequest.send (request : RestRequest) (client : RestApiClient) (draws : Draws) (method : Method) : Except Fault Sent := do
  let authToken := client.authCrypt.map fun authCrypt => RequestAuthToken.new authCrypt draws.hashKey
  let (authToken, body) ← request.reader libs draws authToken
  match urls.parse (client.requestUrl request.path) with
  | none => throw (.error .url)
  | some url =>
    let (authToken, httpRequest) ← request.authorize libs draws { url, header := request.header, body } authToken
    -- the query is added to the request that was signed
    return { method, authToken, httpRequest := { httpRequest with url := { url with rawQuery := request.query urls url.rawQuery } } }

/-- The receiving side takes the token from the header and validates the request. -/
def receive (authCrypt : AuthCrypt) (request : Request) : Except Fault Request :=
  match (ResponseAuthToken.new authCrypt).setEncryptedToken (request.header.get (textBytes "X-Auth-Token")) with
  | (token, none) => token.validateTransportData libs request
  | (_, some error) => .error (.error error)

end MycsCommon.Rest
