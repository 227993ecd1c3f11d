import MycsCommon.Rest.Http
import MycsCommon.Library.Base64
import MycsCommon.Library.Hex

/-! Auth tokens. The request token signs a request and validates the response to it;
the response token validates the request and signs the response. The four functions
that sign and validate differ in what they read and in the error they report. -/

namespace MycsCommon.Rest
open Network Library

abbrev Nonce := { nonce : Bytes // nonce.length = 12 }

/-- An AES cipher in Galois/counter mode. -/
structure Crypt where
  gcmSeal : Bytes → Bytes → Bytes
  gcmOpen : Bytes → Bytes → Option Bytes
  gcmOpen_gcmSeal : ∀ nonce plainData, gcmOpen nonce (gcmSeal nonce plainData) = some plainData

def Crypt.encrypt (crypt : Crypt) (nonce : Nonce) (plainData : Bytes) : Bytes := nonce.val ++ crypt.gcmSeal nonce.val plainData

def Crypt.decrypt (crypt : Crypt) (cipherData : Bytes) : Option Bytes :=
  if cipherData.length < 12 then none else crypt.gcmOpen (cipherData.take 12) (cipherData.drop 12)

structure AuthCrypt where
  isAuthenticated : Bool
  authTokenKey : Bytes
  crypt : Crypt

/-- The packages the tokens rely on: the keyed 64-bit HighwayHash, and the JSON object
that holds an encrypted payload. -/
structure Libs where
  sum64 : Bytes → Bytes → Bytes
  encodePayload : Bytes → Bytes
  decodePayload : Bytes → Option Bytes
  decode_encode : ∀ payload, decodePayload (encodePayload payload) = some payload

inductive RestError where
  | notAuthenticated
  | invalidRequestToken | invalidResponseToken | hashKeyEncoding
  | decryption | hashKeySize
  | requestChecksum | responseChecksum
  | payloadCorrupted | payloadEncoding
  | url
deriving DecidableEq, Repr

inductive Fault where
  | error (error : RestError)
  -- reading from a nil body panics
  | nilBody
deriving DecidableEq, Repr

def Crypt.encryptB64 (crypt : Crypt) (nonce : Nonce) (plainData : Bytes) : Bytes :=
  Base64.encode (crypt.encrypt nonce plainData)

def Crypt.decryptB64 (crypt : Crypt) (cipherDataB64 : Bytes) : Option Bytes := do
  crypt.decrypt (← Base64.decode cipherDataB64)

variable (libs : Libs)

/-- `highwayhash.New64` takes keys of 32 bytes only. -/
def checksumOf (hashKey data : Bytes) : Except Fault Bytes :=
  if hashKey.length = 32 then .ok (Hex.bytes.encode (libs.sum64 hashKey data)) else .error (.error .hashKeySize)

def bar : UInt8 := 124
def tilde : UInt8 := 126

/-! Reading the signed data. -/

def readAll : Body → Except Fault Bytes
  | none => .error .nilBody
  | some bytes => .ok bytes

/-- The value of a key; a body that was read is put back. -/
def Request.read (request : Request) (key : Bytes) : Except Fault (Bytes × Request) :=
  if key = textBytes "url" then .ok (request.url.requestURI, request)
  else if key = textBytes "body" then do
    let body ← readAll request.body
    return (body, { request with body := some body })
  else .ok (request.header.get key, request)

def Response.read (response : Response) (key : Bytes) : Except Fault (Bytes × Response) :=
  if key = textBytes "body" then do
    let body ← readAll response.body
    return (body, { response with body := some body })
  else .ok (response.header.get key, response)

/-- The loop that collects `dataValue`. -/
def gather {σ : Type} (read : σ → Bytes → Except Fault (Bytes × σ)) (data : σ) : List Bytes → Except Fault (Bytes × σ)
  | [] => .ok ([], data)
  | key :: keys => do
    let (value, data) ← read data key
    let (values, data) ← gather read data keys
    return (value ++ values, data)

/-- Signing: the checksum names the keys and ends with the hash of their values. -/
def signData {σ : Type} (read : σ → Bytes → Except Fault (Bytes × σ)) (hashKey : Bytes) (keys : List Bytes) (data : σ) :
    Except Fault (Bytes × σ) := do
  let (dataToSign, data) ← gather read data keys
  let hash ← checksumOf libs hashKey dataToSign
  return (keys.flatMap (· ++ [tilde]) ++ hash, data)

def validateData {σ : Type} (read : σ → Bytes → Except Fault (Bytes × σ)) (failure : RestError)
    (hashKey transportDataChecksum : Bytes) (data : σ) : Except Fault σ := do
  let parts := transportDataChecksum.splitOn tilde
  let (dataToSign, data) ← gather read data parts.dropLast
  let hash ← checksumOf libs hashKey dataToSign
  if hash ≠ parts.getLast?.getD [] then throw (.error failure)
  return data

/-! The tokens. -/

abbrev HashKey := { key : Bytes // key.length = 32 }

structure AuthTokenCommon where
  authCrypt : AuthCrypt
  hashKey : Bytes := []
  transportDataChecksum : Bytes := []
  payloadChecksum : Bytes := []

structure RequestAuthToken extends AuthTokenCommon

structure ResponseAuthToken extends AuthTokenCommon

def AuthTokenCommon.encryptPayload (token : AuthTokenCommon) (nonce : Nonce) (payload : Bytes) :
    Except Fault (AuthTokenCommon × Bytes) := do
  let payloadChecksum ← checksumOf libs token.hashKey payload
  let encryptedBody := token.authCrypt.crypt.encrypt nonce payload
  return ({ token with payloadChecksum }, libs.encodePayload (Base64.encode encryptedBody))

def AuthTokenCommon.decryptPayload (token : AuthTokenCommon) (body : Bytes) : Except Fault Bytes := do
  match libs.decodePayload body >>= Base64.decode with
  | none => throw (.error .payloadEncoding)
  | some decodedBody =>
    match token.authCrypt.crypt.decrypt decodedBody with
    | none => throw (.error .decryption)
    | some decryptedBody =>
      if (← checksumOf libs token.hashKey decryptedBody) ≠ token.payloadChecksum then throw (.error .payloadCorrupted)
      return decryptedBody

namespace RequestAuthToken

/-- `NewRequestAuthToken`, with the hash key it draws. -/
def new (authCrypt : AuthCrypt) (hashKey : HashKey) : RequestAuthToken := { authCrypt, hashKey := hashKey.val }

/-- The token afterwards and the error, if any. -/
def setEncryptedToken (token : RequestAuthToken) (encryptedToken : Bytes) : RequestAuthToken × Option RestError :=
  match token.authCrypt.crypt.decryptB64 encryptedToken with
  | none => (token, some .decryption)
  | some responseToken =>
    match responseToken.splitOn bar with
    | [key, transportDataChecksum, payloadChecksum] =>
      if key = token.authCrypt.authTokenKey then ({ token with transportDataChecksum, payloadChecksum }, none)
      else (token, some .invalidResponseToken)
    | _ => (token, some .invalidResponseToken)

def getEncryptedToken (token : RequestAuthToken) (nonce : Nonce) : Except Fault Bytes :=
  if token.authCrypt.isAuthenticated then
    .ok (token.authCrypt.crypt.encryptB64 nonce (token.authCrypt.authTokenKey ++ [bar] ++
      Hex.bytes.encode token.hashKey ++ [bar] ++ token.transportDataChecksum ++ [bar] ++ token.payloadChecksum))
  else .error (.error .notAuthenticated)

def signTransportData (token : RequestAuthToken) (keys : List Bytes) (request : Request) :
    Except Fault (RequestAuthToken × Request) := do
  let (transportDataChecksum, request) ← signData libs Request.read token.hashKey keys request
  return ({ token with transportDataChecksum }, request)

def validateTransportData (token : RequestAuthToken) (response : Response) : Except Fault Response :=
  validateData libs Response.read .responseChecksum token.hashKey token.transportDataChecksum response

end RequestAuthToken

namespace ResponseAuthToken

def new (authCrypt : AuthCrypt) : ResponseAuthToken := { authCrypt }

/-- A hash key that is not hexadecimal leaves the bytes before the fault in the token. -/
def setEncryptedToken (token : ResponseAuthToken) (encryptedToken : Bytes) : ResponseAuthToken × Option RestError :=
  match token.authCrypt.crypt.decryptB64 encryptedToken with
  | none => (token, some .decryption)
  | some requestToken =>
    match requestToken.splitOn bar with
    | [key, hexKey, transportDataChecksum, payloadChecksum] =>
      if key = token.authCrypt.authTokenKey then
        match Hex.bytes.decode hexKey with
        | none => ({ token with hashKey := Hex.bytes.decoded hexKey }, some .hashKeyEncoding)
        | some hashKey => ({ token with hashKey, transportDataChecksum, payloadChecksum }, none)
      else (token, some .invalidRequestToken)
    | _ => (token, some .invalidRequestToken)

def getEncryptedToken (token : ResponseAuthToken) (nonce : Nonce) : Except Fault Bytes :=
  if token.authCrypt.isAuthenticated then
    .ok (token.authCrypt.crypt.encryptB64 nonce
      (token.authCrypt.authTokenKey ++ [bar] ++ token.transportDataChecksum ++ [bar] ++ token.payloadChecksum))
  else .error (.error .notAuthenticated)

def signTransportData (token : ResponseAuthToken) (keys : List Bytes) (response : Response) :
    Except Fault (ResponseAuthToken × Response) := do
  let (transportDataChecksum, response) ← signData libs Response.read token.hashKey keys response
  return ({ token with transportDataChecksum }, response)

def validateTransportData (token : ResponseAuthToken) (request : Request) : Except Fault Request :=
  validateData libs Request.read .requestChecksum token.hashKey token.transportDataChecksum request

end ResponseAuthToken

end MycsCommon.Rest
