import MycsCommon.Crypto.Ecdh
import MycsCommon.Crypto.RsaPack
import MycsCommon.Utils.ChunkSeeker

/-! `Authenticate`, `Reset`, `IsAuthenticated` and `AuthCallback` of mycsnode/api_client.go. The
first three hold the same mutex from their first to their last line, so they are taken one at a time. What
an attempt draws, when it is made and how the server answers it belong to the attempt. -/

namespace MycsCommon.Mycsnode
open Network Library Rest Crypto

structure AuthReqKey where
  refID : Bytes
  ecdhKey : Bytes
  nonce : Int
deriving DecidableEq, Repr

structure AuthRequest where
  authReqIDKey : Bytes
  authReqKey : Bytes
deriving DecidableEq, Repr

structure AuthResponse where
  authRespIDKey : Bytes
  authRespKey : Bytes
deriving DecidableEq, Repr

structure AuthRespKey where
  nodeECDHKey : Bytes
  nonce : Int
  timeoutAt : Int
  refName : Bytes
deriving DecidableEq, Repr

/-- The packages `Authenticate` relies on, with the keys of the client and of its node. -/
structure AuthDeps (ECDHKey PublicKey : Type) where
  curve : Curve ECDHKey PublicKey
  publicKey : ECDHKey → Option Bytes
  marshal : AuthReqKey → Option Bytes
  encryptBase64 : Bytes → Option Bytes
  decrypt : Bytes → Option Bytes
  unmarshal : Bytes → Option AuthRespKey
  aes : Aes

/-- What `NewApiClient` fixes. -/
structure Identity where
  refName : Bytes
  refID : Bytes
  clientIDKey : Bytes

/-- An HTTP error, with the message of the error body if there is one. -/
structure PostError where
  errorMessage : String
  httpError : String
deriving DecidableEq, Repr

structure Attempt (ECDHKey : Type) where
  ecdhKey : Option ECDHKey
  now : Int
  doPost : AuthRequest → Except PostError AuthResponse

inductive AuthError where
  | newECDHKey | publicKey | marshal | encrypt
  | post (text : String)
  | decrypt | unmarshal
  | invalidAuthResponse
  | sharedSecret | newCrypt
deriving DecidableEq, Repr

structure Session where
  crypt : Option Crypt
  keyTimeoutAt : Int
  authIDKey : Bytes
  isAuthenticated : Bool

def newSession : Session := { crypt := none, keyTimeoutAt := 0, authIDKey := [], isAuthenticated := false }

variable {ECDHKey PublicKey : Type} (deps : AuthDeps ECDHKey PublicKey) (identity : Identity)

def orElse {α : Type} (error : AuthError) : Option α → Except AuthError α
  | none => .error error
  | some value => .ok value

/-- What an attempt agrees on with the node. -/
structure Agreement where
  encryptionKey : Bytes
  authRespKey : AuthRespKey
  authResponse : AuthResponse

/-- The part of `Authenticate` that leaves the client alone, up to the shared secret. -/
def agree (attempt : Attempt ECDHKey) : Except AuthError Agreement := do
  let ecdhKey ← orElse .newECDHKey attempt.ecdhKey
  let ecdhKeyPublicKey ← orElse .publicKey (deps.publicKey ecdhKey)
  let authReqKey : AuthReqKey := { refID := identity.refID, ecdhKey := ecdhKeyPublicKey, nonce := attempt.now }
  let authReqKeyJSON ← orElse .marshal (deps.marshal authReqKey)
  let authReqKeyEncrypted ← orElse .encrypt (deps.encryptBase64 authReqKeyJSON)
  match attempt.doPost { authReqIDKey := identity.clientIDKey, authReqKey := authReqKeyEncrypted } with
  | .error failure =>
    throw (.post (if failure.errorMessage.length > 0 then failure.errorMessage else failure.httpError))
  | .ok authResponse =>
    let authRespKeyJSON ← orElse .decrypt (decryptBase64 deps.decrypt authResponse.authRespKey)
    let authRespKey ← orElse .unmarshal (deps.unmarshal authRespKeyJSON)
    if authRespKey.refName ≠ identity.refName ∨ authRespKey.nonce ≠ authReqKey.nonce then throw .invalidAuthResponse
    let encryptionKey ← orElse .sharedSecret (sharedSecret deps.curve ecdhKey authRespKey.nodeECDHKey)
    return { encryptionKey, authRespKey, authResponse }

/-- The error, if any, and the client afterwards. A key that cannot be used leaves it without one. -/
def authenticate (attempt : Attempt ECDHKey) (session : Session) : Except AuthError Unit × Session :=
  let session := { session with isAuthenticated := false }
  match agree deps identity attempt with
  | .error error => (.error error, session)
  | .ok { encryptionKey, authRespKey, authResponse } =>
    match newCrypt deps.aes encryptionKey with
    | none => (.error .newCrypt, { session with crypt := none })
    | some crypt =>
      (.ok (),
        { crypt := some crypt
          keyTimeoutAt := authRespKey.timeoutAt
          authIDKey := authResponse.authRespIDKey
          isAuthenticated := true })

def Session.reset (session : Session) : Session := { session with isAuthenticated := false }

/-- `IsAuthenticated` at a time in milliseconds. -/
def Session.isAuthenticatedAt (session : Session) (now : Int) : Bool := session.isAuthenticated && now < session.keyTimeoutAt

/-- The milliseconds from a time until the key is to be renewed, in 64 bits. -/
def Session.renewalIn (session : Session) (now : Int) : Int := Utils.int64 (session.keyTimeoutAt - now - 50)

inductive AuthCall (ECDHKey : Type) where
  | authenticate (attempt : Attempt ECDHKey)
  | reset
  | isAuthenticated (now : Int)

def AuthCall.exec : AuthCall ECDHKey → Session → Session
  | .authenticate attempt, session => (Mycsnode.authenticate deps identity attempt session).2
  | .reset, session => session.reset
  | .isAuthenticated _, session => session

/-- A new client after some calls. -/
def sessionAfter (calls : List (AuthCall ECDHKey)) : Session :=
  calls.foldl (fun session call => call.exec deps identity session) newSession

end MycsCommon.Mycsnode
