import MycsCommon.Library.Machine

/-! The session key of mycsnode/api_client.go while a request is being sent. `Crypt`
hands out the pointer and the mutex without locking it; the request locks the mutex
afterwards, once for its payload and once for its token, and `Authenticate` replaces the
pointer under the same mutex. A step is one access to what the two share. Of a crypt only
its key matters; nil is `none`. The request is one with a body. -/

namespace MycsCommon.Mycsnode

variable {Key : Type}

inductive Holder where
  | nobody | request | refresh
deriving DecidableEq, Repr

/-- Where the request is in `do`, with the pointers it has read and the keys it has used. -/
inductive Sending (Key : Type) where
  | ready
  | readForPayload (crypt : Option Key)
  | lockedForPayload (crypt : Option Key)
  | encrypted (payloadKey : Key)
  | authenticated (payloadKey : Key)
  | readForToken (payloadKey : Key) (crypt : Option Key)
  | lockedForToken (payloadKey : Key) (crypt : Option Key)
  | sent (payloadKey tokenKey : Key)
  | notAuthenticated
  | encryptionFailed
  | panicked
deriving DecidableEq, Repr

/-- Where `Authenticate` is. -/
inductive Refresh where
  | idle | asking | replaced
deriving DecidableEq, Repr

structure ApiClient (Key : Type) where
  crypt : Option Key
  isAuthenticated : Bool
  keyTimeoutAt : Int
  keyRefreshMutex : Holder := .nobody
  sending : Sending Key := .ready
  refresh : Refresh := .idle
  /-- The pointer at each time the request held the mutex to encrypt. -/
  held : List (Option Key) := []
  /-- What `Authenticate` assigned to the pointer since the request read it for its payload,
  until it read it for its token. -/
  between : List (Option Key) := []
  /-- All keys the client has had. -/
  keys : List Key := crypt.toList
deriving DecidableEq, Repr

inductive Action (Key : Type) where
  /-- The next access of the request, at a time; drawing a nonce for an encryption may fail. -/
  | request (now : Int) (drawn : Bool)
  /-- `Authenticate` takes the mutex. -/
  | authenticate
  /-- `Authenticate` returns an error before there is a key. -/
  | fail
  /-- `NewCrypt` gives a crypt, or nil with an error. -/
  | newCrypt (crypt : Option Key)
  /-- `Authenticate` notes when the key expires and returns. -/
  | finish (timeoutAt : Int)
deriving DecidableEq, Repr

/-- `Encrypt` of the payload under the mutex, which is released on every way out; a nil crypt panics. -/
def encryptPayload (client : ApiClient Key) (drawn : Bool) : Option Key → ApiClient Key
  | none => { client with sending := .panicked, keyRefreshMutex := .nobody }
  | some key =>
    { client with sending := if drawn then .encrypted key else .encryptionFailed, keyRefreshMutex := .nobody }

def encryptToken (client : ApiClient Key) (drawn : Bool) (payloadKey : Key) : Option Key → ApiClient Key
  | none => { client with sending := .panicked, keyRefreshMutex := .nobody }
  | some key =>
    { client with sending := if drawn then .sent payloadKey key else .encryptionFailed, keyRefreshMutex := .nobody }

def requestStep (client : ApiClient Key) (now : Int) (drawn : Bool) : Option (ApiClient Key) :=
  match client.sending with
  -- EncryptPayload
  | .ready => some { client with sending := .readForPayload client.crypt }
  | .readForPayload crypt =>
    if client.keyRefreshMutex = .nobody then
      some { client with
        sending := .lockedForPayload crypt, keyRefreshMutex := .request, held := client.held ++ [client.crypt] }
    else none
  | .lockedForPayload crypt => some (encryptPayload client drawn crypt)
  -- SignTransportData shares nothing; IsAuthenticated of GetEncryptedToken takes the mutex for itself
  | .encrypted payloadKey =>
    if client.keyRefreshMutex = .nobody then
      if client.isAuthenticated && decide (now < client.keyTimeoutAt) then
        some { client with sending := .authenticated payloadKey }
      else some { client with sending := .notAuthenticated }
    else none
  | .authenticated payloadKey => some { client with sending := .readForToken payloadKey client.crypt }
  | .readForToken payloadKey crypt =>
    if client.keyRefreshMutex = .nobody then
      some { client with
        sending := .lockedForToken payloadKey crypt, keyRefreshMutex := .request, held := client.held ++ [client.crypt] }
    else none
  | .lockedForToken payloadKey crypt => some (encryptToken client drawn payloadKey crypt)
  | .sent .. | .notAuthenticated | .encryptionFailed | .panicked => none

/-- The request has read the pointer for its payload and not yet for its token. -/
def Sending.open : Sending Key → Bool
  | .readForPayload _ | .lockedForPayload _ | .encrypted _ | .authenticated _ => true
  | _ => false

def step : Action Key → ApiClient Key → Option (ApiClient Key)
  | .request now drawn, client => requestStep client now drawn
  | .authenticate, client =>
    if client.keyRefreshMutex = .nobody then
      some { client with keyRefreshMutex := .refresh, isAuthenticated := false, refresh := .asking }
    else none
  | .fail, client =>
    if client.refresh = .asking then some { client with keyRefreshMutex := .nobody, refresh := .idle } else none
  | .newCrypt crypt, client =>
    if client.refresh = .asking then
      let replaced := { client with
        crypt
        keys := client.keys ++ crypt.toList
        between := if client.sending.open then client.between ++ [crypt] else client.between }
      if crypt.isSome then some { replaced with refresh := .replaced }
      else some { replaced with refresh := .idle, keyRefreshMutex := .nobody }
    else none
  | .finish timeoutAt, client =>
    if client.refresh = .replaced then
      some { client with
        keyTimeoutAt := timeoutAt, isAuthenticated := true, refresh := .idle, keyRefreshMutex := .nobody }
    else none

/-- The client before the request. -/
def apiClient (crypt : Option Key) (isAuthenticated : Bool) (keyTimeoutAt : Int) : ApiClient Key :=
  { crypt, isAuthenticated, keyTimeoutAt }

end MycsCommon.Mycsnode
