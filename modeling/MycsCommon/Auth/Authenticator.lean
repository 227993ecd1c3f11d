import MycsCommon.Network.Netip

/-! The OAuth flow of the authenticator: the state handed out with the authorize URL
and the handler of the callbacks that come back. A Go string is its bytes. -/

namespace MycsCommon.Auth
open Network

def letterBytes : Bytes := textBytes "abcdefghijklmnopqrstuvwxyzABCDEFGHIJKLMNOPQRSTUVWXYZ0123456789"

/-- `utils.RandomString` over what `rand.Int63` returns call by call. -/
def randomString (int63 : Nat → Nat) (n : Nat) : Bytes :=
  (List.range n).map fun index => letterBytes.getD (int63 index % letterBytes.length) 0

/-- The `oauth2` package: the authorize URL of a configuration, and what the
authorization server answers to the n-th exchange of a code. -/
structure OAuth (Token : Type) where
  authCodeURL : (redirectURL state : Bytes) → Bytes
  exchange : Nat → (code : Bytes) → Except Bytes Token

structure Authenticator (Token : Type) where
  token : Option Token
  redirectURL : Bytes
  state : Bytes
  -- `localHttpServer` is not nil
  serving : Bool
  exchanges : Nat

variable {Token : Type}

/-- The first port nobody listens on carries the callback server. -/
def startOAuthFlow (oauth : OAuth Token) (listening : Int → Bool) (int63 : Nat → Nat) (ports : List Int)
    (authn : Authenticator Token) : Except Bytes Bytes × Authenticator Token :=
  match ports.find? (!listening ·) with
  | none => (.error (textBytes "unable to create callback server. all provided ports are in use"), authn)
  | some port =>
    let redirectURL := textBytes ("http://localhost:" ++ port.repr ++ "/callback")
    let state := randomString int63 10
    (.ok (oauth.authCodeURL redirectURL state), { authn with redirectURL, state, serving := true })

/-- The parameters of a request in their order; none if `ParseForm` refuses them. -/
structure Request where
  form : Option (List (Bytes × Bytes))

/-- `Form.Get`: the first value of a key, or nothing. -/
def formGet (form : List (Bytes × Bytes)) (key : String) : Bytes :=
  ((form.find? (·.1 == textBytes key)).map Prod.snd).getD []

inductive Reply where
  | error (text : Bytes) (status : Nat)
  -- what `authCallbackHandler` writes, if there is one
  | callback
deriving DecidableEq

/-- What a callback did: the code `RetrieveToken` was called with, the reply, and
whether the server is to shut down. -/
structure Outcome where
  retrieved : Option Bytes := none
  reply : Reply
  shutdown : Bool := false
deriving DecidableEq

def retrieveToken (oauth : OAuth Token) (code : Bytes) (authn : Authenticator Token) :
    Except Bytes Unit × Authenticator Token :=
  let authn := { authn with exchanges := authn.exchanges + 1 }
  match oauth.exchange (authn.exchanges - 1) code with
  | .error error => (.error error, authn)
  | .ok token => (.ok (), { authn with token := some token })

/-- The handler up to its deferred function. -/
def handleCallback (oauth : OAuth Token) (authn : Authenticator Token) (request : Request) :
    Outcome × Authenticator Token :=
  match request.form with
  | none => ({ reply := .error (textBytes "Unable to parse request parameters") 400 }, authn)
  | some form =>
    if formGet form "state" ≠ authn.state then ({ reply := .error (textBytes "State invalid") 400 }, authn)
    else
      let code := formGet form "code"
      if code = [] then ({ reply := .error (textBytes "Code not found") 400 }, authn)
      else
        match retrieveToken oauth code authn with
        | (.error error, authn) => ({ retrieved := some code, reply := .error error 500 }, authn)
        | (.ok _, authn) => ({ retrieved := some code, reply := .callback, shutdown := authn.serving }, authn)

/-- Every exit passes the deferred function, which resets the state. -/
def oauthHandler (oauth : OAuth Token) (authn : Authenticator Token) (request : Request) : Outcome × Authenticator Token :=
  let (outcome, authn) := handleCallback oauth authn request
  (outcome, { authn with state := [] })

/-- Callbacks that come in one after another. -/
def callbacks (oauth : OAuth Token) : Authenticator Token → List Request → List (Request × Outcome)
  | _, [] => []
  | authn, request :: requests =>
    let (outcome, authn) := oauthHandler oauth authn request
    (request, outcome) :: callbacks oauth authn requests

end MycsCommon.Auth
