import MycsCommon.Library.Machine
import MycsCommon.Mycsnode.ApiRequest

/-! `EncryptPayload` as its goroutines run it: one copies the payload into two pipes, one reads
the payload from the second, and the caller hashes what comes from the first. A mutex of the
crypt is not modelled. `Request.do` is carried on here to its look at the encoder's error. -/

namespace MycsCommon.Mycsnode
open Network Library Rest

/-- What an `io.Reader` gives: bytes in chunks, and then `io.EOF` or an error. -/
structure PayloadReader (ε : Type) where
  chunks : List Bytes
  failure : Option ε := none

def PayloadReader.bytes {ε : Type} (reader : PayloadReader ε) : Bytes := reader.chunks.flatten

/-- An `io.Pipe`: a write returns when all that it offers has been read. -/
structure Pipe where
  offered : Bytes := []
  closed : Bool := false
deriving DecidableEq, Repr

/-- Reading into a buffer, which has room for at least one byte. -/
def Pipe.read (pipe : Pipe) (more : Nat) : Bytes × Pipe :=
  (pipe.offered.take (more + 1), { pipe with offered := pipe.offered.drop (more + 1) })

/-- A call of `EncryptPayload` on a token. -/
structure PayloadCall (ε : Type) where
  view : AuthView
  hashKey : Bytes
  nonce : Option Nonce
  payload : PayloadReader ε

inductive CopierPhase where
  | reading
  -- the `io.MultiWriter` writes a chunk to `writerHash`, and then to `writerPayload`
  | toHash (chunk : Bytes) | toPayload
  -- `writerHash` is closed, then `writerPayload`
  | closing | ended

inductive CallerPhase (ε : Type) where
  | starting | hashing | waiting
  | returned (result : Except DoFault (PayloadReader ε))

structure Encrypting (ε : Type) where
  unread : List Bytes
  copier : CopierPhase := .reading
  hashPipe : Pipe := {}
  bodyPipe : Pipe := {}
  logged : Option ε := none
  body : Bytes := []
  bodyRead : Bool := false
  caller : CallerPhase ε := .starting
  hashed : Bytes := []
  /-- what the call has set the token's checksum to -/
  payloadChecksum : Option Bytes := none

inductive Goroutine where
  | copier
  | bodyReader (more : Nat)
  | caller (more : Nat)
deriving DecidableEq, Repr

namespace PayloadCall

variable {ε : Type} (libs : Libs) (call : PayloadCall ε)

/-- `io.Copy` to both pipes. What it fails with is logged; the pipes are closed all the same. -/
def copierStep (state : Encrypting ε) : Option (Encrypting ε) :=
  match state.copier with
  | .reading =>
    match state.unread with
    | [] => some { state with logged := call.payload.failure, copier := .closing, hashPipe := { state.hashPipe with closed := true } }
    | [] :: unread => some { state with unread }
    | chunk :: unread => some { state with unread, copier := .toHash chunk, hashPipe := { state.hashPipe with offered := chunk } }
  | .toHash chunk =>
    if state.hashPipe.offered = [] then
      some { state with copier := .toPayload, bodyPipe := { state.bodyPipe with offered := chunk } }
    else none
  | .toPayload => if state.bodyPipe.offered = [] then some { state with copier := .reading } else none
  | .closing => some { state with copier := .ended, bodyPipe := { state.bodyPipe with closed := true } }
  | .ended => none

/-- `io.ReadAll` of the second pipe. -/
def bodyReaderStep (more : Nat) (state : Encrypting ε) : Option (Encrypting ε) :=
  if state.bodyRead then none
  else if state.bodyPipe.offered ≠ [] then
    let (chunk, bodyPipe) := state.bodyPipe.read more
    some { state with bodyPipe, body := state.body ++ chunk }
  else if state.bodyPipe.closed then some { state with bodyRead := true }
  else none

/-- The reader that is returned gives the JSON text of the encrypted body. -/
def encrypt (body : Bytes) : Except DoFault (PayloadReader ε) := do
  let encryptedBody ← call.view.encrypt call.nonce body
  return { chunks := [libs.encodePayload (Base64.encode encryptedBody)] }

/-- A statement is one step with its check of `err`, which the body reader assigns as well. -/
def callerStep (more : Nat) (state : Encrypting ε) : Option (Encrypting ε) :=
  match state.caller with
  | .starting =>
    if call.hashKey.length = 32 then some { state with caller := .hashing }
    else some { state with caller := .returned (.error (.error (.rest .hashKeySize))) }
  | .hashing =>
    if state.hashPipe.offered ≠ [] then
      let (chunk, hashPipe) := state.hashPipe.read more
      some { state with hashPipe, hashed := state.hashed ++ chunk }
    else if state.hashPipe.closed then
      let payloadChecksum := some (Hex.bytes.encode (libs.sum64 call.hashKey state.hashed))
      some { state with caller := .waiting, payloadChecksum }
    else none
  | .waiting => if state.bodyRead then some { state with caller := .returned (call.encrypt libs state.body) } else none
  | .returned _ => none

def step : Goroutine → Encrypting ε → Option (Encrypting ε)
  | .copier => call.copierStep
  | .bodyReader more => bodyReaderStep more
  | .caller more => call.callerStep libs more

def start : Encrypting ε := { unread := call.payload.chunks }

end PayloadCall

namespace ApiRequest

/-- The pipe that the body is read from while the trace log is off. The encoder writes the text
as a whole or nothing, and the pipe is closed the same way after both. -/
def bodyReader {ε : Type} (request : ApiRequest) : Option (PayloadReader ε) :=
  request.body.map fun text => { chunks := (text.map (· ++ [10])).toList }

/-- The error of the encoder, `err0`. -/
def encoderError (request : ApiRequest) (trace : Bool) : Option DoError :=
  if request.body = some none ∧ trace = false then some .marshal else none

variable (libs : Libs) (urls : UrlLib) (request : ApiRequest) (url : Bytes) (trace : Bool) (draws : DoDraws)

/-- `Request.do` of a client without an `AuthCrypt`, until the request is handed to the transport. -/
def sendPlain : Except DoFault (Method × Request) := do
  let body ← request.payload trace
  match urls.parse ((RestApiClient.mk url none).requestUrl request.path) with
  | none => throw (.error (.rest .url))
  | some url =>
    return (request.method,
      { url := { url with rawQuery := (request.rest none).query urls url.rawQuery }, header := (request.rest none).header, body })

def sendFrom : Option AuthView → Except DoFault (Method × Request)
  | none => request.sendPlain urls url trace
  | some view => request.send libs urls url view trace draws

/-- What `Request.do` hands to the transport, and the response it goes on with. -/
def exchange {α : Type} (authCrypt : Option AuthView) (transport : Method × Request → Except DoError α) :
    Option (Method × Request) × Except DoFault α :=
  match request.sendFrom libs urls url trace draws authCrypt with
  | .error fault => (none, .error fault)
  | .ok sent =>
    (some sent,
      match transport sent, request.encoderError trace with
      | .error error, _ => .error (.error error)
      | .ok _, some error => .error (.error error)
      | .ok response, none => .ok response)

end ApiRequest

end MycsCommon.Mycsnode
