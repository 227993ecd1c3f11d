import MycsCommon.Mycsnode.PayloadPipes
import MycsCommon.Proofs.KeylessRequests

/-! What becomes of a payload that cannot be read to its end. The error stays with the goroutine
that meets it: the pipes behind it end as after a complete payload. -/

namespace MycsCommon.Mycsnode
open Network Library Rest Library.Machine List ApiRequest AuthView Except Option PayloadCall PayloadReader Pipe RestApiClient

variable {ε : Type} {libs : Libs} {call : PayloadCall ε} {state after : Encrypting ε}

namespace PayloadCall

/-- What the call ends with: the result, and the checksum that it sets. Whether the payload was
complete plays no part. -/
def outcome (libs : Libs) (call : PayloadCall ε) : Except DoFault (PayloadReader ε) × Option Bytes :=
  if call.hashKey.length = 32 then
    (call.encrypt libs call.payload.bytes, some (Hex.bytes.encode (libs.sum64 call.hashKey call.payload.bytes)))
  else (.error (.error (.rest .hashKeySize)), none)

/-- The chunk that the second pipe is still to be offered. -/
def pending : CopierPhase → Bytes
  | .toHash chunk => chunk
  | _ => []

def Piped (state : Encrypting ε) : Prop :=
  match state.copier with
  | .reading => state.hashPipe = {} ∧ state.bodyPipe = {}
  | .toHash _ => state.hashPipe.closed = false ∧ state.bodyPipe = {}
  | .toPayload => state.hashPipe = {} ∧ state.bodyPipe.closed = false
  | .closing => state.hashPipe = ⟨[], true⟩ ∧ state.bodyPipe = {} ∧ state.unread = []
  | .ended => state.hashPipe = ⟨[], true⟩ ∧ state.bodyPipe = ⟨[], true⟩ ∧ state.unread = []

def Called (libs : Libs) (call : PayloadCall ε) (state : Encrypting ε) : Prop :=
  match state.caller with
  | .starting => state.payloadChecksum = none
  | .hashing => call.hashKey.length = 32 ∧ state.payloadChecksum = none
  | .waiting =>
    call.hashKey.length = 32 ∧ state.hashPipe.closed = true ∧
      state.payloadChecksum = some (Hex.bytes.encode (libs.sum64 call.hashKey call.payload.bytes))
  | .returned result => (result, state.payloadChecksum) = call.outcome libs

/-- No byte is lost or added on the way through a pipe. -/
structure Flows (libs : Libs) (call : PayloadCall ε) (state : Encrypting ε) : Prop where
  piped : Piped state
  hashed : state.hashed ++ state.hashPipe.offered ++ state.unread.flatten = call.payload.bytes
  body : state.body ++ state.bodyPipe.offered ++ pending state.copier ++ state.unread.flatten = call.payload.bytes
  bodyRead : state.bodyRead = true → state.bodyPipe.closed = true
  called : call.Called libs state

theorem Piped.closed_hash (piped : Piped state) (closed : state.hashPipe.closed = true) :
    state.hashPipe = ⟨[], true⟩ ∧ state.unread = [] := by
  unfold Piped at piped
  cases phase : state.copier <;> simp only [phase] at piped <;> simp_all

theorem Piped.closed_body (piped : Piped state) (closed : state.bodyPipe.closed = true) :
    state.bodyPipe = ⟨[], true⟩ ∧ state.unread = [] ∧ pending state.copier = [] := by
  unfold Piped at piped
  cases phase : state.copier <;> simp only [phase] at piped <;> simp_all [pending]

theorem flows_start (libs : Libs) (call : PayloadCall ε) : call.Flows libs call.start where
  piped := ⟨rfl, rfl⟩
  hashed := rfl
  body := rfl
  bodyRead := by simp [start]
  called := rfl

theorem Called.other (called : call.Called libs state) (caller : after.caller = state.caller)
    (checksum : after.payloadChecksum = state.payloadChecksum)
    (closed : state.hashPipe.closed = true → after.hashPipe.closed = true) : call.Called libs after := by
  unfold Called at called ⊢
  rw [caller, checksum]
  cases phase : state.caller with
  | waiting =>
    rw [phase] at called
    exact ⟨called.1, closed called.2.1, called.2.2⟩
  | _ =>
    rw [phase] at called
    exact called

/-! What a step of each goroutine can do. -/

theorem copierStep_cases (taken : call.copierStep state = some after) :
    (state.copier = .reading ∧ state.unread = [] ∧
      after = { state with logged := call.payload.failure, copier := .closing, hashPipe := { state.hashPipe with closed := true } }) ∨
    (∃ unread, state.copier = .reading ∧ state.unread = [] :: unread ∧ after = { state with unread }) ∨
    (∃ chunk unread, state.copier = .reading ∧ state.unread = chunk :: unread ∧
      after = { state with unread, copier := .toHash chunk, hashPipe := { state.hashPipe with offered := chunk } }) ∨
    (∃ chunk, state.copier = .toHash chunk ∧ state.hashPipe.offered = [] ∧
      after = { state with copier := .toPayload, bodyPipe := { state.bodyPipe with offered := chunk } }) ∨
    (state.copier = .toPayload ∧ state.bodyPipe.offered = [] ∧ after = { state with copier := .reading }) ∨
    (state.copier = .closing ∧ after = { state with copier := .ended, bodyPipe := { state.bodyPipe with closed := true } }) := by
  unfold copierStep at taken
  cases phase : state.copier with
  | reading =>
    simp only [phase] at taken
    cases left : state.unread with
    | nil =>
      simp only [left] at taken
      exact .inl ⟨rfl, rfl, (some.inj taken).symm⟩
    | cons chunk unread =>
      cases chunk with
      | nil =>
        simp only [left] at taken
        exact .inr (.inl ⟨unread, rfl, rfl, by simpa using taken.symm⟩)
      | cons first chunk =>
        simp only [left] at taken
        exact .inr (.inr (.inl ⟨first :: chunk, unread, rfl, rfl, (some.inj taken).symm⟩))
  | toHash chunk =>
    simp only [phase] at taken
    obtain ⟨read, made⟩ := ite_none_right_eq_some.mp taken
    exact .inr (.inr (.inr (.inl ⟨chunk, rfl, read, (some.inj made).symm⟩)))
  | toPayload =>
    simp only [phase] at taken
    obtain ⟨read, made⟩ := ite_none_right_eq_some.mp taken
    exact .inr (.inr (.inr (.inr (.inl ⟨rfl, read, (some.inj made).symm⟩))))
  | closing =>
    simp only [phase] at taken
    exact .inr (.inr (.inr (.inr (.inr ⟨rfl, (some.inj taken).symm⟩))))
  | ended => simp [phase] at taken

theorem bodyReaderStep_cases {more} (taken : bodyReaderStep more state = some after) : state.bodyRead = false ∧
      (state.bodyPipe.offered ≠ [] ∧
          after = { state with bodyPipe := (state.bodyPipe.read more).2, body := state.body ++ (state.bodyPipe.read more).1 } ∨
        state.bodyPipe.closed = true ∧ after = { state with bodyRead := true }) := by
  unfold bodyReaderStep at taken
  split_ifs at taken with read offered closed
  · exact ⟨by simpa using read, .inl ⟨offered, (some.inj taken).symm⟩⟩
  · exact ⟨by simpa using read, .inr ⟨closed, (some.inj taken).symm⟩⟩

theorem callerStep_cases {more} (taken : call.callerStep libs more state = some after) :
    (state.caller = .starting ∧ call.hashKey.length = 32 ∧ after = { state with caller := .hashing }) ∨
    (state.caller = .starting ∧ call.hashKey.length ≠ 32 ∧
      after = { state with caller := .returned (.error (.error (.rest .hashKeySize))) }) ∨
    (state.caller = .hashing ∧ state.hashPipe.offered ≠ [] ∧
      after = { state with hashPipe := (state.hashPipe.read more).2, hashed := state.hashed ++ (state.hashPipe.read more).1 }) ∨
    (state.caller = .hashing ∧ state.hashPipe.closed = true ∧
      after = { state with
        caller := .waiting, payloadChecksum := some (Hex.bytes.encode (libs.sum64 call.hashKey state.hashed)) }) ∨
    (state.caller = .waiting ∧ state.bodyRead = true ∧ after = { state with caller := .returned (call.encrypt libs state.body) }) := by
  unfold callerStep at taken
  cases phase : state.caller with
  | starting =>
    simp only [phase] at taken
    split_ifs at taken with fits
    · exact .inl ⟨rfl, fits, (some.inj taken).symm⟩
    · exact .inr (.inl ⟨rfl, fits, (some.inj taken).symm⟩)
  | hashing =>
    simp only [phase] at taken
    split_ifs at taken with offered closed
    · exact .inr (.inr (.inl ⟨rfl, offered, by simpa using taken.symm⟩))
    · exact .inr (.inr (.inr (.inl ⟨rfl, closed, (some.inj taken).symm⟩)))
  | waiting =>
    simp only [phase] at taken
    obtain ⟨read, made⟩ := ite_none_right_eq_some.mp taken
    exact .inr (.inr (.inr (.inr ⟨rfl, read, (some.inj made).symm⟩)))
  | returned result => simp [phase] at taken

theorem Flows.copier (flows : call.Flows libs state) (taken : call.copierStep state = some after) : call.Flows libs after := by
  obtain ⟨piped, hashed, body, bodyRead, called⟩ := flows
  obtain ⟨phase, left, rfl⟩ | ⟨unread, phase, left, rfl⟩ | ⟨chunk, unread, phase, left, rfl⟩ | ⟨chunk, phase, read, rfl⟩ |
    ⟨phase, read, rfl⟩ | ⟨phase, rfl⟩ := copierStep_cases taken <;> simp only [Piped, phase] at piped
  · obtain ⟨hashPipe, bodyPipe⟩ := piped
    exact ⟨by simp [Piped, hashPipe, bodyPipe, left], hashed, by simpa [phase, pending] using body, bodyRead,
      called.other rfl rfl (fun _ => rfl)⟩
  · exact ⟨by simpa [Piped, phase] using piped, by simpa [left] using hashed, by simpa [left] using body, bodyRead,
      called.other rfl rfl id⟩
  · obtain ⟨hashPipe, bodyPipe⟩ := piped
    exact ⟨by simp [Piped, hashPipe, bodyPipe], by simpa [hashPipe, left] using hashed,
      by simpa [phase, pending, left] using body, bodyRead, called.other rfl rfl id⟩
  · obtain ⟨opened, bodyPipe⟩ := piped
    have hashPipe : state.hashPipe = {} := by cases pipe : state.hashPipe; simp_all
    exact ⟨by simp [Piped, hashPipe, bodyPipe], hashed, by simpa [bodyPipe, phase, pending] using body, bodyRead,
      called.other rfl rfl id⟩
  · obtain ⟨hashPipe, opened⟩ := piped
    have bodyPipe : state.bodyPipe = {} := by cases pipe : state.bodyPipe; simp_all
    exact ⟨by simp [Piped, hashPipe, bodyPipe], hashed, by simpa [phase, pending] using body, bodyRead, called.other rfl rfl id⟩
  · obtain ⟨hashPipe, bodyPipe, left⟩ := piped
    exact ⟨by simp [Piped, hashPipe, bodyPipe, left], hashed, by simpa [phase, pending] using body, fun _ => rfl,
      called.other rfl rfl id⟩

theorem Piped.writing_body (piped : Piped state) (offered : state.bodyPipe.offered ≠ []) : state.copier = .toPayload := by
  unfold Piped at piped
  cases phase : state.copier with
  | toPayload => rfl
  | _ =>
    simp only [phase] at piped
    simp [piped] at offered

theorem Piped.writing_hash (piped : Piped state) (offered : state.hashPipe.offered ≠ []) : ∃ chunk, state.copier = .toHash chunk := by
  unfold Piped at piped
  cases phase : state.copier with
  | toHash chunk => exact ⟨chunk, rfl⟩
  | _ =>
    simp only [phase] at piped
    simp [piped] at offered

theorem Flows.bodyReader (flows : call.Flows libs state) {more} (taken : bodyReaderStep more state = some after) :
    call.Flows libs after := by
  obtain ⟨piped, hashed, body, bodyRead, called⟩ := flows
  obtain ⟨-, ⟨offered, rfl⟩ | ⟨closed, rfl⟩⟩ := bodyReaderStep_cases taken
  · have phase := piped.writing_body offered
    refine ⟨by simpa [Piped, phase, Pipe.read] using piped, hashed, ?_, bodyRead, called.other rfl rfl id⟩
    simpa [Pipe.read, phase, pending] using body
  · exact ⟨piped, hashed, body, fun _ => closed, called.other rfl rfl id⟩

theorem Flows.caller (flows : call.Flows libs state) {more} (taken : call.callerStep libs more state = some after) :
    call.Flows libs after := by
  obtain ⟨piped, hashed, body, bodyRead, called⟩ := flows
  obtain ⟨phase, fits, rfl⟩ | ⟨phase, misfit, rfl⟩ | ⟨phase, offered, rfl⟩ | ⟨phase, closed, rfl⟩ | ⟨phase, read, rfl⟩ :=
    callerStep_cases taken <;> simp only [Called, phase] at called
  · exact ⟨piped, hashed, body, bodyRead, ⟨fits, called⟩⟩
  · exact ⟨piped, hashed, body, bodyRead, by simp [Called, outcome, misfit, called]⟩
  · obtain ⟨chunk, writing⟩ := piped.writing_hash offered
    exact ⟨by simpa [Piped, writing, Pipe.read] using piped, by simpa [Pipe.read] using hashed, body, bodyRead,
      by simpa [Called, phase] using called⟩
  · obtain ⟨hashPipe, left⟩ := piped.closed_hash closed
    have all : state.hashed = call.payload.bytes := by simpa [hashPipe, left] using hashed
    exact ⟨piped, hashed, body, bodyRead, ⟨called.1, closed, by rw [all]⟩⟩
  · obtain ⟨fits, -, checksum⟩ := called
    obtain ⟨bodyPipe, left, passed⟩ := piped.closed_body (bodyRead read)
    have all : state.body = call.payload.bytes := by simpa [bodyPipe, left, passed] using body
    exact ⟨piped, hashed, body, bodyRead, by simp [Called, outcome, fits, checksum, all]⟩

theorem flows (reached : Reachable (call.step libs) call.start state) : call.Flows libs state := by
  refine reached.invariant (call.Flows libs) (flows_start libs call) fun goroutine _ _ flows taken => ?_
  cases goroutine with
  | copier => exact flows.copier taken
  | bodyReader more => exact flows.bodyReader taken
  | caller more => exact flows.caller taken

theorem returned_eq {result} (reached : Reachable (call.step libs) call.start state)
    (returned : state.caller = .returned result) : (result, state.payloadChecksum) = call.outcome libs := by
  have called := (flows reached).called
  rwa [Called, returned] at called

/-! The goroutines cannot block each other, so that the call does return. -/

def copierRank : CopierPhase → Nat
  | .reading => 2
  | .toHash chunk => chunk.length + 4
  | .toPayload => 3
  | .closing => 1
  | .ended => 0

def callerRank : CallerPhase ε → Nat
  | .starting => 3
  | .hashing => 2
  | .waiting => 1
  | .returned _ => 0

def rank (state : Encrypting ε) : Nat :=
  (state.unread.map fun chunk => 2 * chunk.length + 3).sum + copierRank state.copier + callerRank state.caller +
    state.hashPipe.offered.length + state.bodyPipe.offered.length + (!state.bodyRead).toNat

theorem rank_copier (taken : call.copierStep state = some after) : rank after < rank state := by
  obtain ⟨phase, -, rfl⟩ | ⟨unread, -, left, rfl⟩ | ⟨chunk, unread, phase, left, rfl⟩ | ⟨chunk, phase, -, rfl⟩ |
    ⟨phase, -, rfl⟩ | ⟨phase, rfl⟩ := copierStep_cases taken
  · simp [rank, phase, copierRank]
  · simp only [rank, left, map_cons, sum_cons]
    omega
  · -- the chunk counts twice: it is still to go through both pipes
    simp only [rank, phase, left, copierRank, map_cons, sum_cons]
    omega
  · simp only [rank, phase, copierRank]
    omega
  · simp [rank, phase, copierRank]
  · simp [rank, phase, copierRank]

theorem length_drop_lt {offered : Bytes} (some : offered ≠ []) (more : Nat) :
    (offered.drop (more + 1)).length < offered.length := by
  have := length_pos_iff.mpr some
  rw [length_drop]
  omega

theorem rank_bodyReader {more : Nat} (taken : bodyReaderStep more state = some after) : rank after < rank state := by
  obtain ⟨unread, ⟨offered, rfl⟩ | ⟨-, rfl⟩⟩ := bodyReaderStep_cases taken
  · have fewer := length_drop_lt offered more
    simp only [rank, Pipe.read]
    omega
  · simp [rank, unread]

theorem rank_caller {more : Nat} (taken : call.callerStep libs more state = some after) : rank after < rank state := by
  obtain ⟨phase, -, rfl⟩ | ⟨phase, -, rfl⟩ | ⟨phase, offered, rfl⟩ | ⟨phase, -, rfl⟩ | ⟨phase, -, rfl⟩ := callerStep_cases taken
  · simp [rank, phase, callerRank]
  · simp [rank, phase, callerRank]
  · have fewer := length_drop_lt offered more
    simp only [rank, Pipe.read]
    omega
  · simp [rank, phase, callerRank]
  · simp [rank, phase, callerRank]

theorem rank_step (goroutine : Goroutine) (state after : Encrypting ε) (taken : call.step libs goroutine state = some after) :
    rank after < rank state := by
  cases goroutine with
  | copier => exact rank_copier taken
  | bodyReader more => exact rank_bodyReader taken
  | caller more => exact rank_caller taken

theorem Flows.progress_open (flows : call.Flows libs state) (opened : state.hashPipe.closed = false)
    (taken : state.hashPipe.offered = []) : ∃ goroutine, (call.step libs goroutine state).isSome := by
  have piped := flows.piped
  unfold Piped at piped
  cases phase : state.copier with
  | reading =>
    refine ⟨.copier, ?_⟩
    cases left : state.unread with
    | nil => simp [step, copierStep, phase, left]
    | cons chunk unread => cases chunk <;> simp [step, copierStep, phase, left]
  | toHash chunk => exact ⟨.copier, by simp [step, copierStep, phase, taken]⟩
  | toPayload =>
    simp only [phase] at piped
    by_cases offered : state.bodyPipe.offered = []
    · exact ⟨.copier, by simp [step, copierStep, phase, offered]⟩
    · have reading : state.bodyRead = false := by
        by_contra read
        have closed := flows.bodyRead (by simpa using read)
        simp [piped] at closed
      exact ⟨.bodyReader 0, by simp [step, bodyReaderStep, offered, reading]⟩
  | closing | ended =>
    simp only [phase] at piped
    simp [piped] at opened

theorem Flows.progress_closed (flows : call.Flows libs state) (closed : state.hashPipe.closed = true)
    (unread : state.bodyRead = false) : ∃ goroutine, (call.step libs goroutine state).isSome := by
  have piped := flows.piped
  unfold Piped at piped
  cases phase : state.copier with
  | closing => exact ⟨.copier, by simp [step, copierStep, phase]⟩
  | ended =>
    simp only [phase] at piped
    exact ⟨.bodyReader 0, by simp [step, bodyReaderStep, unread, piped]⟩
  | _ =>
    simp only [phase] at piped
    simp [piped] at closed

theorem Flows.progress (flows : call.Flows libs state) :
    (∃ result, state.caller = .returned result) ∨ ∃ goroutine, (call.step libs goroutine state).isSome := by
  have called := flows.called
  unfold Called at called
  cases phase : state.caller with
  | starting => by_cases fits : call.hashKey.length = 32 <;> exact .inr ⟨.caller 0, by simp [step, callerStep, phase, fits]⟩
  | hashing =>
    right
    by_cases offered : state.hashPipe.offered = []
    · cases closed : state.hashPipe.closed with
      | true => exact ⟨.caller 0, by simp [step, callerStep, phase, offered, closed]⟩
      | false => exact flows.progress_open closed offered
    · exact ⟨.caller 0, by simp [step, callerStep, phase, offered]⟩
  | waiting =>
    right
    simp only [phase] at called
    cases read : state.bodyRead with
    | true => exact ⟨.caller 0, by simp [step, callerStep, phase, read]⟩
    | false => exact flows.progress_closed called.2.1 read
  | returned result => exact .inl ⟨result, rfl⟩

theorem exists_returned (reached : Reachable (call.step libs) call.start state) :
    ∃ last, Reachable (call.step libs) state last ∧ ∃ result, last.caller = .returned result := by
  refine reached.exists_over rank_step fun state reached => ?_
  obtain returned | ⟨goroutine, moves⟩ := (flows reached).progress
  · exact .inl returned
  · exact .inr ⟨goroutine, isSome_iff_exists.mp moves⟩

/-- Every run of the goroutines is finite, and one that cannot go on has returned what the whole payload gives, however it is
cut into chunks and the goroutines take turns. -/
theorem encryptPayload_refines (libs : Libs) (call : PayloadCall ε) (actions : List Goroutine) (state : Encrypting ε)
    (ran : run (call.step libs) actions call.start = some state) :
    actions.length ≤ rank call.start ∧ ((∀ goroutine, call.step libs goroutine state = none) →
      ∃ result, state.caller = .returned result ∧ (result, state.payloadChecksum) = call.outcome libs) := by
  have reached := Reachable.start.run ran
  have shorter := length_le_rank rank_step ran
  refine ⟨by omega, fun stuck => ?_⟩
  obtain ⟨result, returned⟩ | ⟨goroutine, moves⟩ := (flows reached).progress
  · exact ⟨result, returned, returned_eq reached returned⟩
  · simp [stuck goroutine] at moves

end PayloadCall

/-! The request. Its body comes from a pipe that ends the same way whether or not it was encoded. -/

namespace ApiRequest

variable {urls : UrlLib} {request : ApiRequest} {url : Bytes} {view : AuthView} {trace : Bool} {draws : DoDraws}

theorem payload_piped (request : ApiRequest) :
    request.payload false = .ok ((request.bodyReader : Option (PayloadReader ε)).map bytes) := by
  unfold payload bodyReader
  cases request.body with
  | none => rfl
  | some text => cases text <;> simp [bytes]

theorem reader_of_returned {hashKey} {nonce reader result}
    (reached : Reachable (PayloadCall.step libs ⟨view, hashKey.val, nonce, reader⟩) (PayloadCall.start ⟨view, hashKey.val, nonce, reader⟩) state)
    (returned : state.caller = .returned result) : view.reader libs hashKey nonce (some reader.bytes) =
      result.map fun encrypted => (state.payloadChecksum.getD [], some encrypted.bytes) := by
  have same := returned_eq reached returned
  rw [outcome, if_pos hashKey.property, Prod.mk.injEq] at same
  obtain ⟨rfl, checksum⟩ := same
  rw [AuthView.reader, AuthView.encryptPayload, checksumOf, if_pos hashKey.property, PayloadCall.encrypt, checksum]
  cases view.encrypt nonce reader.bytes with
  | error fault => rfl
  | ok encrypted => simp [PayloadReader.bytes, fromRest_ok, Except.map, bind, Except.bind, pure, Except.pure]

/-- The call ends before a request with a body is sent. -/
def Stopped (urls : UrlLib) (request : ApiRequest) (url : Bytes) (draws : DoDraws) : Option AuthView → Prop
  | none => urls.parse ((RestApiClient.mk url none).requestUrl request.path) = none
  | some view =>
    draws.hashKey = none ∨ view.crypt = none ∨ draws.payloadNonce = none ∨
      urls.parse ((RestApiClient.mk url none).requestUrl request.path) = none ∨
      view.isAuthenticated = false ∨ draws.tokenNonce = none

theorem reader_body (hashKey : HashKey) (nonce : Option Nonce) (payload : Bytes) :
    (∃ fault, view.reader libs hashKey nonce (some payload) = .error fault) ∧ (view.crypt = none ∨ nonce = none) ∨
      (∃ checksum encrypted, view.reader libs hashKey nonce (some payload) = .ok (checksum, some encrypted)) ∧
        view.crypt ≠ none ∧ nonce ≠ none := by
  rw [AuthView.reader, AuthView.encryptPayload, checksumOf, if_pos hashKey.property, AuthView.encrypt]
  cases view.crypt <;> cases nonce <;> simp [fromRest_ok, drawn, bind, Except.bind, pure, Except.pure]

theorem authorize_body (hashKey : HashKey) (payloadChecksum : Bytes) (nonce : Option Nonce) {httpRequest}
    (full : httpRequest.body ≠ none) :
    (∃ signed, request.authorize libs view hashKey payloadChecksum nonce httpRequest = .ok signed) ↔
      view.isAuthenticated = true ∧ view.crypt ≠ none ∧ nonce ≠ none := by
  have reads : ¬ Panics httpRequest.body (request.rest none).keysToSign := fun panics => full panics.2
  rw [ApiRequest.authorize, httpRequest.reads.signData libs hashKey.property, if_neg reads]
  simp only [fromRest_ok, bind, Except.bind, AuthView.getEncryptedToken]
  cases view.isAuthenticated with
  | false => simp
  | true => cases keyed : view.crypt <;> cases nonce <;> simp [AuthView.encrypt, keyed, drawn, bind, Except.bind, pure, Except.pure]

theorem sendFrom_iff {payload} (read : request.payload trace = .ok (some payload)) (authCrypt : Option AuthView) :
    (∃ sent, request.sendFrom libs urls url trace draws authCrypt = .ok sent) ↔ ¬ request.Stopped urls url draws authCrypt := by
  cases authCrypt with
  | none =>
    cases parsed : urls.parse ((RestApiClient.mk url none).requestUrl request.path) <;>
      simp [sendFrom, sendPlain, Stopped, read, parsed, bind, Except.bind, pure, Except.pure, throw, throwThe, MonadExceptOf.throw]
  | some view =>
    obtain ⟨hashKey, payloadNonce, tokenNonce⟩ := draws
    simp only [sendFrom, send, Stopped, read, drawn, bind, Except.bind]
    cases hashKey with
    | none => simp
    | some hashKey =>
      obtain ⟨⟨fault, failed⟩, missing⟩ | ⟨⟨payloadChecksum, encrypted, made⟩, -, drew⟩ :=
        @reader_body libs view hashKey payloadNonce payload
      · simp only [failed, reduceCtorEq, exists_false, false_iff, not_not]
        exact .inr (missing.imp_right .inl)
      · simp only [made]
        cases parsed : urls.parse ((RestApiClient.mk url none).requestUrl request.path) with
        | none => simp [throw, throwThe, MonadExceptOf.throw]
        | some target =>
          have signed := @authorize_body libs request view hashKey payloadChecksum tokenNonce
            { url := target, header := (request.rest none).header, body := some encrypted } (by simp)
          simp only
          cases authorized : request.authorize libs view hashKey payloadChecksum tokenNonce
              { url := target, header := (request.rest none).header, body := some encrypted } <;>
            simp_all [pure, Except.pure]

theorem unsent_iff {α : Type} (unencoded : request.body = some none) (authCrypt : Option AuthView)
    (transport : Method × Request → Except DoError α) :
    (request.exchange libs urls url trace draws authCrypt transport).1 = none ↔
      trace = true ∨ request.Stopped urls url draws authCrypt := by
  have unsent : (request.exchange libs urls url trace draws authCrypt transport).1 = none ↔
      ¬ ∃ sent, request.sendFrom libs urls url trace draws authCrypt = .ok sent := by
    unfold exchange
    cases request.sendFrom libs urls url trace draws authCrypt <;> simp
  rw [unsent]
  cases trace with
  | true =>
    have refused : request.payload true = .error (.error .marshal) := by simp [payload, unencoded]
    cases authCrypt with
    | none => simp [sendFrom, sendPlain, refused, bind, Except.bind]
    | some view => cases drew : draws.hashKey <;> simp [sendFrom, send, refused, drawn, drew, bind, Except.bind]
  | false =>
    have read : request.payload false = .ok (some []) := by simp [payload, unencoded]
    rw [sendFrom_iff read]
    simp

end ApiRequest

/-- The call returned an error, or a reader that will. -/
def Refused (result : Except DoFault (PayloadReader ε)) : Prop :=
  (∃ error, result = .error (.error error)) ∨ ∃ reader, result = .ok reader ∧ reader.failure ≠ none

theorem refused_outcome_iff (libs : Libs) (call : PayloadCall ε) :
    Refused (call.outcome libs).1 ∧ (call.outcome libs).2 = none ↔ call.hashKey.length ≠ 32 := by
  unfold outcome Refused
  by_cases fits : call.hashKey.length = 32 <;> simp [fits]

/-- A payload whose reader fails after some chunks is refused, and no checksum set for it, only
where `EncryptPayload` refuses every payload; it does return in any case. A request whose body
cannot be encoded is held back only by the trace log, or by what holds back any request. -/
theorem truncated_refused_iff {α : Type} (libs : Libs) (urls : UrlLib) (view : AuthView) (hashKey : Bytes) (nonce : Option Nonce)
    (chunks : List Bytes) (error : ε) (request : ApiRequest) (url : Bytes) (trace : Bool) (draws : DoDraws)
    (authCrypt : Option AuthView) (transport : Method × Request → Except DoError α) :
    let call : PayloadCall ε := ⟨view, hashKey, nonce, ⟨chunks, some error⟩⟩
    (∀ state, Reachable (call.step libs) call.start state →
      ∃ last, Reachable (call.step libs) state last ∧ ∃ result, last.caller = .returned result) ∧
    ((∀ state result, Reachable (call.step libs) call.start state → state.caller = .returned result →
      Refused result ∧ state.payloadChecksum = none) ↔ hashKey.length ≠ 32) ∧
    ((exchange libs urls { request with body := some none } url trace draws authCrypt transport).1 = none ↔
      trace = true ∨ request.Stopped urls url draws authCrypt) := by
  intro call
  refine ⟨fun state reached => exists_returned reached, ?_, ?_⟩
  · rw [← refused_outcome_iff libs call]
    constructor
    · intro all
      obtain ⟨last, reached, result, returned⟩ := exists_returned (@Reachable.start _ _ (call.step libs) call.start)
      rw [← returned_eq reached returned]
      exact all last result reached returned
    · intro refused state result reached returned
      rw [← returned_eq reached returned] at refused
      exact refused
  · rw [unsent_iff rfl]
    cases authCrypt <;> rfl

def cutCall : PayloadCall Unit := ⟨⟨true, textBytes "key", some flipCrypt⟩, stepKey.val, some zeroNonce, ⟨[[1, 2]], some ()⟩⟩

theorem cutCall_refines :
    ∃ state result, run (cutCall.step (payloadLibs uriSums)) [.caller 0, .copier, .caller 9, .copier, .bodyReader 9, .copier,
        .copier, .copier, .bodyReader 9, .caller 9, .caller 9] cutCall.start = some state ∧
      state.caller = .returned result ∧ (result, state.payloadChecksum) = cutCall.outcome (payloadLibs uriSums) := by
  obtain ⟨result, returned, same⟩ := (encryptPayload_refines (payloadLibs uriSums) cutCall [.caller 0, .copier, .caller 9, .copier,
    .bodyReader 9, .copier, .copier, .copier, .bodyReader 9, .caller 9, .caller 9] _ rfl).2 (fun goroutine => by cases goroutine <;> rfl)
  exact ⟨_, result, rfl, returned, same⟩

/-- The two bytes are hashed, encrypted and returned as if there were no more; and a request whose
body could not be encoded is sent with an empty payload, before the error is returned. -/
theorem truncated_sent :
    (∃ state reader, run (cutCall.step (payloadLibs uriSums)) [.caller 0, .copier, .caller 9, .copier, .bodyReader 9, .copier,
        .copier, .copier, .bodyReader 9, .caller 9, .caller 9] cutCall.start = some state ∧
      state.caller = .returned (.ok reader) ∧ reader.failure = none ∧
      state.payloadChecksum = some (Hex.bytes.encode (uriSums stepKey.val [1, 2]))) ∧
    ∃ sent, exchange (payloadLibs uriSums) samplePage { method := .post, path := textBytes "/p", body := some none }
      (textBytes "http://h/") false ⟨some stepKey, some zeroNonce, some zeroNonce⟩ (some cutCall.view) (fun _ => .ok ()) =
        (some sent, .error (.error .marshal)) :=
  ⟨⟨_, _, rfl, rfl, rfl, rfl⟩, _, rfl⟩

end MycsCommon.Mycsnode
