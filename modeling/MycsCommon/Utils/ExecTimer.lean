import MycsCommon.Library.Machine

/-! The timer of utils/timer.go as a machine: one `ExecTimer` that is started once, its
goroutines and one call of `Stop`. Durations are in milliseconds. A ticker is known by the
order in which it was made; one that is stopped delivers nothing more, as the channels of
timers do since Go 1.23. How much time passes is left open, so a running ticker may deliver
at any moment and `WaitTimeout` may give up at any moment. -/

namespace MycsCommon.Utils.ExecTimer

inductive ContextError where
  | canceled | deadlineExceeded
deriving DecidableEq, Repr

inductive TimerError where
  | callback (message : String)
  | context (err : ContextError)
deriving DecidableEq, Repr

/-- Where `Stop` is: what it has done last. -/
inductive StopPhase where
  | idle | cancelled | waited
  /-- The ticker is cleared and the send on `stop` is pending. -/
  | sending
  | returning | returned
deriving DecidableEq, Repr

/-- What the goroutines and `Stop` share. -/
structure Shared where
  ctx : Option ContextError := none
  inflight : Nat := 0
  timeoutTimer : Option Nat := none
  tickTime : Int := 0
  callbackError : Option TimerError := none
  /-- The number of tickers made. -/
  tickers : Nat := 0
  stop : StopPhase := .idle
  /-- A callback has begun after `Stop` returned. -/
  beganLate : Bool := false
deriving DecidableEq, Repr

def Shared.setTimerTicker (shared : Shared) (timeout : Int) : Shared :=
  let shared := if shared.timeoutTimer.isSome then { shared with timeoutTimer := none, tickTime := 0 } else shared
  if timeout > 0 then
    { shared with tickTime := timeout, timeoutTimer := some shared.tickers, tickers := shared.tickers + 1 }
  else shared

def Shared.noteError (shared : Shared) (err : Option String) : Shared :=
  match err with
  | some message => { shared with callbackError := some (.callback message) }
  | none => shared

/-- Where a goroutine is in `startTimer` and in the `invokeCallback` it has called. -/
inductive Phase where
  | starting (timeout : Int)
  /-- Before the operands of the `select` are evaluated. -/
  | looping
  | selecting (ticker : Nat)
  | awaitingStop
  | ticked
  | waited
  | added
  | calling
  | called (timeout : Int) (err : Option String)
  /-- A successor is to be started. -/
  | handing (timeout : Int)
  /-- `invokeCallback` returns, to go on with the loop or to leave it; `Done` is deferred. -/
  | leaving (again : Bool)
  | finished
  /-- `timeoutTimer.C` was evaluated while `timeoutTimer` was nil. -/
  | crashed
deriving DecidableEq, Repr

/-- The caller of `Start(0)` invokes the callback without a loop around it. -/
structure Goroutine where
  phase : Phase
  loops : Bool := true
deriving DecidableEq, Repr

inductive Turn where
  | setTicker | evaluate
  /-- The branches of the `select`; the receive from `stop` also ends the wait for it. -/
  | contextDone | receiveStop | tick
  /-- `WaitTimeout` sees nothing in flight, or gives up. -/
  | proceed | skip
  | add | begin
  | ended (timeout : Int) (err : Option String)
  | check | spawn | done
deriving DecidableEq, Repr

def Goroutine.into (goroutine : Goroutine) (phase : Phase) : Goroutine := { goroutine with phase }

/-- One action of a goroutine, with the goroutines it starts. -/
def Goroutine.advance (stopOnError : Bool) (goroutine : Goroutine) (turn : Turn) (shared : Shared) :
    Option (Goroutine × Shared × List Goroutine) :=
  match turn, goroutine.phase with
  | .setTicker, .starting timeout => some (goroutine.into .looping, shared.setTimerTicker timeout, [])
  | .evaluate, .looping =>
    match shared.timeoutTimer with
    | some ticker => some (goroutine.into (.selecting ticker), shared, [])
    | none => some (goroutine.into .crashed, shared, [])
  | .contextDone, .selecting _ =>
    match shared.ctx with
    | some .canceled => some (goroutine.into .awaitingStop, shared, [])
    | some err => some (goroutine.into .finished, { shared with callbackError := some (.context err) }, [])
    | none => none
  | .receiveStop, .selecting _ | .receiveStop, .awaitingStop =>
    if shared.stop = .sending then some (goroutine.into .finished, { shared with stop := .returning }, []) else none
  | .tick, .selecting ticker =>
    if shared.timeoutTimer = some ticker then some (goroutine.into .ticked, shared, []) else none
  | .proceed, .ticked =>
    if shared.tickTime ≤ 0 ∨ shared.inflight = 0 then some (goroutine.into .waited, shared, []) else none
  | .skip, .ticked =>
    if shared.tickTime > 0 then some (goroutine.into (if goroutine.loops then .looping else .finished), shared, [])
    else none
  | .add, .waited => some (goroutine.into .added, { shared with inflight := shared.inflight + 1 }, [])
  | .begin, .added =>
    some (goroutine.into .calling,
      { shared with beganLate := shared.beganLate || decide (shared.stop = .returned) }, [])
  | .ended timeout err, .calling => some (goroutine.into (.called timeout err), shared, [])
  | .check, .called timeout err =>
    if err.isSome ∧ stopOnError then some (goroutine.into (.leaving false), (shared.noteError err).setTimerTicker 0, [])
    else if timeout = 0 ∨ timeout = shared.tickTime then some (goroutine.into (.leaving true), shared.noteError err, [])
    else some (goroutine.into (.handing timeout), shared.noteError err, [])
  | .spawn, .handing timeout => some (goroutine.into (.leaving false), shared, [{ phase := .starting timeout }])
  | .done, .leaving again =>
    some (goroutine.into (if again && goroutine.loops then .looping else .finished),
      { shared with inflight := shared.inflight - 1 }, [])
  | _, _ => none

inductive Action where
  | turn (index : Nat) (turn : Turn)
  /-- The actions of `Stop`: to clear the ticker includes the test for nil before it. -/
  | cancel | wait | clear | leave
  /-- The context the timer was made with is done. -/
  | parentDone (err : ContextError)
deriving DecidableEq, Repr

structure State where
  shared : Shared := {}
  goroutines : List Goroutine
deriving DecidableEq, Repr

/-- `Start`. -/
def started (timeout : Int) : State where
  goroutines := if timeout = 0 then [{ phase := .ticked, loops := false }] else [{ phase := .starting timeout }]

/-- The actions of `Stop` and of the context. -/
def Shared.advance (action : Action) (shared : Shared) : Option Shared :=
  match action, shared.stop with
  | .cancel, .idle => some { shared with stop := .cancelled, ctx := shared.ctx <|> some .canceled }
  | .wait, .cancelled => if shared.inflight = 0 then some { shared with stop := .waited } else none
  | .clear, .waited =>
    match shared.timeoutTimer with
    | some _ => some { shared with stop := .sending, timeoutTimer := none }
    | none => some { shared with stop := .returning }
  | .leave, .returning => some { shared with stop := .returned }
  | .parentDone err, _ => some { shared with ctx := shared.ctx <|> some err }
  | _, _ => none

def step (stopOnError : Bool) (action : Action) (state : State) : Option State :=
  match action with
  | .turn index turn => do
    let goroutine ← state.goroutines[index]?
    let (next, shared, spawned) ← goroutine.advance stopOnError turn state.shared
    some { shared, goroutines := state.goroutines.set index next ++ spawned }
  | action => do
    let shared ← state.shared.advance action
    some { state with shared }

end MycsCommon.Utils.ExecTimer
