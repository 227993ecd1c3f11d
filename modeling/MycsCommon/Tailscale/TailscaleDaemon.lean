import MycsCommon.Utils.ExecTimer

/-! `Stop` and `nodeCheck` of tailscale/tailscale_daemon.go, together with the timer that calls
the one and is stopped by the other. Of the node check its use of the context and of the
mutex is kept; the pings are sent by goroutines of their own, whose retry loop is at the end. -/

namespace MycsCommon.Tailscale
open Utils

inductive Party where
  | stop | nodeCheck
deriving DecidableEq, Repr

inductive StopPhase where
  | idle
  /-- `mx` is held; the timer is being stopped. -/
  | locked
  /-- The services have been canceled and are waited for. -/
  | canceled
  | returned
deriving DecidableEq, Repr

/-- Where the callback that is in flight is. -/
inductive CheckPhase where
  | idle | entered
  /-- The context was not done. -/
  | waiting
  | holding
  | returning (err : Option ExecTimer.ContextError)
deriving DecidableEq, Repr

def nodeCheckTimeout : Int := 5000

structure TailscaleDaemon where
  nodeCheckTimer : ExecTimer.State
  ctx : Option ExecTimer.ContextError := none
  mx : Option Party := none
  stop : StopPhase := .idle
  check : CheckPhase := .idle
deriving DecidableEq, Repr

/-- `Start`. -/
def TailscaleDaemon.started : TailscaleDaemon where
  nodeCheckTimer := ExecTimer.started nodeCheckTimeout

inductive Action where
  /-- A goroutine of the timer, outside of the callback. -/
  | timer (index : Nat) (turn : ExecTimer.Turn)
  /-- The node check: the timer calls it, and it returns to the timer. -/
  | enter (index : Nat)
  | checkContext | lock | unlock
  | leave (index : Nat)
  /-- `Stop`, with the actions of the timer's `Stop` in it. -/
  | stopLock
  | stopTimer (action : ExecTimer.Action)
  | stopCancel | stopUnlock
deriving DecidableEq, Repr

/-- Whether this is up to the callback. -/
def inCallback : ExecTimer.Turn → Bool
  | .begin | .ended _ _ => true
  | _ => false

/-- Whether this is an action of the timer's `Stop`. -/
def ofStop : ExecTimer.Action → Bool
  | .cancel | .wait | .clear | .leave => true
  | _ => false

def errorText : ExecTimer.ContextError → String
  | .canceled => "context canceled"
  | .deadlineExceeded => "context deadline exceeded"

namespace TailscaleDaemon

/-- A step of the timer, which does not stop on errors. -/
def stepTimer (action : ExecTimer.Action) (daemon : TailscaleDaemon) : Option TailscaleDaemon := do
  let nodeCheckTimer ← ExecTimer.step false action daemon.nodeCheckTimer
  some { daemon with nodeCheckTimer }

def step (action : Action) (daemon : TailscaleDaemon) : Option TailscaleDaemon :=
  match action with
  | .timer index turn => if inCallback turn then none else daemon.stepTimer (.turn index turn)
  | .enter index => do
    let daemon ← daemon.stepTimer (.turn index .begin)
    some { daemon with check := .entered }
  | .checkContext =>
    if daemon.check = .entered then
      match daemon.ctx with
      | some err => some { daemon with check := .returning (some err) }
      | none => some { daemon with check := .waiting }
    else none
  | .lock =>
    if daemon.check = .waiting ∧ daemon.mx = none then some { daemon with check := .holding, mx := some .nodeCheck }
    else none
  | .unlock => if daemon.check = .holding then some { daemon with check := .returning none, mx := none } else none
  | .leave index =>
    match daemon.check with
    | .returning err => do
      let daemon ← daemon.stepTimer (.turn index (.ended nodeCheckTimeout (err.map errorText)))
      some { daemon with check := .idle }
    | _ => none
  | .stopLock =>
    if daemon.stop = .idle ∧ daemon.mx = none then some { daemon with stop := .locked, mx := some .stop } else none
  | .stopTimer action => if daemon.stop = .locked ∧ ofStop action then daemon.stepTimer action else none
  | .stopCancel =>
    if daemon.stop = .locked ∧ daemon.nodeCheckTimer.shared.stop = .returned then do
      let daemon ← daemon.stepTimer (.parentDone .canceled)
      some { daemon with stop := .canceled, ctx := daemon.ctx <|> some .canceled }
    else none
  | .stopUnlock => if daemon.stop = .canceled then some { daemon with stop := .returned, mx := none } else none

end TailscaleDaemon

/-- An error of `Ping`, as `errors.Is` reads it. -/
inductive PingError where
  | context (err : ExecTimer.ContextError)
  | other (text : String)
deriving DecidableEq, Repr

/-- What a `Ping` returns, with `none` for a pong: the results while the context lasts, and then the context's error. -/
def ping (results : List (Option PingError)) (ended : ExecTimer.ContextError) (turn : Nat) : Option PingError :=
  results.getD turn (some (.context ended))

inductive PingOutcome where
  | timedOut | pong
deriving DecidableEq, Repr

/-- The retry loop from a turn on, within a number of turns. -/
def pingLoop (ping : Nat → Option PingError) : Nat → Nat → Option PingOutcome
  | 0, _ => none
  | turns + 1, turn =>
    match ping turn with
    | none => some .pong
    | some (.context .deadlineExceeded) => some .timedOut
    | some _ => pingLoop ping turns (turn + 1)

end MycsCommon.Tailscale
