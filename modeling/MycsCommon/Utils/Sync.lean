import Mathlib.Data.List.Basic

/-! `LockTimeout` on one mutex. Each call starts a helper goroutine that locks the mutex
and closes the call's channel, and which goes on when the call has given up waiting. -/

namespace MycsCommon.Utils.Sync

/-- Before `Lock` returns, between it and the deferred close, and after that. -/
inductive Helper where
  | waiting | locked | closed
deriving DecidableEq, Repr

/-- In the `select`, returned true, then unlocked by the caller, or returned false. -/
inductive Outcome where
  | pending | taken | released | timedOut
deriving DecidableEq, Repr

structure Call where
  goroutine : Nat
  helper : Helper
  outcome : Outcome
deriving DecidableEq, Repr

inductive Turn where
  | lock | close | complete | timeout | unlock
deriving DecidableEq, Repr

/-- A turn of the call's helper or of its caller, with the mutex before and after. When the channel
is closed and the timer has fired, `select` picks either. -/
def Call.turn : Turn → Call → Bool → Option (Call × Bool)
  | .lock, ⟨goroutine, .waiting, outcome⟩, false => some (⟨goroutine, .locked, outcome⟩, true)
  | .close, ⟨goroutine, .locked, outcome⟩, mutex => some (⟨goroutine, .closed, outcome⟩, mutex)
  | .complete, ⟨goroutine, .closed, .pending⟩, mutex => some (⟨goroutine, .closed, .taken⟩, mutex)
  | .timeout, ⟨goroutine, helper, .pending⟩, mutex => some (⟨goroutine, helper, .timedOut⟩, mutex)
  | .unlock, ⟨goroutine, helper, .taken⟩, _ => some (⟨goroutine, helper, .released⟩, false)
  | _, _, _ => none

/-- The calls made so far, and how many more each goroutine makes. -/
structure State where
  mutex : Bool
  left : List Nat
  calls : List Call
deriving DecidableEq, Repr

def start (left : List Nat) : State := ⟨false, left, []⟩

inductive Action where
  | call (goroutine : Nat)
  | turn (index : Nat) (turn : Turn)
deriving DecidableEq, Repr

def Call.finished (call : Call) : Bool := call.outcome = .released || call.outcome = .timedOut

/-- A goroutine makes its next call when it is done with the one before. -/
def step : Action → State → Option State
  | .call goroutine, state =>
    match state.left[goroutine]? with
    | some (left + 1) =>
      if ∀ call ∈ state.calls, call.goroutine = goroutine → call.finished then
        some { state with
          left := state.left.set goroutine left
          calls := state.calls ++ [⟨goroutine, .waiting, .pending⟩] }
      else none
    | _ => none
  | .turn index turn, state => do
    let call ← state.calls[index]?
    let (after, mutex) ← call.turn turn state.mutex
    return { state with mutex, calls := state.calls.set index after }

end MycsCommon.Utils.Sync
