import MycsCommon.Utils.ChunkSeeker
import MycsCommon.Utils.ExecTimer

/-! A timer that nobody stops, with the arithmetic of its intervals. A duration counts
milliseconds, and a ticker is made with its product with `time.Millisecond` in 64 bits. What the
callback returns, call by call, is given beforehand. -/

namespace MycsCommon.Utils.ExecTimer

/-- `tickTime * time.Millisecond`, in nanoseconds. -/
def nanoseconds (tickTime : Int) : Int := int64 (tickTime * 1000000)

/-- What a timer is made and started with, and what its callback returns. -/
structure Script where
  stopOnError : Bool
  start : Int
  results : Nat → Int × Option String

structure Timing where
  timer : State
  /-- the calls of the callback that have returned -/
  calls : Nat := 0
  /-- the intervals of the tickers, in nanoseconds -/
  intervals : List Int := []
  /-- `NewTicker` was given an interval that is not positive -/
  panicked : Bool := false

namespace Timing

/-- The timer has taken a step; a ticker made by it has the interval of the new `tickTime`. -/
def follow (timing : Timing) (timer : State) : Timing :=
  if timing.timer.shared.tickers < timer.shared.tickers then
    if 0 < nanoseconds timer.shared.tickTime then
      { timing with timer, intervals := timing.intervals ++ [nanoseconds timer.shared.tickTime] }
    else { timing with timer, panicked := true }
  else { timing with timer }

/-- The steps of the goroutines and of the context, but none of `Stop`. -/
def step (script : Script) (action : Action) (timing : Timing) : Option Timing :=
  if timing.panicked then none
  else
    match action with
    | .turn index (.ended timeout err) =>
      if script.results timing.calls = (timeout, err) then
        (ExecTimer.step script.stopOnError (.turn index (.ended timeout err)) timing.timer).map fun timer =>
          { timing with timer, calls := timing.calls + 1 }
      else none
    | .turn index turn => (ExecTimer.step script.stopOnError (.turn index turn) timing.timer).map timing.follow
    | .parentDone err => (ExecTimer.step script.stopOnError (.parentDone err) timing.timer).map timing.follow
    | .cancel | .wait | .clear | .leave => none

end Timing

def Script.started (script : Script) : Timing := { timer := ExecTimer.started script.start }

end MycsCommon.Utils.ExecTimer
