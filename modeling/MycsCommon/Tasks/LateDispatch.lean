import MycsCommon.Tasks.TaskDispatcher

/-! A dispatcher whose clients dispatch when they like, also while `Stop` runs and behind it,
and the `queued.Wait()` of `Stop` as the wait group has it: who finds the counter at zero
returns at once, who does not is counted as a waiter until a `Done` brings it to zero, and
panics if it is no longer zero when he wakes up. -/

namespace MycsCommon.Tasks

variable {δ ε : Type}

inductive Waiter where
  | none | blocked | released
deriving DecidableEq, Repr

structure Dispatcher (δ ε : Type) where
  state : State δ ε
  /-- the wait of `Stop` -/
  waiter : Waiter := .none

/-- A client enters `dispatch`. -/
def State.dispatch (state : State δ ε) (task : Task δ) : State δ ε :=
  ({ state with
    tasks := state.tasks ++ [task]
    clients := state.clients ++ [Client.putting state.tasks.length]
  }.add).note (.dispatched state.tasks.length task.numTries)

namespace Dispatcher

/-- The last `Done` releases the waiter. -/
def release (dispatcher : Dispatcher δ ε) : Dispatcher δ ε :=
  if dispatcher.waiter = .blocked ∧ dispatcher.state.queued = 0 then { dispatcher with waiter := .released } else dispatcher

/-- The next action of `Stop`. -/
def stop (dispatcher : Dispatcher δ ε) : Option (Dispatcher δ ε) :=
  match dispatcher.state.stop, dispatcher.waiter with
  | .waiting, .none =>
    if dispatcher.state.queued = 0 then some { dispatcher with state := { dispatcher.state with stop := .waited } }
    else some { dispatcher with waiter := .blocked }
  | .waiting, .blocked => none
  | .waiting, .released =>
    if dispatcher.state.queued = 0 then some { dispatcher with state := { dispatcher.state with stop := .waited } }
    else some { dispatcher with state := dispatcher.state.panic }
  | _, _ => (Tasks.step .stop dispatcher.state).map fun state => { dispatcher with state }

/-- A panic ends the process. -/
def step (action : Action δ ε) (dispatcher : Dispatcher δ ε) : Option (Dispatcher δ ε) :=
  if dispatcher.state.panicked then none
  else
    match action with
    | .dispatch task => some { dispatcher with state := dispatcher.state.dispatch task }
    | .stop => dispatcher.stop
    | .start numWorkers => (Tasks.step (.start numWorkers) dispatcher.state).map fun state => { dispatcher with state }
    | .client index choice => (Tasks.step (.client index choice) dispatcher.state).map fun state => release { dispatcher with state }
    | .worker index choice => (Tasks.step (.worker index choice) dispatcher.state).map fun state => release { dispatcher with state }

end Dispatcher

end MycsCommon.Tasks
