import MycsCommon.Library.Machine

/-! The task dispatcher of utils/task.go: clients put tasks on a channel, workers run
them, put failing ones back and call the owner's handlers. A step is one access of one
goroutine to what it shares with others: the channel, the counter `queued`, the stop flag
and the task it holds. What a task function returns, and when a put times out, is up to
the action. Each call of `Once` or `WithRetries` is on a task of its own, and `Stop` is
called once and followed by no dispatch. -/

namespace MycsCommon.Tasks

variable {δ ε : Type}

/-- A task as its builder leaves it. Of a handler only whether there is one matters. -/
structure Task (δ : Type) where
  name : String
  numTries : Int := 0
  taskData : Option δ := none
  successFn : Bool := false
  errorFn : Bool := false
deriving DecidableEq, Repr

/-- Tasks are shared by reference. -/
abbrev TaskId := Nat

def runTask (name : String) : Task δ := { name }

def Task.withData (task : Task δ) (taskData : Option δ) : Task δ := { task with taskData }

def Task.onSuccess (task : Task δ) : Task δ := { task with successFn := true }

def Task.onError (task : Task δ) : Task δ := { task with errorFn := true }

def Task.timedOut (task : Task δ) : String := "timed out attempting to dispatch task " ++ task.name

/-- What a run leaves behind. An outcome also tells whether the task has a handler for it. -/
inductive Event (δ ε : Type) where
  | dispatched (task : TaskId) (numRetries : Int)
  | accepted (task : TaskId)
  | rejected (task : TaskId) (err : String)
  | ran (task : TaskId) (taskData : Option δ)
  | succeeded (task : TaskId) (called : Bool) (outData : Option δ)
  | failed (task : TaskId) (called : Bool) (err : ε) (outData : Option δ)
deriving DecidableEq, Repr

/-- A client inside `dispatch`, behind its `queued.Add(1)`. -/
inductive Client where
  | putting (task : TaskId)
  | expired (task : TaskId)
deriving DecidableEq, Repr

/-- Where a worker is in its loop. -/
inductive Worker (δ ε : Type) where
  | idle
  | running (task : TaskId)
  | answered (task : TaskId) (outData : Option δ) (err : Option ε)
  | requeuing (task : TaskId) (outData : Option δ) (err : ε)
  | putting (task : TaskId) (outData : Option δ) (err : ε)
  | expired (task : TaskId) (outData : Option δ) (err : ε)
  | refused (task : TaskId) (outData : Option δ) (err : ε)
  | finishing
  | exited
deriving DecidableEq, Repr

/-- Where `Stop` is: its flag is set from `waiting` on. -/
inductive Stopper where
  | uncalled | waiting | waited | closed
deriving DecidableEq, Repr

structure State (δ ε : Type) where
  bufferSize : Nat
  tasks : List (Task δ) := []
  dispatchQueue : List TaskId := []
  queued : Int := 0
  stop : Stopper := .uncalled
  clients : List Client := []
  workers : List (Worker δ ε) := []
  log : List (Event δ ε) := []
  panicked : Bool := false
deriving DecidableEq, Repr

namespace State

def setWorker (state : State δ ε) (index : Nat) (worker : Worker δ ε) : State δ ε :=
  { state with workers := state.workers.set index worker }

def setClient (state : State δ ε) (index : Nat) (client : Client) : State δ ε :=
  { state with clients := state.clients.set index client }

def leave (state : State δ ε) (index : Nat) : State δ ε :=
  { state with clients := state.clients.eraseIdx index }

def note (state : State δ ε) (event : Event δ ε) : State δ ε := { state with log := state.log ++ [event] }

/-- `queued.Add(1)` -/
def add (state : State δ ε) : State δ ε := { state with queued := state.queued + 1 }

/-- `queued.Done()`, which panics when the counter falls below zero. -/
def done (state : State δ ε) : State δ ε :=
  { state with queued := state.queued - 1, panicked := state.panicked || decide (state.queued ≤ 0) }

def panic (state : State δ ε) : State δ ε := { state with panicked := true }

def enqueue (state : State δ ε) (task : TaskId) : State δ ε :=
  { state with dispatchQueue := state.dispatchQueue ++ [task] }

/-- The channel send of `dispatch` into the buffer; on a closed channel it panics. -/
def send (state : State δ ε) (task : TaskId) : Option (State δ ε) :=
  if state.stop = .closed then some state.panic
  else if state.dispatchQueue.length < state.bufferSize then some (state.enqueue task)
  else none

/-- A worker enters the task function. -/
def enter (state : State δ ε) (index : Nat) (task : TaskId) : State δ ε :=
  (state.setWorker index (.running task)).note (.ran task (state.tasks[task]?.bind Task.taskData))

/-- The send meets a worker that waits for a task: the channel is empty and the task goes over at once. -/
def hand (state : State δ ε) (index : Nat) (task : TaskId) : Option (State δ ε) :=
  match state.dispatchQueue, state.workers[index]? with
  | [], some .idle => some (state.enter index task)
  | _, _ => none

def success (state : State δ ε) (id : TaskId) (outData : Option δ) : State δ ε :=
  state.note (.succeeded id (state.tasks[id]?.any Task.successFn) outData)

def failure (state : State δ ε) (id : TaskId) (err : ε) (outData : Option δ) : State δ ε :=
  state.note (.failed id (state.tasks[id]?.any Task.errorFn) err outData)

/-- No retry: the dispatcher stops, no tries are left, or there is nothing left to process. -/
def final (state : State δ ε) (task : Task δ) (outData : Option δ) : Bool :=
  state.stop != .uncalled || task.numTries == 0 || outData.isNone

end State

/-- The choices that are not the goroutine's own. -/
inductive Choice (δ ε : Type) where
  | go
  | answer (outData : Option δ) (err : Option ε)
  | put
  | hand (worker : Nat)
  | expire
deriving DecidableEq, Repr

def clientStep (state : State δ ε) (index : Nat) : Client → Choice δ ε → Option (State δ ε)
  | .putting id, .put => ((state.leave index).note (.accepted id)).send id
  | .putting id, .hand worker => ((state.leave index).note (.accepted id)).hand worker id
  | .putting id, .expire => some (state.setClient index (.expired id))
  | .expired id, .go =>
    some ((state.leave index).done.note (.rejected id ((state.tasks[id]?.map Task.timedOut).getD "")))
  | _, _ => none

def workerStep (state : State δ ε) (index : Nat) : Worker δ ε → Choice δ ε → Option (State δ ε)
  | .idle, .go =>
    match state.dispatchQueue with
    | id :: rest => some ({ state with dispatchQueue := rest }.enter index id)
    | [] => if state.stop = .closed then some (state.setWorker index .exited) else none
  | .running id, .answer outData err => some (state.setWorker index (.answered id outData err))
  | .answered id outData none, .go => some ((state.success id outData).setWorker index .finishing)
  | .answered id outData (some err), .go =>
    state.tasks[id]?.bind fun task =>
      if state.final task outData then some ((state.failure id err outData).setWorker index .finishing)
      else
        some ({ state with
          tasks := state.tasks.set id { task with numTries := task.numTries - 1, taskData := outData }
        }.setWorker index (.requeuing id outData err))
  | .requeuing id outData err, .go => some (state.add.setWorker index (.putting id outData err))
  | .putting id _ _, .put => (state.setWorker index .finishing).send id
  | .putting id _ _, .hand other => (state.setWorker index .finishing).hand other id
  | .putting id outData err, .expire => some (state.setWorker index (.expired id outData err))
  | .expired id outData err, .go => some (state.done.setWorker index (.refused id outData err))
  | .refused id outData err, .go => some ((state.failure id err outData).setWorker index .finishing)
  | .finishing, .go => some (state.done.setWorker index .idle)
  | _, _ => none

inductive Action (δ ε : Type) where
  | start (numWorkers : Nat)
  | dispatch (task : Task δ)
  | client (index : Nat) (choice : Choice δ ε)
  | worker (index : Nat) (choice : Choice δ ε)
  | stop
deriving DecidableEq, Repr

def step : Action δ ε → State δ ε → Option (State δ ε)
  | .start numWorkers, state => some { state with workers := state.workers ++ List.replicate numWorkers .idle }
  | .dispatch task, state =>
    if state.stop = .uncalled then
      some (({ state with
        tasks := state.tasks ++ [task]
        clients := state.clients ++ [Client.putting state.tasks.length]
      }.add).note (.dispatched state.tasks.length task.numTries))
    else none
  | .client index choice, state => state.clients[index]?.bind fun client => clientStep state index client choice
  | .worker index choice, state => state.workers[index]?.bind fun worker => workerStep state index worker choice
  | .stop, state =>
    match state.stop with
    | .uncalled => some { state with stop := .waiting }
    | .waiting => if state.queued = 0 then some { state with stop := .waited } else none
    | .waited => some { state with stop := .closed }
    | .closed => none

/-- `Once` dispatches a task with the tries its builder left it with. -/
def once (task : Task δ) : Action δ ε := .dispatch task

def withRetries (task : Task δ) (numRetries : Int) : Action δ ε := .dispatch { task with numTries := numRetries }

def newTaskDispatcher (bufferSize : Nat) : State δ ε := { bufferSize }

end MycsCommon.Tasks
