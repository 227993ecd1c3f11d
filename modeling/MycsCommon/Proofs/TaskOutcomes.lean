import MycsCommon.Tasks.TaskDispatcher

/-! A task is in one place at a time: with the client that dispatches it, in the queue,
with the worker that runs it, rejected, or done with. Every step moves one task from one
place to the next, and the counter `queued` has one for each place that somebody still
has to leave. -/

namespace MycsCommon.Tasks
open Library.Machine List Bool Client Event Option State Worker

variable {δ ε : Type}

section Places

def Client.task : Client → TaskId
  | .putting id | .expired id => id

def Client.has (id : TaskId) (client : Client) : Bool := client.task == id

namespace Worker

def busy : Worker δ ε → Bool
  | .idle | .exited => false
  | _ => true

/-- Inside `dispatch`, between its `Add` and its end. -/
def puts : Worker δ ε → Bool
  | .putting .. | .expired .. => true
  | _ => false

def holds (id : TaskId) : Worker δ ε → Bool
  | .running task | .answered task _ _ | .requeuing task _ _ | .putting task _ _ | .expired task _ _
  | .refused task _ _ => task == id
  | .idle | .finishing | .exited => false

def awaits (id : TaskId) : Worker δ ε → Bool
  | .requeuing task _ _ | .putting task _ _ | .expired task _ _ => task == id
  | _ => false

end Worker

namespace Event

def accepts (id : TaskId) : Event δ ε → Bool
  | .accepted task => task == id
  | _ => false

def rejects (id : TaskId) : Event δ ε → Bool
  | .rejected task _ => task == id
  | _ => false

def runs (id : TaskId) : Event δ ε → Bool
  | .ran task _ => task == id
  | _ => false

def ends (id : TaskId) : Event δ ε → Bool
  | .succeeded task _ _ | .failed task _ _ _ => task == id
  | _ => false

def calls (id : TaskId) : Event δ ε → Bool
  | .succeeded task called _ | .failed task called _ _ => task == id && called
  | _ => false

end Event

end Places

section Moves

/-- All that a client in `dispatch` can do next. -/
inductive ClientMove (state : State δ ε) (index : Nat) : Client → State δ ε → Prop where
  | put {id : TaskId} (opened : state.stop ≠ .closed) :
      ClientMove state index (.putting id)
        (((state.leave index).note (.accepted id)).enqueue id)
  | panic {id : TaskId} (closed : state.stop = .closed) :
      ClientMove state index (.putting id) ((state.leave index).note (.accepted id)).panic
  | hand {id : TaskId} (worker : Nat) (empty : state.dispatchQueue = []) (idle : state.workers[worker]? = some .idle) :
      ClientMove state index (.putting id) (((state.leave index).note (.accepted id)).enter worker id)
  | expire {id : TaskId} : ClientMove state index (.putting id) (state.setClient index (.expired id))
  | reject {id : TaskId} (err : String) :
      ClientMove state index (.expired id) ((state.leave index).done.note (.rejected id err))

/-- All that a worker can do next. -/
inductive WorkerMove (state : State δ ε) (index : Nat) : Worker δ ε → State δ ε → Prop where
  | take {id : TaskId} {rest : List TaskId} (next : state.dispatchQueue = id :: rest) :
      WorkerMove state index .idle ({ state with dispatchQueue := rest }.enter index id)
  | exit : WorkerMove state index .idle (state.setWorker index .exited)
  | answer {id : TaskId} (outData : Option δ) (err : Option ε) :
      WorkerMove state index (.running id) (state.setWorker index (.answered id outData err))
  | succeed {id : TaskId} {outData : Option δ} :
      WorkerMove state index (.answered id outData none) ((state.success id outData).setWorker index .finishing)
  | fail {id : TaskId} {outData : Option δ} {err : ε} :
      WorkerMove state index (.answered id outData (some err))
        ((state.failure id err outData).setWorker index .finishing)
  | retry {id : TaskId} {outData : Option δ} {err : ε} {task : Task δ} (known : state.tasks[id]? = some task)
      (left : task.numTries ≠ 0) :
      WorkerMove state index (.answered id outData (some err))
        ({ state with
          tasks := state.tasks.set id { task with numTries := task.numTries - 1, taskData := outData }
        }.setWorker index (.requeuing id outData err))
  | add {id : TaskId} {outData : Option δ} {err : ε} :
      WorkerMove state index (.requeuing id outData err) (state.add.setWorker index (.putting id outData err))
  | put {id : TaskId} {outData : Option δ} {err : ε} (opened : state.stop ≠ .closed) :
      WorkerMove state index (.putting id outData err)
        ((state.setWorker index .finishing).enqueue id)
  | panic {id : TaskId} {outData : Option δ} {err : ε} (closed : state.stop = .closed) :
      WorkerMove state index (.putting id outData err) (state.setWorker index .finishing).panic
  | hand {id : TaskId} {outData : Option δ} {err : ε} (other : Nat) (empty : state.dispatchQueue = [])
      (idle : (state.workers.set index .finishing)[other]? = some .idle) :
      WorkerMove state index (.putting id outData err) ((state.setWorker index .finishing).enter other id)
  | expire {id : TaskId} {outData : Option δ} {err : ε} :
      WorkerMove state index (.putting id outData err) (state.setWorker index (.expired id outData err))
  | giveUp {id : TaskId} {outData : Option δ} {err : ε} :
      WorkerMove state index (.expired id outData err) (state.done.setWorker index (.refused id outData err))
  | refuse {id : TaskId} {outData : Option δ} {err : ε} :
      WorkerMove state index (.refused id outData err) ((state.failure id err outData).setWorker index .finishing)
  | finish : WorkerMove state index .finishing (state.done.setWorker index .idle)

theorem send_cases {state after : State δ ε} {id : TaskId} (sent : state.send id = some after) :
    state.stop = .closed ∧ after = state.panic ∨ state.stop ≠ .closed ∧ after = state.enqueue id := by
  unfold send at sent
  split at sent
  case isTrue closed => exact .inl ⟨closed, (some.inj sent).symm⟩
  case isFalse opened =>
    split at sent
    · exact .inr ⟨opened, (some.inj sent).symm⟩
    · cases sent

theorem hand_cases {state after : State δ ε} {worker : Nat} {id : TaskId}
    (handed : state.hand worker id = some after) :
    state.dispatchQueue = [] ∧ state.workers[worker]? = some .idle ∧ after = state.enter worker id := by
  unfold hand at handed
  split at handed
  case h_1 empty idle => exact ⟨empty, idle, (some.inj handed).symm⟩
  case h_2 => cases handed

theorem clientStep_move {state after} {index : Nat} {client : Client} {choice : Choice δ ε}
    (taken : clientStep state index client choice = some after) : ClientMove state index client after := by
  unfold clientStep at taken
  split at taken
  case h_1 id =>
    rcases send_cases taken with ⟨closed, rfl⟩ | ⟨opened, rfl⟩
    · exact .panic closed
    · exact .put opened
  case h_2 id worker =>
    obtain ⟨empty, idle, rfl⟩ := hand_cases taken
    exact .hand worker empty idle
  case h_3 id => exact some.inj taken ▸ .expire
  case h_4 id => exact some.inj taken ▸ .reject _
  case h_5 => cases taken

theorem workerStep_move {state after} {index : Nat} {worker} {choice : Choice δ ε}
    (taken : workerStep state index worker choice = some after) : WorkerMove state index worker after := by
  unfold workerStep at taken
  split at taken
  case h_1 =>
    split at taken
    case h_1 id rest next => exact some.inj taken ▸ .take next
    case h_2 =>
      split at taken
      · exact some.inj taken ▸ .exit
      · cases taken
  case h_2 id outData err => exact some.inj taken ▸ .answer outData err
  case h_3 id outData => exact some.inj taken ▸ .succeed
  case h_4 id outData err =>
    obtain ⟨task, known, decided⟩ := bind_eq_some_iff.mp taken
    split at decided
    · exact some.inj decided ▸ .fail
    case isFalse again =>
      have left : task.numTries ≠ 0 := by
        intro none
        exact again (by simp [final, none])
      exact some.inj decided ▸ .retry known left
  case h_5 id outData err => exact some.inj taken ▸ .add
  case h_6 id outData err =>
    rcases send_cases taken with ⟨closed, rfl⟩ | ⟨opened, rfl⟩
    · exact .panic closed
    · exact .put opened
  case h_7 id outData err other =>
    obtain ⟨empty, idle, rfl⟩ := hand_cases taken
    exact .hand other empty idle
  case h_8 => exact some.inj taken ▸ .expire
  case h_9 => exact some.inj taken ▸ .giveUp
  case h_10 => exact some.inj taken ▸ .refuse
  case h_11 => exact some.inj taken ▸ .finish
  case h_12 => cases taken

end Moves

section Counter

variable {state after : State δ ε} {index : Nat}

/-- Tasks that wait in the queue, are being executed or are being put. -/
def State.places (state : State δ ε) : Nat :=
  state.dispatchQueue.length + state.workers.countP busy +
    (state.workers.countP puts + state.clients.length)

structure Counted (state : State δ ε) : Prop where
  queued : state.queued = state.places
  waited : state.stop = .waited ∨ state.stop = .closed → state.queued = 0
  calm : state.panicked = false

theorem Counted.change (counted : Counted state) (stop : after.stop = state.stop)
    (balance : after.queued + state.places = state.queued + after.places)
    (live : after.queued = state.queued ∨ 0 < state.queued) (calm : after.panicked = state.panicked) :
    Counted after where
  queued := by
    have := counted.queued
    omega
  waited ended := by
    have none := counted.waited (stop ▸ ended)
    omega
  calm := calm.trans counted.calm

theorem Counted.client_live (counted : Counted state) {client : Client}
    (here : state.clients[index]? = some client) : 0 < state.queued := by
  have := length_pos_of_mem (mem_of_getElem? here)
  have := counted.queued
  unfold places at this
  omega

theorem Counted.worker_live (counted : Counted state) {worker} (here : state.workers[index]? = some worker)
    (busy : worker.busy = true) : 0 < state.queued := by
  have := countP_pos_iff.mpr ⟨worker, mem_of_getElem? here, busy⟩
  have := counted.queued
  unfold places at this
  omega

theorem phases_set {workers : List (Worker δ ε)} {old} (here : workers[index]? = some old) (new : Worker δ ε) :
    (workers.set index new).countP busy + old.busy.toNat = workers.countP busy + new.busy.toNat ∧
      (workers.set index new).countP puts + old.puts.toNat = workers.countP puts + new.puts.toNat :=
  ⟨countP_set here, countP_set here⟩

theorem Counted.shift (counted : Counted state) {old : Worker δ ε} (here : state.workers[index]? = some old)
    (new : Worker δ ε) (workers : after.workers = state.workers.set index new) (clients : after.clients = state.clients)
    (stop : after.stop = state.stop)
    (balance : after.queued + (state.dispatchQueue.length + old.busy.toNat + old.puts.toNat : Nat) =
      state.queued + (after.dispatchQueue.length + new.busy.toNat + new.puts.toNat : Nat))
    (live : after.queued = state.queued ∨ old.busy = true) (calm : after.panicked = state.panicked) :
    Counted after := by
  obtain ⟨busy, puts⟩ := phases_set here new
  refine counted.change stop ?_ (live.imp_right (counted.worker_live here)) calm
  simp only [places, workers, clients]
  omega

theorem done_calm (live : 0 < state.queued) : state.done.panicked = state.panicked := by
  simp only [done, or_eq_left_iff_imp, decide_eq_true_eq]
  omega

theorem Counted.client (counted : Counted state) {client : Client} (here : state.clients[index]? = some client)
    (move : ClientMove state index client after) : Counted after := by
  have live := counted.client_live here
  have fewer := length_eraseIdx here
  cases move with
  | put opened =>
    refine counted.change rfl ?_ (.inl rfl) rfl
    simp only [State.places, State.enqueue, State.note, State.leave, length_append, length_singleton]
    omega
  | panic closed =>
    have := counted.waited (.inr closed)
    omega
  | @hand id worker empty idle =>
    obtain ⟨busy, puts⟩ := phases_set idle (.running id)
    refine counted.change rfl ?_ (.inl rfl) rfl
    simp only [State.places, State.enter, State.setWorker, State.note, State.leave]
    simp only [Worker.busy, Worker.puts, Bool.toNat_true, Bool.toNat_false] at busy puts
    omega
  | expire =>
    refine counted.change rfl ?_ (.inl rfl) rfl
    simp [State.places, State.setClient]
  | reject err =>
    refine counted.change rfl ?_ (.inr live) (done_calm live)
    simp only [State.places, State.done, State.note, State.leave]
    omega

theorem Counted.worker (counted : Counted state) {worker : Worker δ ε} (here : state.workers[index]? = some worker)
    (move : WorkerMove state index worker after) : Counted after := by
  have live := counted.worker_live here
  cases move with
  | @take id rest next =>
    refine counted.shift here (.running id) rfl rfl rfl ?_ (.inl rfl) rfl
    simp [State.enter, State.setWorker, State.note, Worker.busy, Worker.puts, next]
  | exit => exact counted.shift here .exited rfl rfl rfl rfl (.inl rfl) rfl
  | answer outData err => exact counted.shift here (.answered _ outData err) rfl rfl rfl rfl (.inl rfl) rfl
  | succeed | fail | refuse => exact counted.shift here .finishing rfl rfl rfl rfl (.inl rfl) rfl
  | @retry id outData err task known left =>
    exact counted.shift here (.requeuing id outData err) rfl rfl rfl rfl (.inl rfl) rfl
  | @add id outData err =>
    refine counted.shift here (.putting id outData err) rfl rfl rfl ?_ (.inr rfl) rfl
    simp only [State.add, State.setWorker, Worker.busy, Worker.puts, Bool.toNat_true, Bool.toNat_false]
    omega
  | put opened =>
    refine counted.shift here .finishing rfl rfl rfl ?_ (.inl rfl) rfl
    simp only [State.enqueue, State.setWorker, Worker.busy, Worker.puts, Bool.toNat_true, Bool.toNat_false,
      length_append, length_singleton]
  | panic closed =>
    have := counted.waited (.inr closed)
    have := live rfl
    omega
  | @hand id outData err other empty idle =>
    obtain ⟨busy, puts⟩ := phases_set here .finishing
    obtain ⟨busy', puts'⟩ := phases_set idle (.running id)
    refine counted.change rfl ?_ (.inl rfl) rfl
    simp only [State.places, State.enter, State.setWorker, State.note]
    simp only [Worker.busy, Worker.puts, Bool.toNat_true, Bool.toNat_false] at busy puts busy' puts'
    omega
  | @expire id outData err => exact counted.shift here (.expired id outData err) rfl rfl rfl rfl (.inl rfl) rfl
  | @giveUp id outData err =>
    refine counted.shift here (.refused id outData err) rfl rfl rfl ?_ (.inr rfl) (done_calm (live rfl))
    simp only [State.done, State.setWorker, Worker.busy, Worker.puts, Bool.toNat_true, Bool.toNat_false]
    omega
  | finish =>
    refine counted.shift here .idle rfl rfl rfl ?_ (.inr rfl) (done_calm (live rfl))
    simp only [State.done, State.setWorker, Worker.busy, Worker.puts, Bool.toNat_true, Bool.toNat_false]
    omega

theorem step_stop (taken : step .stop state = some after) : ∃ stop, stop ≠ .uncalled ∧ after = { state with stop } := by
  simp only [step] at taken
  split at taken
  · exact ⟨.waiting, by simp, (some.inj taken).symm⟩
  · split at taken
    · exact ⟨.waited, by simp, (some.inj taken).symm⟩
    · cases taken
  · exact ⟨.closed, by simp, (some.inj taken).symm⟩
  · cases taken

theorem Counted.dispatch (counted : Counted state) (unseen : ¬(state.stop = .waited ∨ state.stop = .closed)) (new : Task δ) :
    Counted (({ state with
      tasks := state.tasks ++ [new]
      clients := state.clients ++ [Client.putting state.tasks.length]
    }.add).note (.dispatched state.tasks.length new.numTries)) := by
  refine ⟨?_, fun ended => absurd ended unseen, counted.calm⟩
  have queued := counted.queued
  simp only [places] at queued
  simp only [places, add, note, length_append, length_singleton]
  omega

theorem counted_step {action : Action δ ε} (counted : Counted state) (taken : step action state = some after) :
    Counted after := by
  cases action with
  | start numWorkers =>
    obtain rfl := some.inj taken
    refine counted.change rfl ?_ (.inl rfl) rfl
    simp [places, busy, puts, countP_replicate]
  | dispatch task =>
    simp only [step] at taken
    split at taken
    case isTrue uncalled =>
      obtain rfl := some.inj taken
      exact counted.dispatch (by simp [uncalled]) task
    case isFalse => cases taken
  | client index choice =>
    obtain ⟨client, here, moved⟩ := bind_eq_some_iff.mp taken
    exact counted.client here (clientStep_move moved)
  | worker index choice =>
    obtain ⟨worker, here, moved⟩ := bind_eq_some_iff.mp taken
    exact counted.worker here (workerStep_move moved)
  | stop =>
    simp only [step] at taken
    split at taken
    · obtain rfl := some.inj taken
      exact ⟨counted.queued, by simp, counted.calm⟩
    · split at taken
      case isTrue zero =>
        obtain rfl := some.inj taken
        exact ⟨counted.queued, fun _ => zero, counted.calm⟩
      case isFalse => cases taken
    case h_3 waited =>
      obtain rfl := some.inj taken
      exact ⟨counted.queued, fun _ => counted.waited (.inl waited), counted.calm⟩
    · cases taken

end Counter

section Life

variable {state after : State δ ε} {index : Nat} {id task : TaskId}

def Ordered (log : List (Event δ ε)) (id : TaskId) : Prop :=
  ∀ before taskData, before ++ [.ran id taskData] <+: log → before.countP (ends id) = 0

theorem Ordered.note {log} (ordered : Ordered log id) {event : Event δ ε}
    (quiet : event.runs id = true → log.countP (ends id) = 0) : Ordered (log ++ [event]) id := by
  intro before taskData start
  rcases prefix_concat_iff.mp start with whole | earlier
  · obtain ⟨rfl, same⟩ := append_inj' whole rfl
    obtain rfl := singleton_inj.mp same
    exact quiet (by simp [runs])
  · exact ordered before taskData earlier

/-- Whether a task has been dispatched, as a number. -/
def born (tasks : List (Task δ)) (id : TaskId) : Nat := if id < tasks.length then 1 else 0

theorem born_le (tasks : List (Task δ)) (id : TaskId) : born tasks id ≤ 1 := by
  unfold born
  split <;> omega

/-- Where a task is, and what has become of it. -/
structure Life (state : State δ ε) (id : TaskId) : Prop where
  place : state.clients.countP (has id) + state.dispatchQueue.countP (· == id) +
    state.workers.countP (holds id) + state.log.countP (rejects id) +
    state.log.countP (ends id) = born state.tasks id
  answer : state.clients.countP (has id) + state.log.countP (rejects id) +
    state.log.countP (accepts id) = born state.tasks id
  begun : state.workers.countP (holds id) + state.log.countP (ends id) ≤ state.log.countP (runs id)
  unrun : 0 < state.clients.countP (has id) + state.log.countP (rejects id) ∨ born state.tasks id = 0 →
    state.log.countP (runs id) = 0
  budget : ∀ numRetries, .dispatched id numRetries ∈ state.log → 0 ≤ numRetries →
    ∃ task, state.tasks[id]? = some task ∧ 0 ≤ task.numTries ∧
      (state.log.countP (runs id) + state.clients.countP (has id) +
        state.dispatchQueue.countP (· == id) + state.workers.countP (awaits id) : Nat) + task.numTries ≤
          numRetries + 1
  heard : ∀ task, state.tasks[id]? = some task → task.successFn = true → task.errorFn = true →
    state.log.countP (calls id) = state.log.countP (ends id)
  ordered : Ordered state.log id

section

variable (life : Life state id)
include life

theorem Life.still (clients : after.clients.countP (has id) = state.clients.countP (has id))
    (holds : after.workers.countP (holds id) = state.workers.countP (holds id))
    (awaits : after.workers.countP (awaits id) ≤ state.workers.countP (awaits id))
    (queue : after.dispatchQueue = state.dispatchQueue) (tasks : after.tasks = state.tasks) (log : after.log = state.log) :
    Life after id := by
  obtain ⟨place, answer, begun, unrun, budget, heard, ordered⟩ := life
  refine ⟨?_, ?_, ?_, ?_, ?_, ?_, ?_⟩ <;> simp only [clients, holds, queue, tasks, log]
  case refine_5 =>
    intro numRetries dispatched natural
    obtain ⟨found, known, left, bound⟩ := budget numRetries dispatched natural
    exact ⟨found, known, left, by omega⟩
  all_goals assumption

theorem Life.worker_still {old} (here : state.workers[index]? = some old) (new : Worker δ ε)
    (workers : after.workers = state.workers.set index new) (holds : new.holds id = old.holds id)
    (awaits : (new.awaits id).toNat ≤ (old.awaits id).toNat) (clients : after.clients = state.clients)
    (queue : after.dispatchQueue = state.dispatchQueue) (tasks : after.tasks = state.tasks)
    (log : after.log = state.log) : Life after id := by
  have held : (state.workers.set index new).countP (Worker.holds id) + _ = _ := countP_set here
  have awaited : (state.workers.set index new).countP (Worker.awaits id) + _ = _ := countP_set here
  rw [holds] at held
  rw [← workers] at held awaited
  exact life.still (congrArg _ clients) (by omega) (by omega) queue tasks log

theorem Life.accept (here : state.clients[index]? = some (.putting task)) :
    Life (((state.leave index).note (.accepted task)).enqueue task) id := by
  obtain ⟨place, answer, begun, unrun, budget, heard, ordered⟩ := life
  have opening : (state.clients.eraseIdx index).countP (has id) + (task == id).toNat = _ := countP_eraseIdx here
  constructor <;> simp only [enqueue, note, leave, countP_concat, accepts, rejects,
    runs, ends, calls, toNat_false]
  · omega
  · omega
  · omega
  · omega
  · intro numRetries dispatched natural
    obtain ⟨found, known, left, bound⟩ := budget numRetries (by simpa using dispatched) natural
    exact ⟨found, known, left, by omega⟩
  · exact heard
  · exact ordered.note (by simp [runs])

theorem Life.reject (here : state.clients[index]? = some (.expired task)) (err : String) :
    Life ((state.leave index).done.note (.rejected task err)) id := by
  obtain ⟨place, answer, begun, unrun, budget, heard, ordered⟩ := life
  have opening : (state.clients.eraseIdx index).countP (has id) + (task == id).toNat = _ := countP_eraseIdx here
  constructor <;> simp only [note, done, leave, countP_concat, accepts, rejects,
    runs, ends, calls, toNat_false]
  · omega
  · omega
  · omega
  · omega
  · intro numRetries dispatched natural
    obtain ⟨found, known, left, bound⟩ := budget numRetries (by simpa using dispatched) natural
    exact ⟨found, known, left, by omega⟩
  · exact heard
  · exact ordered.note (by simp [runs])

theorem Life.take (here : state.workers[index]? = some .idle) {rest}
    (next : state.dispatchQueue = task :: rest) : Life ({ state with dispatchQueue := rest }.enter index task) id := by
  obtain ⟨place, answer, begun, unrun, budget, heard, ordered⟩ := life
  have holds : (state.workers.set index (.running task)).countP (holds id) + false.toNat = _ + (task == id).toNat :=
    countP_set here
  have awaits : (state.workers.set index (.running task)).countP (awaits id) + false.toNat = _ + false.toNat :=
    countP_set here
  have once := born_le state.tasks id
  rw [next, countP_first] at place
  simp only [next, countP_first] at budget
  constructor <;> simp only [enter, note, setWorker, countP_concat, accepts, rejects,
    runs, ends, calls, toNat_false] at holds awaits ⊢
  · omega
  · omega
  · omega
  · omega
  · intro numRetries dispatched natural
    obtain ⟨found, known, left, bound⟩ := budget numRetries (by simpa using dispatched) natural
    exact ⟨found, known, left, by omega⟩
  · exact heard
  · refine ordered.note fun same => ?_
    simp only [runs] at same
    simp only [same, toNat_true] at place
    omega

theorem Life.settle {old} (here : state.workers[index]? = some old)
    (holding : old.holds id = (task == id)) (resting : old.awaits id = false) {event}
    (log : after.log = state.log ++ [event]) (ends : event.ends id = (task == id))
    (other : (event.accepts id || event.rejects id || event.runs id) = false)
    (undispatched : ∀ numRetries, event ≠ .dispatched id numRetries)
    (calls : ∀ found, state.tasks[id]? = some found → found.successFn = true → found.errorFn = true → event.calls id = event.ends id)
    (workers : after.workers = state.workers.set index .finishing) (clients : after.clients = state.clients)
    (queue : after.dispatchQueue = state.dispatchQueue) (tasks : after.tasks = state.tasks) : Life after id := by
  obtain ⟨place, answer, begun, unrun, budget, heard, ordered⟩ := life
  have holds : (state.workers.set index .finishing).countP (holds id) + (old.holds id).toNat = _ + false.toNat :=
    countP_set here
  have awaits : (state.workers.set index .finishing).countP (awaits id) + (old.awaits id).toNat = _ + false.toNat :=
    countP_set here
  simp only [or_eq_false_iff] at other
  simp only [holding, resting, toNat_false] at holds awaits
  constructor <;> simp only [log, workers, clients, queue, tasks, countP_concat, ends, other, toNat_false]
  · omega
  · omega
  · omega
  · omega
  · intro numRetries dispatched natural
    obtain ⟨found, known, left, bound⟩ := budget numRetries (by simpa [Ne.symm (undispatched numRetries)] using dispatched) natural
    exact ⟨found, known, left, by omega⟩
  · intro found known success error
    rw [calls found known success error, ends, heard found known success error]
  · exact ordered.note (by simp [other])

theorem Life.retry {outData} {err : ε} {found : Task δ}
    (here : state.workers[index]? = some (.answered task outData (some err)))
    (known : state.tasks[task]? = some found) (left : found.numTries ≠ 0) : Life ({ state with
      tasks := state.tasks.set task { found with numTries := found.numTries - 1, taskData := outData }
    }.setWorker index (.requeuing task outData err)) id := by
  obtain ⟨place, answer, begun, unrun, budget, heard, ordered⟩ := life
  have holds : (state.workers.set index (.requeuing task outData err)).countP (holds id) + (task == id).toNat =
      _ + (task == id).toNat := countP_set here
  have awaits : (state.workers.set index (.requeuing task outData err)).countP (awaits id) + false.toNat =
      _ + (task == id).toNat := countP_set here
  have length : born (state.tasks.set task { found with numTries := found.numTries - 1, taskData := outData }) id =
      born state.tasks id := by simp [born]
  have inside := (List.getElem?_eq_some_iff.mp known).1
  constructor <;> simp only [setWorker, length, toNat_false] at holds awaits ⊢
  · omega
  · omega
  · omega
  · omega
  · intro numRetries dispatched natural
    obtain ⟨present, stored, positive, bound⟩ := budget numRetries dispatched natural
    by_cases same : task = id
    · subst same
      obtain rfl : present = found := some.inj (stored.symm.trans known)
      simp only [beq_self_eq_true, toNat_true] at awaits
      refine ⟨_, getElem?_set_self inside, ?_, ?_⟩ <;> simp only <;> omega
    · simp only [beq_eq_false_iff_ne.mpr same, toNat_false] at awaits
      exact ⟨present, by rw [getElem?_set_ne same, stored], positive, by omega⟩
  · intro present stored success error
    by_cases same : task = id
    · subst same
      rw [getElem?_set_self inside] at stored
      obtain rfl := some.inj stored
      exact heard found known success error
    · rw [getElem?_set_ne same] at stored
      exact heard present stored success error
  · exact ordered

theorem Life.requeue {outData} {err : ε}
    (here : state.workers[index]? = some (.putting task outData err)) :
    Life ((state.setWorker index .finishing).enqueue task) id := by
  obtain ⟨place, answer, begun, unrun, budget, heard, ordered⟩ := life
  have holds : (state.workers.set index .finishing).countP (holds id) + (task == id).toNat = _ + false.toNat :=
    countP_set here
  have awaits : (state.workers.set index .finishing).countP (awaits id) + (task == id).toNat = _ + false.toNat :=
    countP_set here
  constructor <;> simp only [enqueue, setWorker, countP_concat, toNat_false] at holds awaits ⊢
  · omega
  · omega
  · omega
  · omega
  · intro numRetries dispatched natural
    obtain ⟨found, known, left, bound⟩ := budget numRetries dispatched natural
    exact ⟨found, known, left, by omega⟩
  · exact heard
  · exact ordered

end

theorem awaits_le_holds (workers : List (Worker δ ε)) (id : TaskId) :
    workers.countP (awaits id) ≤ workers.countP (holds id) := by
  apply countP_mono_left
  intro worker _ awaits
  cases worker <;> first | exact awaits | exact absurd awaits (by simp [Worker.awaits])

theorem calls_le_ends (log : List (Event δ ε)) (id : TaskId) :
    log.countP (Event.calls id) ≤ log.countP (Event.ends id) := by
  apply countP_mono_left
  intro event _ calls
  cases event <;> simp_all [Event.calls, Event.ends]

theorem Life.dispatch (life : Life state id) (new : Task δ) :
    Life (({ state with
      tasks := state.tasks ++ [new]
      clients := state.clients ++ [Client.putting state.tasks.length]
    }.add).note (.dispatched state.tasks.length new.numTries)) id := by
  obtain ⟨place, answer, begun, unrun, budget, heard, ordered⟩ := life
  have more : born (state.tasks ++ [new]) id = born state.tasks id + (state.tasks.length == id).toNat := by
    simp only [born, length_append, length_singleton]
    rcases Nat.lt_trichotomy id state.tasks.length with before | last | after
    · simp [before, Nat.lt_succ_of_lt before, Nat.ne_of_gt before]
    · simp [last]
    · rw [if_neg (Nat.not_lt_of_le after), if_neg (Nat.not_lt_of_gt after), beq_eq_false_iff_ne.mpr (Nat.ne_of_lt after)]
      rfl
  have opened : (has id (.putting state.tasks.length)).toNat = (state.tasks.length == id).toNat := rfl
  constructor <;> simp only [add, note, countP_concat, more, opened, accepts, rejects, runs,
    ends, calls, toNat_false]
  · omega
  · omega
  · omega
  · intro unborn
    by_cases last : state.tasks.length = id
    · exact unrun (.inr (by simp [born, last]))
    · simp only [beq_eq_false_iff_ne.mpr last, toNat_false] at unborn
      exact unrun (by omega)
  · intro numRetries dispatched natural
    rcases mem_append.mp dispatched with earlier | now
    · obtain ⟨found, known, positive, bound⟩ := budget numRetries earlier natural
      have inside := (List.getElem?_eq_some_iff.mp known).1
      have other : (state.tasks.length == id).toNat = 0 := by simp [Nat.ne_of_gt inside]
      exact ⟨found, by rw [getElem?_append_left inside, known], positive, by omega⟩
    · obtain ⟨rfl, rfl⟩ := Event.dispatched.inj (mem_singleton.mp now)
      have unborn : born state.tasks state.tasks.length = 0 := by simp [born]
      have unran := unrun (.inr unborn)
      have unheld := awaits_le_holds state.workers state.tasks.length
      refine ⟨new, by simp, natural, ?_⟩
      simp only [beq_self_eq_true, Bool.toNat_true]
      omega
  · intro found known success error
    by_cases inside : id < state.tasks.length
    · rw [getElem?_append_left inside] at known
      exact heard found known success error
    · have none : born state.tasks id = 0 := by simp [born, inside]
      have fewer := calls_le_ends state.log id
      omega
  · exact ordered.note (by simp [runs])

theorem called {tasks : List (Task δ)} {found : Task δ} {handler} (known : tasks[id]? = some found)
    (given : handler found = true) : (task == id && tasks[task]?.any handler) = (task == id) := by
  by_cases same : task = id
  · simp [same, known, given]
  · simp [same]

section

variable (life : Life state id) (counted : Counted state)
include life counted

theorem Life.client {client : Client}
    (here : state.clients[index]? = some client) (move : ClientMove state index client after) : Life after id := by
  cases move with
  | put opened => exact life.accept here
  | panic closed =>
    have := counted.client_live here
    have := counted.waited (.inr closed)
    omega
  | @hand task worker empty idle =>
    -- the same as a put into the empty queue and a receive
    have received := (life.accept here).take idle (congrArg (· ++ [task]) empty)
    rw [← empty] at received
    exact received
  | @expire task =>
    have opening : (state.clients.set index (.expired task)).countP (has id) + (task == id).toNat =
      _ + (task == id).toNat := countP_set here
    exact life.still (Nat.add_right_cancel opening) rfl (Nat.le_refl _) rfl rfl rfl
  | reject err => exact life.reject here err

theorem Life.worker {worker : Worker δ ε}
    (here : state.workers[index]? = some worker) (move : WorkerMove state index worker after) : Life after id := by
  cases move with
  | take next => exact life.take here next
  | exit => exact life.worker_still here .exited rfl rfl (Nat.le_refl _) rfl rfl rfl rfl
  | @answer task outData err => exact life.worker_still here (.answered task outData err) rfl rfl (Nat.le_refl _) rfl rfl rfl rfl
  | succeed =>
    exact life.settle here rfl rfl rfl rfl rfl (by simp) (fun _ known success _ => called known success) rfl rfl rfl rfl
  | fail =>
    exact life.settle here rfl rfl rfl rfl rfl (by simp) (fun _ known _ error => called known error) rfl rfl rfl rfl
  | retry known left => exact life.retry here known left
  | @add task outData err => exact life.worker_still here (.putting task outData err) rfl rfl (Nat.le_refl _) rfl rfl rfl rfl
  | put opened => exact life.requeue here
  | panic closed =>
    have := counted.worker_live here rfl
    have := counted.waited (.inr closed)
    omega
  | @hand task outData err other empty idle =>
    have received := (life.requeue here).take idle (congrArg (· ++ [task]) empty)
    rw [← empty] at received
    exact received
  | @expire task outData err => exact life.worker_still here (.expired task outData err) rfl rfl (Nat.le_refl _) rfl rfl rfl rfl
  | @giveUp task outData err => exact life.worker_still here (.refused task outData err) rfl rfl (Nat.zero_le _) rfl rfl rfl rfl
  | refuse =>
    exact life.settle here rfl rfl rfl rfl rfl (by simp) (fun _ known _ error => called known error) rfl rfl rfl rfl
  | finish => exact life.worker_still here .idle rfl rfl (Nat.le_refl _) rfl rfl rfl rfl

theorem life_step {action} (taken : step action state = some after) :
    Life after id := by
  cases action with
  | start numWorkers =>
    obtain rfl := some.inj taken
    refine life.still rfl ?_ ?_ rfl rfl rfl
    · simp [holds]
    · simp [countP_replicate, awaits]
  | dispatch task =>
    simp only [step] at taken
    split at taken
    · exact some.inj taken ▸ life.dispatch task
    · cases taken
  | client index choice =>
    obtain ⟨client, here, moved⟩ := bind_eq_some_iff.mp taken
    exact life.client counted here (clientStep_move moved)
  | worker index choice =>
    obtain ⟨worker, here, moved⟩ := bind_eq_some_iff.mp taken
    exact life.worker counted here (workerStep_move moved)
  | stop =>
    obtain ⟨stop, -, rfl⟩ := step_stop taken
    exact life.still rfl rfl (Nat.le_refl _) rfl rfl rfl

end

end Life

section Outcomes

variable {bufferSize : Nat} {state : State δ ε}

theorem life_new (bufferSize : Nat) (id : TaskId) : Life (newTaskDispatcher bufferSize : State δ ε) id where
  place := by simp [newTaskDispatcher, born]
  answer := by simp [newTaskDispatcher, born]
  begun := by simp [newTaskDispatcher]
  unrun := by simp [newTaskDispatcher]
  budget := by simp [newTaskDispatcher]
  heard := by simp [newTaskDispatcher]
  ordered before taskData start := by simp [newTaskDispatcher] at start

theorem counted_new (bufferSize : Nat) : Counted (newTaskDispatcher bufferSize : State δ ε) where
  queued := rfl
  waited := by simp [newTaskDispatcher]
  calm := rfl

theorem reachable_sound (reached : Reachable step (newTaskDispatcher bufferSize) state) :
    Counted state ∧ ∀ id, Life state id := by
  refine reached.invariant (fun state => Counted state ∧ ∀ id, Life state id) ⟨counted_new bufferSize, life_new bufferSize⟩ ?_
  intro action before after ⟨counted, lives⟩ taken
  exact ⟨counted_step counted taken, fun id => life_step (lives id) counted taken⟩

theorem rejected_pos {log : List (Event δ ε)} {id : TaskId} {err : String} (member : .rejected id err ∈ log) :
    0 < log.countP (rejects id) :=
  countP_pos_iff.mpr ⟨_, member, by simp [rejects]⟩

theorem accepted_pos {log : List (Event δ ε)} {id : TaskId} (member : .accepted id ∈ log) :
    0 < log.countP (accepts id) :=
  countP_pos_iff.mpr ⟨_, member, by simp [accepts]⟩

theorem Life.settled {id : TaskId} (life : Life state id) (counted : Counted state) (closed : state.stop = .closed)
    (accepted : .accepted id ∈ state.log) :
    0 < state.log.countP (runs id) ∧ state.log.countP (ends id) = 1 := by
  have zero := counted.waited (.inr closed)
  have empty := counted.queued
  simp only [places] at empty
  have queue : state.dispatchQueue = [] := length_eq_zero_iff.mp (by omega)
  have clients : state.clients = [] := length_eq_zero_iff.mp (by omega)
  have workers : state.workers.countP (holds id) ≤ state.workers.countP busy := by
    apply countP_mono_left
    intro worker _ holds
    cases worker <;> first | rfl | exact absurd holds (by simp [Worker.holds])
  have := accepted_pos accepted
  have := born_le state.tasks id
  have place := life.place
  have answer := life.answer
  have begun := life.begun
  simp only [queue, clients, countP_nil] at place answer
  omega

/-- What holds of the tasks of a dispatcher in every state. -/
structure ExactlyOnce (state : State δ ε) : Prop where
  attempts : ∀ id (numRetries : Int), .dispatched id numRetries ∈ state.log → .accepted id ∈ state.log → 0 ≤ numRetries →
    state.log.countP (runs id) ≤ numRetries + 1
  outcome : ∀ id, state.log.countP (ends id) ≤ 1 ∧ state.log.countP (calls id) ≤ 1
  ordered : ∀ id, Ordered state.log id
  rejected : ∀ id err, .rejected id err ∈ state.log → state.log.countP (runs id) = 0
  queued : state.queued = state.places
  calm : state.panicked = false
  settled : state.stop = .closed → ∀ id, .accepted id ∈ state.log →
    0 < state.log.countP (runs id) ∧ state.log.countP (ends id) = 1 ∧
      ∀ task, state.tasks[id]? = some task → task.successFn = true → task.errorFn = true →
        state.log.countP (calls id) = 1

theorem dispatches_exactly_once (reached : Reachable step (newTaskDispatcher bufferSize) state) :
    ExactlyOnce state := by
  obtain ⟨counted, lives⟩ := reachable_sound reached
  constructor
  case attempts =>
    intro id numRetries dispatched _ natural
    obtain ⟨task, -, left, bound⟩ := (lives id).budget numRetries dispatched natural
    omega
  case outcome =>
    intro id
    have := (lives id).place
    have := born_le state.tasks id
    have := calls_le_ends state.log id
    omega
  case ordered => exact fun id => (lives id).ordered
  case rejected => exact fun id err member => (lives id).unrun (.inl (Nat.add_pos_right _ (rejected_pos member)))
  case queued => exact counted.queued
  case calm => exact counted.calm
  case settled =>
    intro closed id accepted
    obtain ⟨ran, ended⟩ := (lives id).settled counted closed accepted
    refine ⟨ran, ended, ?_⟩
    intro task known success error
    rw [(lives id).heard task known success error, ended]

def retriedRun : List (Action Nat String) :=
  [.start 1, withRetries (((runTask "copy").withData (some 7)).onSuccess.onError) 1, .client 0 .put, .worker 0 .go,
    .worker 0 (.answer (some 5) (some "partly")), .worker 0 .go, .worker 0 .go, .worker 0 .put, .worker 0 .go,
    .worker 0 .go, .worker 0 (.answer none none), .worker 0 .go, .worker 0 .go, .stop, .stop, .stop]

theorem dispatches_exactly_once_retried :
    ∃ state, run step retriedRun (newTaskDispatcher 1) = some state ∧ state.stop = .closed ∧
      state.log.countP (runs 0) = 2 ∧ ExactlyOnce state := by
  obtain ⟨state, ran⟩ : ∃ state, run step retriedRun (newTaskDispatcher 1) = some state := ⟨_, rfl⟩
  have closed : (run step retriedRun (newTaskDispatcher 1)).map stop = some .closed := rfl
  have twice : (run step retriedRun (newTaskDispatcher 1)).map (fun state => state.log.countP (runs 0)) = some 2 := rfl
  rw [ran] at closed twice
  exact ⟨state, ran, some.inj closed, some.inj twice, dispatches_exactly_once (Reachable.start.run ran)⟩

end Outcomes

end MycsCommon.Tasks
