import MycsCommon.Proofs.TaskOutcomes
import MycsCommon.Tasks.LateDispatch

/-! When clients may dispatch. Nothing panics and no task is lost as long as every dispatch
comes before the wait of `Stop` is over. -/

namespace MycsCommon.Tasks
open Library.Machine List Dispatcher Event Option

variable {δ ε : Type} {dispatcher after : Dispatcher δ ε} {state : State δ ε} {index : Nat} {id : TaskId}

/-- `Stop` has not been called, or nothing has ended its wait. -/
def Dispatcher.early (dispatcher : Dispatcher δ ε) : Bool :=
  match dispatcher.state.stop with
  | .uncalled => true
  | .waiting => dispatcher.waiter != .released
  | .waited | .closed => false

/-- Nobody has sent on the closed queue or panicked otherwise. Who dispatched a task is still at
it, the task was accepted, or there was an error; and a task that was accepted is in the queue or
with a worker until it has its outcome. -/
structure Dispatcher.Sound (dispatcher : Dispatcher δ ε) : Prop where
  calm : dispatcher.state.panicked = false
  answered : ∀ id < dispatcher.state.tasks.length, (∃ client ∈ dispatcher.state.clients, client.task = id) ∨
    .accepted id ∈ dispatcher.state.log ∨ ∃ err, .rejected id err ∈ dispatcher.state.log
  kept : ∀ id, .accepted id ∈ dispatcher.state.log → id ∈ dispatcher.state.dispatchQueue ∨
    (∃ worker ∈ dispatcher.state.workers, worker.holds id = true) ∨ ∃ event ∈ dispatcher.state.log, event.ends id = true

/-- Clients that dispatch only before the wait of `Stop` is over. -/
def Dispatcher.punctual (action : Action δ ε) (dispatcher : Dispatcher δ ε) : Option (Dispatcher δ ε) :=
  match action with
  | .dispatch task => if dispatcher.early then dispatcher.step (.dispatch task) else none
  | action => dispatcher.step action

/-- What holds as long as all dispatches are early. -/
structure Steady (dispatcher : Dispatcher δ ε) : Prop where
  counted : Counted dispatcher.state
  lives : ∀ id, Life dispatcher.state id
  uncalled : dispatcher.state.stop = .uncalled → dispatcher.waiter = .none
  released : dispatcher.waiter = .released → dispatcher.state.queued = 0

section Sound

theorem exists_accepted {log : List (Event δ ε)} (some : 0 < log.countP (accepts id)) : .accepted id ∈ log := by
  obtain ⟨event, member, accepts⟩ := countP_pos_iff.mp some
  cases event with
  | accepted task =>
    obtain rfl : task = id := by simpa [Event.accepts] using accepts
    exact member
  | _ => simp [Event.accepts] at accepts

theorem exists_rejected {log : List (Event δ ε)} (some : 0 < log.countP (rejects id)) : ∃ err, .rejected id err ∈ log := by
  obtain ⟨event, member, rejects⟩ := countP_pos_iff.mp some
  cases event with
  | rejected task err =>
    obtain rfl : task = id := by simpa [Event.rejects] using rejects
    exact ⟨err, member⟩
  | _ => simp [Event.rejects] at rejects

theorem Life.answered (life : Life state id) (known : id < state.tasks.length) :
    (∃ client ∈ state.clients, client.task = id) ∨ .accepted id ∈ state.log ∨ ∃ err, .rejected id err ∈ state.log := by
  have answer := life.answer
  rw [born, if_pos known] at answer
  by_cases accepted : 0 < state.log.countP (accepts id)
  · exact .inr (.inl (exists_accepted accepted))
  by_cases rejected : 0 < state.log.countP (rejects id)
  · exact .inr (.inr (exists_rejected rejected))
  obtain ⟨client, member, has⟩ := countP_pos_iff.mp (show 0 < state.clients.countP (Client.has id) by omega)
  exact .inl ⟨client, member, by simpa [Client.has] using has⟩

theorem Life.kept (life : Life state id) (accepted : .accepted id ∈ state.log) :
    id ∈ state.dispatchQueue ∨ (∃ worker ∈ state.workers, worker.holds id = true) ∨ ∃ event ∈ state.log, event.ends id = true := by
  have place := life.place
  have answer := life.answer
  have positive := accepted_pos accepted
  have once := born_le state.tasks id
  by_cases ended : 0 < state.log.countP (ends id)
  · exact .inr (.inr (countP_pos_iff.mp ended))
  by_cases held : 0 < state.workers.countP (Worker.holds id)
  · exact .inr (.inl (countP_pos_iff.mp held))
  obtain ⟨queued, member, same⟩ := countP_pos_iff.mp (show 0 < state.dispatchQueue.countP (· == id) by omega)
  exact .inl (beq_iff_eq.mp same ▸ member)

theorem Steady.sound (steady : Steady dispatcher) : dispatcher.Sound :=
  ⟨steady.counted.calm, fun id known => (steady.lives id).answered known, fun id accepted => (steady.lives id).kept accepted⟩

end Sound

section Steps

theorem WorkerMove.queued_zero {worker next} (move : WorkerMove state index worker next) (counted : Counted state)
    (here : state.workers[index]? = some worker) (zero : state.queued = 0) : next.queued = 0 := by
  have idle : worker.busy = false := by
    by_contra busy
    have live := counted.worker_live here (by simpa using busy)
    omega
  cases move with
  | take | exit => exact zero
  | _ => cases idle

theorem Steady.release (counted : Counted dispatcher.state) (lives : ∀ id, Life dispatcher.state id)
    (uncalled : dispatcher.state.stop = .uncalled → dispatcher.waiter = .none)
    (released : dispatcher.waiter = .released → dispatcher.state.queued = 0) : Steady dispatcher.release := by
  rw [Dispatcher.release]
  split
  case isTrue ended =>
    exact ⟨counted, lives, fun called => by simp [uncalled called] at ended, fun _ => ended.2⟩
  case isFalse => exact ⟨counted, lives, uncalled, released⟩

theorem ClientMove.stop {client} {next} (move : ClientMove state index client next) : next.stop = state.stop := by
  cases move <;> rfl

theorem WorkerMove.stop {worker next} (move : WorkerMove state index worker next) : next.stop = state.stop := by
  cases move <;> rfl

theorem Dispatcher.stop_cases (stopped : dispatcher.stop = some after) :
    (∃ state, Tasks.step .stop dispatcher.state = some state ∧ after = { dispatcher with state }) ∨
      (dispatcher.state.stop = .waiting ∧ after = { dispatcher with waiter := .blocked }) ∨
      (dispatcher.waiter = .released ∧ dispatcher.state.queued ≠ 0) := by
  unfold stop at stopped
  split at stopped
  case h_1 waiting fresh =>
    split at stopped
    case isTrue zero => exact .inl ⟨_, by simp [Tasks.step, waiting, zero], (some.inj stopped).symm⟩
    case isFalse => exact .inr (.inl ⟨waiting, (some.inj stopped).symm⟩)
  case h_2 => cases stopped
  case h_3 waiting released =>
    split at stopped
    case isTrue zero => exact .inl ⟨_, by simp [Tasks.step, waiting, zero], (some.inj stopped).symm⟩
    case isFalse more => exact .inr (.inr ⟨released, more⟩)
  case h_4 =>
    obtain ⟨state, taken, made⟩ := map_eq_some_iff.mp stopped
    exact .inl ⟨state, taken, made.symm⟩

theorem Steady.stop (steady : Steady dispatcher) (stopped : dispatcher.stop = some after) : Steady after := by
  obtain ⟨state, taken, rfl⟩ | ⟨waiting, rfl⟩ | ⟨released, more⟩ := stop_cases stopped
  · refine ⟨counted_step steady.counted taken, fun id => life_step (steady.lives id) steady.counted taken, ?_, ?_⟩
    · obtain ⟨stop, called, rfl⟩ := step_stop taken
      exact fun uncalled => absurd uncalled called
    · obtain ⟨stop, -, rfl⟩ := step_stop taken
      exact steady.released
  · exact ⟨steady.counted, steady.lives, by simp [waiting], by simp⟩
  · exact absurd (steady.released released) more

theorem Steady.dispatch (steady : Steady dispatcher) (early : dispatcher.early = true) (task : Task δ) :
    Steady { dispatcher with state := dispatcher.state.dispatch task } := by
  have unseen : ¬(dispatcher.state.stop = .waited ∨ dispatcher.state.stop = .closed) := by
    rintro (waited | closed)
    · simp [Dispatcher.early, waited] at early
    · simp [Dispatcher.early, closed] at early
  refine ⟨steady.counted.dispatch unseen task, fun id => (steady.lives id).dispatch task, steady.uncalled, fun released => ?_⟩
  -- nobody is released before the wait is over
  cases stop : dispatcher.state.stop with
  | uncalled => simp [steady.uncalled stop] at released
  | waiting => simp_all [Dispatcher.early]
  | waited => exact absurd (.inl stop) unseen
  | closed => exact absurd (.inr stop) unseen

theorem Steady.step {action} (steady : Steady dispatcher) (taken : dispatcher.step action = some after)
    (early : ∀ task, action = .dispatch task → dispatcher.early = true) : Steady after := by
  rw [Dispatcher.step.eq_def, if_neg (by simp [steady.counted.calm])] at taken
  cases action with
  | dispatch task =>
    obtain rfl := some.inj taken
    exact steady.dispatch (early task rfl) task
  | stop => exact steady.stop taken
  | start numWorkers =>
    obtain ⟨state, moved, rfl⟩ := map_eq_some_iff.mp taken
    refine ⟨counted_step steady.counted moved, fun id => life_step (steady.lives id) steady.counted moved, ?_, ?_⟩
    · obtain rfl := some.inj moved
      exact steady.uncalled
    · obtain rfl := some.inj moved
      exact steady.released
  | client index choice =>
    obtain ⟨state, moved, rfl⟩ := map_eq_some_iff.mp taken
    obtain ⟨client, here, chosen⟩ := bind_eq_some_iff.mp moved
    have live := steady.counted.client_live here
    refine Steady.release (counted_step steady.counted moved) (fun id => life_step (steady.lives id) steady.counted moved) ?_ ?_
    · exact fun uncalled => steady.uncalled ((clientStep_move chosen).stop ▸ uncalled)
    · intro released
      have zero := steady.released released
      omega
  | worker index choice =>
    obtain ⟨state, moved, rfl⟩ := map_eq_some_iff.mp taken
    obtain ⟨worker, here, chosen⟩ := bind_eq_some_iff.mp moved
    refine Steady.release (counted_step steady.counted moved) (fun id => life_step (steady.lives id) steady.counted moved) ?_ ?_
    · exact fun uncalled => steady.uncalled ((workerStep_move chosen).stop ▸ uncalled)
    · exact fun released => (workerStep_move chosen).queued_zero steady.counted here (steady.released released)

end Steps

theorem punctual_step {action} (taken : dispatcher.punctual action = some after) :
    dispatcher.step action = some after ∧ ∀ task, action = .dispatch task → dispatcher.early = true := by
  cases action with
  | dispatch task =>
    obtain ⟨early, taken⟩ : dispatcher.early = true ∧ dispatcher.step (.dispatch task) = some after := by
      simpa [punctual] using taken
    exact ⟨taken, fun _ _ => early⟩
  | _ => exact ⟨taken, by simp⟩

/-- In every interleaving in which clients dispatch only before the wait of `Stop` is over, nothing
panics, every dispatch is answered and no accepted task is lost. -/
theorem punctual_sound (bufferSize : Nat) (dispatcher : Dispatcher δ ε)
    (reached : Reachable punctual { state := newTaskDispatcher bufferSize } dispatcher) : dispatcher.Sound := by
  suffices steady : Steady dispatcher from steady.sound
  induction reached with
  | start => exact ⟨counted_new bufferSize, life_new bufferSize, fun _ => rfl, by simp⟩
  | next action reached taken ih =>
    obtain ⟨stepped, early⟩ := punctual_step taken
    exact ih.step stepped early

/-- A dispatch while `Stop` waits for an earlier one. -/
theorem punctual_sound_waiting :
    ∃ dispatcher : Dispatcher Nat String,
      run punctual [once (runTask "first"), .stop, .stop, once (runTask "second")]
        { state := newTaskDispatcher 1 } = some dispatcher ∧ dispatcher.waiter = .blocked ∧ dispatcher.Sound :=
  ⟨_, rfl, rfl, punctual_sound 1 _
    (.next (once (runTask "second")) (.next .stop (.next .stop (.next (once (runTask "first")) .start rfl) rfl) rfl) rfl)⟩

/-- `Once` behind `Stop` sends on the closed queue, as does one that comes between the wait and
the close; and one that comes when the last task has released `Stop` makes its wait panic. -/
theorem stop_crashes :
    (run Dispatcher.step [.stop, .stop, .stop, once (runTask "late"), .client 0 .put]
        ({ state := newTaskDispatcher 1 } : Dispatcher Nat String)).map (fun dispatcher => dispatcher.state.panicked) = some true ∧
    (run Dispatcher.step [.stop, .stop, once (runTask "late"), .stop, .client 0 .put]
        ({ state := newTaskDispatcher 1 } : Dispatcher Nat String)).map (fun dispatcher => dispatcher.state.panicked) = some true ∧
    (run Dispatcher.step [once (runTask "first"), .stop, .stop, .client 0 .expire, .client 0 .go, once (runTask "late"), .stop]
        ({ state := newTaskDispatcher 1 } : Dispatcher Nat String)).map (fun dispatcher => dispatcher.state.panicked) = some true :=
  ⟨rfl, rfl, rfl⟩

end MycsCommon.Tasks
