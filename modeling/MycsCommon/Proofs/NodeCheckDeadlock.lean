import MycsCommon.Tailscale.TailscaleDaemon
import MycsCommon.Proofs.TimerStop

/-! The daemon's `Stop` keeps `mx` while it waits for the node check in flight, and the node
check wants `mx`. They can block each other for good exactly where `Stop` has the mutex before a
node check that is in flight or that begins while `Stop` waits. -/

namespace MycsCommon.Tailscale
open Library.Machine Utils ExecTimer List ExecTimer Option TailscaleDaemon

variable {daemon after : TailscaleDaemon} {action : Action}

theorem stepTimer_iff {action} : daemon.stepTimer action = some after ↔
      ∃ timer, step false action daemon.nodeCheckTimer = some timer ∧ { daemon with nodeCheckTimer := timer } = after := by
  simp [stepTimer, bind_eq_some_iff]

theorem calling_kept {state next action} (taken : step false action state = some next)
    (other : ∀ index timeout err, action ≠ .turn index (.ended timeout err))
    (calling : ∃ goroutine ∈ state.goroutines, goroutine.phase = .calling) :
    ∃ goroutine ∈ next.goroutines, goroutine.phase = .calling := by
  by_cases turned : ∃ index turn, action = .turn index turn
  · obtain ⟨index, turn, rfl⟩ := turned
    obtain ⟨actor, phase', spawned, here, moves, made⟩ := step_turn.mp taken
    obtain ⟨goroutine, member, inside⟩ := calling
    refine ⟨goroutine, ?_, inside⟩
    obtain ⟨position, there⟩ := mem_iff_getElem?.mp member
    have apart : index ≠ position := by
      rintro rfl
      obtain rfl := some.inj (here.symm.trans there)
      rw [inside] at moves
      obtain ⟨timeout, err, rfl⟩ := moves.calling
      exact other _ _ _ rfl
    rw [made]
    refine mem_append_left _ (mem_of_getElem? (i := position) ?_)
    rw [getElem?_set_ne apart, there]
  · obtain ⟨-, same⟩ := (step_control (by simpa using turned)).mp taken
    rwa [← same]

theorem stop_kept {state next} {index turn} (taken : step false (.turn index turn) state = some next)
    (unsent : state.shared.stop ≠ .sending) : next.shared.stop = state.shared.stop := by
  obtain ⟨goroutine, phase', spawned, -, moves, -⟩ := step_turn.mp taken
  exact moves.stop_kept unsent

theorem inflight_pos {state} (orderly : Orderly state)
    (calling : ∃ goroutine ∈ state.goroutines, goroutine.phase = .calling) : 0 < state.shared.inflight := by
  obtain ⟨goroutine, member, inside⟩ := calling
  rw [orderly.inflight]
  exact countP_pos_iff.mpr ⟨goroutine, member, by simp [Goroutine.inFlight, inside]⟩

theorem begin_alone {state next} {index} (orderly : Orderly state)
    (taken : step false (.turn index .begin) state = some next) :
    (¬∃ goroutine ∈ state.goroutines, goroutine.phase = .calling) ∧
      ∃ goroutine ∈ next.goroutines, goroutine.phase = .calling := by
  obtain ⟨⟨phase, loops⟩, phase', spawned, here, moves, made⟩ := step_turn.mp taken
  obtain ⟨rfl, rfl⟩ := moves.begins
  constructor
  · rintro ⟨goroutine, member, inside⟩
    obtain ⟨front, back, whole, -, rest⟩ := exists_idle_around orderly.one here rfl
    rw [whole] at member
    obtain inFront | rfl | inBack : goroutine ∈ front ∨ goroutine = _ ∨ goroutine ∈ back := by simpa using member
    · simpa [Goroutine.live, inside] using rest goroutine (by simp [inFront])
    · simp at inside
    · simpa [Goroutine.live, inside] using rest goroutine (by simp [inBack])
  · rw [made]
    exact ⟨_, mem_of_getElem? (getElem?_turn here), rfl⟩

/-- Who holds the mutex, and that a node check is in flight while it runs. -/
structure Held (daemon : TailscaleDaemon) : Prop where
  orderly : Orderly daemon.nodeCheckTimer
  calling : daemon.check ≠ .idle → ∃ goroutine ∈ daemon.nodeCheckTimer.goroutines, goroutine.phase = .calling
  checking : daemon.mx = some .nodeCheck ↔ daemon.check = .holding
  stopping : daemon.mx = some .stop ↔ daemon.stop = .locked ∨ daemon.stop = .canceled
  untouched : daemon.stop = .idle → daemon.nodeCheckTimer.shared.stop = .idle
  uncanceled : daemon.stop = .idle ∨ daemon.stop = .locked → daemon.ctx = none

theorem held_started : Held started where
  orderly := orderly_started nodeCheckTimeout
  calling := by simp [TailscaleDaemon.started]
  checking := by simp [TailscaleDaemon.started]
  stopping := by simp [TailscaleDaemon.started]
  untouched := fun _ => rfl
  uncanceled := fun _ => rfl

theorem Held.timer {action} (held : Held daemon) (taken : daemon.stepTimer action = some after)
    (other : ∀ index timeout err, action ≠ .turn index (.ended timeout err))
    (still : daemon.stop = .idle → ∃ index turn, action = .turn index turn) : Held after := by
  obtain ⟨timer, stepped, rfl⟩ := stepTimer_iff.mp taken
  refine ⟨held.orderly.step stepped, fun running => calling_kept stepped other (held.calling running), held.checking,
    held.stopping, fun idle => ?_, held.uncanceled⟩
  obtain ⟨index, turn, rfl⟩ := still idle
  exact (stop_kept stepped (by simp [held.untouched idle])).trans (held.untouched idle)

theorem Held.step (held : Held daemon) (taken : daemon.step action = some after) : Held after := by
  cases action with
  | timer index turn =>
    obtain ⟨outside, stepped⟩ : inCallback turn = false ∧ _ := by simpa [TailscaleDaemon.step] using taken
    refine held.timer stepped (fun _ _ _ ended => ?_) fun _ => ⟨index, turn, rfl⟩
    cases ended
    simp [inCallback] at outside
  | enter index =>
    obtain ⟨begun, stepped, made⟩ := bind_eq_some_iff.mp taken
    obtain rfl := some.inj made
    have kept := held.timer stepped (by simp) fun _ => ⟨_, _, rfl⟩
    obtain ⟨timer, started, rfl⟩ := stepTimer_iff.mp stepped
    obtain ⟨alone, calling⟩ := begin_alone held.orderly started
    have idle := by_contra fun running => alone (held.calling running)
    have free : daemon.mx ≠ some .nodeCheck := by simp [held.checking, idle]
    exact ⟨kept.orderly, fun _ => calling, by simp [free], kept.stopping, kept.untouched, held.uncanceled⟩
  | checkContext =>
    obtain ⟨entered, checked⟩ : daemon.check = .entered ∧ _ := by simpa [TailscaleDaemon.step] using taken
    have free : daemon.mx ≠ some .nodeCheck := by simp [held.checking, entered]
    have calling := held.calling (by simp [entered])
    split at checked
    all_goals
      obtain rfl := some.inj checked
      exact ⟨held.orderly, fun _ => calling, by simp [free], held.stopping, held.untouched, held.uncanceled⟩
  | lock =>
    obtain ⟨⟨waiting, free⟩, rfl⟩ : (daemon.check = .waiting ∧ daemon.mx = none) ∧ _ := by
      simpa [TailscaleDaemon.step] using taken
    have unlocked : ¬(daemon.stop = .locked ∨ daemon.stop = .canceled) := by simp [← held.stopping, free]
    exact ⟨held.orderly, fun _ => held.calling (by simp [waiting]), by simp, by simp [unlocked], held.untouched,
      held.uncanceled⟩
  | unlock =>
    obtain ⟨holding, rfl⟩ : daemon.check = .holding ∧ _ := by simpa [TailscaleDaemon.step] using taken
    have unlocked : ¬(daemon.stop = .locked ∨ daemon.stop = .canceled) := by
      simp [← held.stopping, held.checking.mpr holding]
    exact ⟨held.orderly, fun _ => held.calling (by simp [holding]), by simp, by simp [unlocked], held.untouched,
      held.uncanceled⟩
  | leave index =>
    simp only [TailscaleDaemon.step] at taken
    split at taken
    next err returning =>
      obtain ⟨left, stepped, made⟩ := bind_eq_some_iff.mp taken
      obtain rfl := some.inj made
      obtain ⟨timer, ended, rfl⟩ := stepTimer_iff.mp stepped
      have free : daemon.mx ≠ some .nodeCheck := by simp [held.checking, returning]
      exact ⟨held.orderly.step ended, by simp, by simp [free], held.stopping,
        fun idle => (stop_kept ended (by simp [held.untouched idle])).trans (held.untouched idle), held.uncanceled⟩
    next => cases taken
  | stopLock =>
    obtain ⟨⟨idle, free⟩, rfl⟩ : (daemon.stop = .idle ∧ daemon.mx = none) ∧ _ := by
      simpa [TailscaleDaemon.step] using taken
    have unlocked : daemon.check ≠ .holding := by simp [← held.checking, free]
    exact ⟨held.orderly, held.calling, by simp [unlocked], by simp, by simp, fun _ => held.uncanceled (.inl idle)⟩
  | stopTimer action =>
    obtain ⟨⟨locked, stops⟩, stepped⟩ : (daemon.stop = .locked ∧ ofStop action = true) ∧ _ := by
      simpa [TailscaleDaemon.step] using taken
    refine held.timer stepped ?_ (by simp [locked])
    rintro _ _ _ rfl
    simp [ofStop] at stops
  | stopCancel =>
    simp only [TailscaleDaemon.step] at taken
    split at taken
    next ready =>
      obtain ⟨done, stepped, made⟩ := bind_eq_some_iff.mp taken
      obtain rfl := some.inj made
      have kept := held.timer stepped (by simp) (by simp [ready.1])
      obtain ⟨timer, -, rfl⟩ := stepTimer_iff.mp stepped
      exact ⟨kept.orderly, kept.calling, kept.checking, by simp [held.stopping.mpr (.inl ready.1)], by simp, by simp⟩
    next => cases taken
  | stopUnlock =>
    obtain ⟨canceled, rfl⟩ : daemon.stop = .canceled ∧ _ := by simpa [TailscaleDaemon.step] using taken
    have unlocked : daemon.check ≠ .holding := by
      simp [← held.checking, held.stopping.mpr (.inr canceled)]
    exact ⟨held.orderly, held.calling, by simp [unlocked], by simp, by simp, by simp⟩

/-- `Stop` holds the mutex and waits for the node check in flight, which waits for the mutex. -/
structure Deadlock (daemon : TailscaleDaemon) : Prop where
  locked : daemon.stop = .locked
  holds : daemon.mx = some .stop
  waits : daemon.nodeCheckTimer.shared.stop = .cancelled
  inflight : 0 < daemon.nodeCheckTimer.shared.inflight
  check : daemon.check = .waiting

theorem Deadlock.step (deadlock : Deadlock daemon) (held : Held daemon)
    (taken : daemon.step action = some after) : Deadlock after := by
  have calling := held.calling (by simp [deadlock.check])
  cases action with
  | timer index turn =>
    obtain ⟨outside, stepped⟩ : inCallback turn = false ∧ _ := by simpa [TailscaleDaemon.step] using taken
    obtain ⟨timer, moved, rfl⟩ := stepTimer_iff.mp stepped
    have other : ∀ (index' : Nat) (timeout : Int) (err : Option String),
        ExecTimer.Action.turn index turn ≠ .turn index' (.ended timeout err) := by
      rintro _ _ _ ended
      cases ended
      simp [inCallback] at outside
    exact ⟨deadlock.locked, deadlock.holds, (stop_kept moved (by simp [deadlock.waits])).trans deadlock.waits,
      inflight_pos (held.orderly.step moved) (calling_kept moved other calling), deadlock.check⟩
  | enter index =>
    obtain ⟨begun, stepped, -⟩ := bind_eq_some_iff.mp taken
    obtain ⟨timer, moved, -⟩ := stepTimer_iff.mp stepped
    exact absurd calling (begin_alone held.orderly moved).1
  | stopTimer stopping =>
    obtain ⟨⟨-, stops⟩, stepped⟩ : (_ ∧ ofStop stopping = true) ∧ _ := by simpa [TailscaleDaemon.step] using taken
    obtain ⟨timer, moved, -⟩ := stepTimer_iff.mp stepped
    have other : ∀ index turn, stopping ≠ .turn index turn := by
      rintro _ _ rfl
      simp [ofStop] at stops
    obtain ⟨controls, -⟩ := (step_control other).mp moved
    have waits := deadlock.waits
    have inflight := deadlock.inflight
    generalize timer.shared = shared' at controls
    cases controls <;> simp_all [ofStop]
  | _ => simp [TailscaleDaemon.step, deadlock.check, deadlock.holds, deadlock.locked, deadlock.waits] at taken

theorem Deadlock.forever (deadlock : Deadlock daemon) (held : Held daemon)
    (reached : Reachable (fun action daemon => TailscaleDaemon.step action daemon) daemon after) : Deadlock after :=
  (reached.invariant (fun daemon => Held daemon ∧ Deadlock daemon) ⟨held, deadlock⟩ fun _ _ _ both taken =>
    ⟨both.1.step taken, both.2.step both.1 taken⟩).2

/-- Once `Stop` and a node check wait for each other, no step of any goroutine resolves it. -/
theorem deadlock_final (reached : Reachable (fun action daemon => daemon.step action) TailscaleDaemon.started daemon)
    (deadlock : Deadlock daemon) (later : Reachable (fun action daemon => daemon.step action) daemon after) : Deadlock after :=
  deadlock.forever (reached.invariant Held held_started fun _ _ _ held taken => held.step taken) later

theorem node_check_never_resumes :
    ∃ daemon, Deadlock daemon ∧ ∀ after, Reachable (fun action daemon => TailscaleDaemon.step action daemon) daemon after →
      Deadlock after := by
  have reached := Reachable.start.run (rfl : run (fun action daemon => TailscaleDaemon.step action daemon) [.timer 0 .setTicker,
    .timer 0 .evaluate, .timer 0 .tick, .timer 0 .proceed, .timer 0 .add, .enter 0, .stopLock, .stopTimer .cancel, .checkContext]
    TailscaleDaemon.started = some _)
  refine ⟨_, ?deadlock, fun _ => deadlock_final reached ?deadlock⟩
  exact ⟨rfl, rfl, rfl, Nat.one_pos, rfl⟩

/-! When it comes to that. -/

/-- A node check in flight still has to take the mutex. -/
def TailscaleDaemon.ahead (daemon : TailscaleDaemon) : Bool :=
  daemon.nodeCheckTimer.goroutines.any (·.phase = .added) || (daemon.check = .entered || daemon.check = .waiting)

/-- `Stop` takes the mutex, or a node check begins. -/
def restricted : Action → Bool
  | .stopLock | .timer _ .add => true
  | _ => false

/-- The runs in which such steps are taken only where a guard permits it. -/
def guarded (guard : Action → TailscaleDaemon → Bool) (action : Action) (daemon : TailscaleDaemon) : Option TailscaleDaemon :=
  if restricted action && !guard action daemon then none else daemon.step action

variable {guard : Action → TailscaleDaemon → Bool}

/-- The loop ends with this result. -/
def Last (result : Option PingError) : Prop := result = none ∨ result = some (.context .deadlineExceeded)

theorem pingLoop_step {ping turns turn} :
    pingLoop ping (turns + 1) turn = none ↔ ¬ Last (ping turn) ∧ pingLoop ping turns (turn + 1) = none := by
  rw [pingLoop, Last]
  split <;> simp_all

theorem pingLoop_none_iff {ping turns turn} :
    pingLoop ping turns turn = none ↔ ∀ later < turns, ¬ Last (ping (turn + later)) := by
  induction turns generalizing turn with
  | zero => simp [pingLoop]
  | succ turns ih =>
    rw [pingLoop_step, ih, Nat.forall_lt_succ_left]
    simp only [Nat.add_zero, Nat.add_assoc, Nat.add_comm 1]

/-- The loop ends exactly if a pong or an exceeded deadline comes before the context's end, or the context ends by its deadline. -/
theorem pingLoop_ends_iff (results : List (Option PingError)) (ended : ContextError) :
    (∃ turns outcome, pingLoop (ping results ended) turns 0 = some outcome) ↔
      none ∈ results ∨ some (.context .deadlineExceeded) ∈ results ∨ ended = .deadlineExceeded := by
  have reached : (∃ turns outcome, pingLoop (ping results ended) turns 0 = some outcome) ↔ ∃ turn, Last (ping results ended turn) := by
    simp only [← isSome_iff_exists, isSome_iff_ne_none, ne_eq, pingLoop_none_iff, Nat.zero_add, not_forall, not_not]
    exact ⟨fun ⟨_, turn, _, last⟩ => ⟨turn, last⟩, fun ⟨turn, last⟩ => ⟨turn + 1, turn, turn.lt_succ_self, last⟩⟩
  rw [reached]
  constructor
  · rintro ⟨turn, last⟩
    cases here : results[turn]? with
    | none =>
      rw [Last, ping, getD_eq_getElem?_getD, here] at last
      simp_all
    | some result =>
      have member := mem_of_getElem? here
      rw [Last, ping, getD_eq_getElem?_getD, here] at last
      rcases last with rfl | rfl
      · exact .inl member
      · exact .inr (.inl member)
  · have held {result} (last : Last result) (member : result ∈ results) : ∃ turn, Last (ping results ended turn) := by
      obtain ⟨turn, here⟩ := mem_iff_getElem?.mp member
      exact ⟨turn, by rwa [ping, getD_eq_getElem?_getD, here]⟩
    rintro (pong | exceeded | rfl)
    · exact held (.inl rfl) pong
    · exact held (.inr rfl) exceeded
    · exact ⟨results.length, .inr (by simp [ping])⟩

/-- The daemon is stopped before the first `Ping` returns. -/
theorem pingLoop_endless : ¬ ∃ turns outcome, pingLoop (ping [] .canceled) turns 0 = some outcome := by
  rintro ⟨turns, outcome, ended⟩
  have never : pingLoop (ping [] .canceled) turns 0 = none := pingLoop_none_iff.mpr fun _ _ last => by simp [Last, ping] at last
  exact nomatch never.symm.trans ended

end MycsCommon.Tailscale
