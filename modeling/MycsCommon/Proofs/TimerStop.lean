import MycsCommon.Proofs.TimerSteps

/-! When `Stop` is safe: exactly if every goroutine is settled at the moment it clears the
ticker. From any other state some order of the steps leads to a goroutine without a ticker, or
to a callback that begins after `Stop` has returned. -/

namespace MycsCommon.Utils.ExecTimer
open Library.Machine List Goroutine

variable {stopOnError loops : Bool} {shared after : Shared} {goroutine : Goroutine} {phase phase' : Phase}
  {spawned : List Goroutine} {turn : Turn} {state : State} {guard : State → Bool}

/-- Counted as in flight: from `Add` until `Done`. -/
def Goroutine.inFlight (goroutine : Goroutine) : Bool :=
  match goroutine.phase with
  | .added | .calling | .called _ _ | .handing _ | .leaving _ => true
  | _ => false

section

variable (moves : Moves stopOnError loops shared phase turn phase' after spawned)
include moves

theorem Moves.live_le :
    List.countP live (⟨phase', loops⟩ :: spawned) ≤ (live ⟨phase, loops⟩).toNat := by
  cases moves with
  | goOn again round => simp [live, round, countP_first]
  | spawn timeout => simp [live, countP_first]
  | _ => simp [live, countP_first, Bool.toNat_le]

theorem Moves.inflight
    (counted : (inFlight ⟨phase, loops⟩).toNat ≤ shared.inflight) :
    after.inflight + (inFlight ⟨phase, loops⟩).toNat =
      shared.inflight + List.countP inFlight (⟨phase', loops⟩ :: spawned) := by
  cases moves with
  | goOn again round | finish again out =>
    simp only [inFlight, Bool.toNat_true] at counted
    simp [inFlight]
    omega
  | _ => simp [inFlight, countP_first]

theorem Moves.ticking
    (ticking : shared.timeoutTimer.isSome → 0 < shared.tickTime) : after.timeoutTimer.isSome → 0 < after.tickTime := by
  cases moves with
  | setTicker timeout => exact setTimerTicker_ticking shared timeout
  | fail timeout err failed => exact setTimerTicker_ticking _ 0
  | _ => simpa using ticking

end

/-- What holds of every timer, whatever becomes of it. -/
structure Orderly (state : State) : Prop where
  one : state.goroutines.countP live ≤ 1
  inflight : state.shared.inflight = state.goroutines.countP inFlight
  ticking : state.shared.timeoutTimer.isSome → 0 < state.shared.tickTime

theorem Orderly.moved {index shared'} (orderly : Orderly state)
    (here : state.goroutines[index]? = some ⟨phase, loops⟩)
    (moves : Moves stopOnError loops state.shared phase turn phase' shared' spawned) :
    Orderly ⟨shared', state.goroutines.set index ⟨phase', loops⟩ ++ spawned⟩ := by
  have liveCount := @countP_turn _ _ _ _ ⟨phase', loops⟩ live spawned here
  have flightCount := @countP_turn _ _ _ _ ⟨phase', loops⟩ inFlight spawned here
  have part : (inFlight ⟨phase, loops⟩).toNat ≤ state.goroutines.countP inFlight := by
    have erased := @countP_eraseIdx _ _ _ _ inFlight here
    omega
  refine ⟨?_, ?_, moves.ticking orderly.ticking⟩
  · have le := moves.live_le
    have one := orderly.one
    simp only
    omega
  · have moved := moves.inflight (orderly.inflight ▸ part)
    have counted := orderly.inflight
    simp only
    omega

theorem Orderly.control {action shared'} (orderly : Orderly state) (controls : Controls state.shared action shared') :
    Orderly { state with shared := shared' } := by
  refine ⟨orderly.one, controls.inflight.trans orderly.inflight, ?_⟩
  have ticking := orderly.ticking
  cases controls <;> simp_all

theorem Orderly.step {action after} (orderly : Orderly state) (taken : step stopOnError action state = some after) :
    Orderly after := by
  obtain ⟨shared', goroutines'⟩ := after
  by_cases turned : ∃ index turn, action = .turn index turn
  · obtain ⟨index, turn, rfl⟩ := turned
    obtain ⟨goroutine, phase', spawned, here, moves, rfl⟩ := step_turn.mp taken
    exact orderly.moved here moves
  · obtain ⟨controls, rfl⟩ := (step_control (by simpa using turned)).mp taken
    exact orderly.control controls

def Doomed (guard : State → Bool) (stopOnError : Bool) (state : State) : Prop :=
  ∃ after, Reachable (permitted guard stopOnError) state after ∧ ¬Safe after

namespace Doomed

variable {index : Nat} {shared' : Shared}

theorem step {action after} (taken : permitted guard stopOnError action state = some after)
    (doomed : Doomed guard stopOnError after) : Doomed guard stopOnError state := by
  obtain ⟨last, reached, unsafe_⟩ := doomed
  exact ⟨last, (Reachable.start.next action taken).trans reached, unsafe_⟩

theorem moved (here : state.goroutines[index]? = some ⟨phase, loops⟩)
    (moves : Moves stopOnError loops state.shared phase turn phase' shared' spawned) (nonNegative : turn.nonNegative)
    (doomed : Doomed guard stopOnError ⟨shared', state.goroutines.set index ⟨phase', loops⟩ ++ spawned⟩) :
    Doomed guard stopOnError state :=
  step (permitted_moved here moves nonNegative) doomed

section Cleared

/-! A loop that comes round to its `select` when there is no ticker. -/

variable (cleared : state.shared.timeoutTimer = none)
include cleared

theorem looping (here : state.goroutines[index]? = some ⟨.looping, loops⟩) : Doomed guard stopOnError state := by
  refine moved here (.crash cleared) rfl ⟨_, .start, fun safe => ?_⟩
  exact safe.uncrashed _ (mem_of_getElem? (getElem?_turn here)) rfl

theorem leaving (here : state.goroutines[index]? = some ⟨.leaving true, true⟩) : Doomed guard stopOnError state :=
  moved here (.goOn true rfl) rfl (looping cleared (getElem?_turn here))

theorem resuming {timeout} {err} (going : ¬(err.isSome ∧ stopOnError))
    (same : timeout = 0 ∨ timeout = state.shared.tickTime)
    (here : state.goroutines[index]? = some ⟨.called timeout err, true⟩) : Doomed guard stopOnError state :=
  moved here (.resume timeout err going same) rfl (leaving (by simpa using cleared) (getElem?_turn here))

theorem calling (here : state.goroutines[index]? = some ⟨.calling, true⟩) : Doomed guard stopOnError state :=
  moved here (.ended 0 none) rfl (resuming cleared (by simp) (.inl rfl) (getElem?_turn here))

theorem added (here : state.goroutines[index]? = some ⟨.added, true⟩) : Doomed guard stopOnError state :=
  moved here .begin rfl (calling cleared (getElem?_turn here))

theorem waited (here : state.goroutines[index]? = some ⟨.waited, true⟩) : Doomed guard stopOnError state :=
  moved here .add rfl (added cleared (getElem?_turn here))

theorem ticked (ticking : 0 < state.shared.tickTime) (here : state.goroutines[index]? = some ⟨.ticked, true⟩) :
    Doomed guard stopOnError state :=
  moved here (.skip ticking rfl) rfl (looping cleared (getElem?_turn here))

end Cleared

section Returned

/-! A callback that begins when `Stop` has returned. -/

variable (returned : state.shared.stop = .returned)
include returned

theorem beginning (here : state.goroutines[index]? = some ⟨.added, loops⟩) : Doomed guard stopOnError state := by
  refine moved here .begin rfl ⟨_, .start, fun safe => ?_⟩
  simpa [returned] using safe.onTime

theorem adding (here : state.goroutines[index]? = some ⟨.waited, loops⟩) : Doomed guard stopOnError state :=
  moved here .add rfl (beginning returned (getElem?_turn here))

theorem proceeding (free : state.shared.tickTime ≤ 0 ∨ state.shared.inflight = 0)
    (here : state.goroutines[index]? = some ⟨.ticked, loops⟩) : Doomed guard stopOnError state :=
  moved here (.proceed free) rfl (adding returned (getElem?_turn here))

section

variable {ticker} (running : state.shared.timeoutTimer = some ticker) (free : state.shared.inflight = 0)
include running free

theorem selecting
    (here : state.goroutines[index]? = some ⟨.selecting ticker, loops⟩) : Doomed guard stopOnError state :=
  moved here (.tick ticker running) rfl (proceeding returned (.inr free) (getElem?_turn here))

theorem evaluating
    (here : state.goroutines[index]? = some ⟨.looping, loops⟩) : Doomed guard stopOnError state :=
  moved here (.evaluate ticker running) rfl (selecting returned running free (getElem?_turn here))

end

theorem startingFree {timeout} (positive : 0 < timeout) (free : state.shared.inflight = 0)
    (here : state.goroutines[index]? = some ⟨.starting timeout, loops⟩) : Doomed guard stopOnError state :=
  moved here (.setTicker timeout) rfl
    (evaluating (by simpa using returned) (setTimerTicker_timeoutTimer state.shared positive).1 (by simpa using free)
      (getElem?_turn here))

end Returned

theorem leaving_of_inFlight (flies : inFlight ⟨phase, loops⟩) (idle : live ⟨phase, loops⟩ = false) :
    ∃ again, phase = .leaving again := by
  cases phase <;> simp_all [live, inFlight]

theorem drained (orderly : Orderly state)
    (outgoing : ∀ goroutine ∈ state.goroutines, goroutine.inFlight → goroutine.live = false) :
    ∃ after, Reachable (permitted guard stopOnError) state after ∧ after.shared = { state.shared with inflight := 0 } ∧
      ∀ (index : Nat) (goroutine : Goroutine), state.goroutines[index]? = some goroutine → goroutine.inFlight = false →
        after.goroutines[index]? = some goroutine := by
  induction flying : state.shared.inflight generalizing state with
  | zero => exact ⟨state, .start, by rw [← flying], fun _ _ here _ => here⟩
  | succ count ih =>
    obtain ⟨⟨phase, loops⟩, member, flies⟩ : ∃ goroutine ∈ state.goroutines, inFlight goroutine := by
      apply countP_pos_iff.mp
      rw [← orderly.inflight]
      omega
    obtain ⟨index, here⟩ := mem_iff_getElem?.mp member
    have idle := outgoing _ member flies
    obtain ⟨again, rfl⟩ := leaving_of_inFlight flies idle
    have moves : Moves stopOnError loops state.shared (.leaving again) .done .finished _ [] :=
      .finish again (by simpa [live] using idle)
    obtain ⟨after, reached, shared, kept⟩ := ih (orderly.moved here moves)
      (by
        intro goroutine member flies
        rw [append_nil] at member
        obtain old | rfl := mem_or_eq_of_mem_set member
        · exact outgoing goroutine old flies
        · simp [inFlight] at flies)
      (by simp [flying])
    refine ⟨after, (Reachable.start.next _ (permitted_moved here moves rfl)).trans reached, shared, fun other goroutine there grounded => ?_⟩
    refine kept other goroutine ?_ grounded
    have apart : index ≠ other := by
      rintro rfl
      obtain rfl := Option.some.inj (here.symm.trans there)
      simp [inFlight] at grounded
    simpa [getElem?_set_ne apart] using there

theorem of_reachable {after} (reached : Reachable (permitted guard stopOnError) state after)
    (doomed : Doomed guard stopOnError after) : Doomed guard stopOnError state := by
  obtain ⟨last, further, unsafe_⟩ := doomed
  exact ⟨last, reached.trans further, unsafe_⟩

theorem exists_free (orderly : Orderly state) (here : state.goroutines[index]? = some goroutine)
    (acting : goroutine.live = true) (grounded : goroutine.inFlight = false) :
    ∃ after, Reachable (permitted guard stopOnError) state after ∧ after.shared = { state.shared with inflight := 0 } ∧
      after.goroutines[index]? = some goroutine := by
  obtain ⟨front, back, whole, -, rest⟩ := exists_idle_around orderly.one here acting
  obtain ⟨after, reached, shared, kept⟩ := drained orderly (fun other member flies => by
    rw [whole] at member
    obtain inFront | rfl | inBack : other ∈ front ∨ other = goroutine ∨ other ∈ back := by simpa using member
    · exact rest other (by simp [inFront])
    · simp [grounded] at flies
    · exact rest other (by simp [inBack]))
  exact ⟨after, reached, shared, kept index goroutine here grounded⟩

section Returned

variable (returned : state.shared.stop = .returned) (orderly : Orderly state)
include returned orderly

theorem starting {timeout} (positive : 0 < timeout)
    (here : state.goroutines[index]? = some ⟨.starting timeout, loops⟩) : Doomed guard stopOnError state := by
  obtain ⟨after, reached, shared, still⟩ := exists_free orderly here rfl rfl
  exact of_reachable reached (startingFree (by rw [shared]; exact returned) positive (by rw [shared]) still)

theorem tickedLate (here : state.goroutines[index]? = some ⟨.ticked, loops⟩) : Doomed guard stopOnError state := by
  obtain ⟨after, reached, shared, still⟩ := exists_free orderly here rfl rfl
  exact of_reachable reached (proceeding (by rw [shared]; exact returned) (.inr (by rw [shared])) still)

theorem handing {timeout} (positive : 0 < timeout)
    (here : state.goroutines[index]? = some ⟨.handing timeout, loops⟩) : Doomed guard stopOnError state := by
  have moves : Moves stopOnError loops state.shared (.handing timeout) .spawn (.leaving false) _ _ := .spawn timeout
  have last : (state.goroutines.set index ⟨.leaving false, loops⟩ ++ [⟨.starting timeout, true⟩])[state.goroutines.length]? =
      some ⟨.starting timeout, true⟩ := by simp
  exact moved here moves rfl (starting returned (orderly.moved here moves) positive last)

theorem changing {timeout} {err} (going : ¬(err.isSome ∧ stopOnError))
    (changed : ¬(timeout = 0 ∨ timeout = state.shared.tickTime)) (nonNegative : 0 ≤ timeout)
    (here : state.goroutines[index]? = some ⟨.called timeout err, loops⟩) : Doomed guard stopOnError state := by
  have moves : Moves stopOnError loops state.shared (.called timeout err) .check (.handing timeout) _ [] :=
    .change timeout err going changed
  exact moved here moves rfl
    (handing (by simpa using returned) (orderly.moved here moves) (by omega) (getElem?_turn here))

theorem callingLate (here : state.goroutines[index]? = some ⟨.calling, loops⟩) : Doomed guard stopOnError state := by
  -- any new interval starts a successor
  have fresh : ¬(max 1 (state.shared.tickTime + 1) = 0 ∨ max 1 (state.shared.tickTime + 1) = state.shared.tickTime) := by
    omega
  have moves : Moves stopOnError loops state.shared .calling _ _ _ [] := .ended (max 1 (state.shared.tickTime + 1)) none
  have nonNegative : 0 ≤ max 1 (state.shared.tickTime + 1) := by omega
  exact moved here moves (decide_eq_true nonNegative)
    (changing returned (orderly.moved here moves) (by simp) fresh nonNegative (getElem?_turn here))

end Returned

theorem called_unsettled {timeout} {err}
    (unsettled : settled stopOnError shared ⟨.called timeout err, loops⟩ = false) : ¬(err.isSome ∧ stopOnError) ∧
      if timeout = 0 ∨ timeout = shared.tickTime then loops = true else shared.timeoutTimer = none := by
  by_cases same : timeout = 0 ∨ timeout = shared.tickTime
  · simpa [settled, same] using unsettled
  · simpa [settled, same] using unsettled

theorem of_cleared (cleared : state.shared.timeoutTimer = none) (running : shared.timeoutTimer.isSome)
    (sameTime : state.shared.tickTime = shared.tickTime) (ticking : 0 < shared.tickTime)
    (attached : goroutine.Attached shared) (unsettled : goroutine.settled stopOnError shared = false)
    (here : state.goroutines[index]? = some goroutine) : Doomed guard stopOnError state := by
  obtain ⟨phase, loops⟩ := goroutine
  have looped (linked : loops = shared.timeoutTimer.isSome) : loops = true := linked.trans running
  cases phase with
  | looping => exact looping cleared here
  | ticked =>
    obtain rfl := looped attached
    exact ticked cleared (sameTime ▸ ticking) here
  | waited =>
    obtain rfl := looped attached
    exact waited cleared here
  | added =>
    obtain rfl := looped attached
    exact added cleared here
  | calling =>
    obtain rfl := looped attached
    exact calling cleared here
  | called timeout err =>
    obtain rfl := looped attached.2
    obtain ⟨going, same⟩ := called_unsettled unsettled
    refine resuming cleared going (by_contra fun changed => ?_) here
    rw [sameTime] at changed
    simp [changed, Option.isSome_iff_ne_none.mp running] at same
  | leaving again =>
    obtain rfl := looped attached
    obtain rfl : again = true := by simpa [settled] using unsettled
    exact leaving cleared here
  | _ => simp [settled, running, Attached] at unsettled attached

theorem of_returned (returned : state.shared.stop = .returned) (orderly : Orderly state)
    (none : shared.timeoutTimer = none) (sameTime : state.shared.tickTime = shared.tickTime)
    (attached : goroutine.Attached shared) (unsettled : goroutine.settled stopOnError shared = false)
    (here : state.goroutines[index]? = some goroutine) : Doomed guard stopOnError state := by
  obtain ⟨phase, loops⟩ := goroutine
  cases phase with
  | starting timeout => exact starting returned orderly attached.1 here
  | handing timeout => exact handing returned orderly attached here
  | ticked => exact tickedLate returned orderly here
  | waited => exact adding returned here
  | added => exact beginning returned here
  | calling => exact callingLate returned orderly here
  | called timeout err =>
    obtain rfl : loops = false := by simpa [none] using attached.2
    obtain ⟨going, same⟩ := called_unsettled unsettled
    refine changing returned orderly going (fun same' => ?_) attached.1 here
    rw [sameTime] at same'
    simp [same'] at same
  | leaving again =>
    obtain rfl : loops = false := by simpa [Attached, none] using attached
    simp [settled] at unsettled
  | _ => simp [settled, Attached, none] at unsettled attached

theorem controlled {action} (controls : Controls state.shared action shared')
    (other : ∀ index turn, action ≠ .turn index turn) (opened : action = .clear → guard state)
    (doomed : Doomed guard stopOnError { state with shared := shared' }) : Doomed guard stopOnError state := by
  have stepped : ExecTimer.step stopOnError action state = some { state with shared := shared' } :=
    (step_control other).mpr ⟨controls, rfl⟩
  have taken : permitted guard stopOnError action state = some { state with shared := shared' } := by
    cases action <;> simp_all [permitted]
  exact step taken doomed

end Doomed

theorem sound_started {timeout} (nonNegative : 0 ≤ timeout) : Sound stopOnError (started timeout) := by
  refine ⟨?_, rfl⟩
  by_cases zero : timeout = 0
  · refine ⟨by simp [started, zero, live], ?_⟩
    simp [started, zero, Fits, live, Suits, Attached]
  · refine ⟨by simp [started, zero, live], ?_⟩
    simp [started, zero, Fits, live, Suits, Attached]
    omega

theorem orderly_started (timeout : Int) : Orderly (started timeout) := by
  by_cases zero : timeout = 0
  · exact ⟨by simp [started, zero, live], by simp [started, zero, inFlight], by simp [started]⟩
  · exact ⟨by simp [started, zero, live], by simp [started, zero, inFlight], by simp [started]⟩

theorem orderly_reachable {timeout} (reached : Reachable (permitted guard stopOnError) (started timeout) state) :
    Orderly state :=
  reached.invariant Orderly (orderly_started timeout) fun _ _ _ orderly taken => orderly.step (permitted_step taken)

/-- The callback never runs twice at a time. -/
theorem callbacks_exclusive (stopOnError : Bool) (timeout : Int) (reached : Reachable (step stopOnError) (started timeout) state) :
    state.goroutines.countP (·.phase = .calling) ≤ 1 := by
  have orderly := reached.invariant Orderly (orderly_started timeout) fun _ _ _ => Orderly.step
  refine Nat.le_trans (countP_mono_left fun goroutine _ calling => ?_) orderly.one
  simp_all [live]

theorem first_callback_alone :
    ∃ state : State, 0 < state.goroutines.countP (·.phase = .calling) ∧ state.goroutines.countP (·.phase = .calling) ≤ 1 := by
  have reached := Reachable.start.run (rfl : run (step false) [.turn 0 .setTicker, .turn 0 .evaluate, .turn 0 .tick,
    .turn 0 .proceed, .turn 0 .add, .turn 0 .begin] (started 1000) = some _)
  exact ⟨_, by decide, callbacks_exclusive false 1000 reached⟩

theorem Goroutine.settled_of_idle (idle : goroutine.live = false) (uncrashed : goroutine.phase ≠ .crashed) :
    goroutine.settled stopOnError shared = true := by
  obtain ⟨phase, loops⟩ := goroutine
  cases phase with
  | leaving again => cases again <;> simp_all [live, settled]
  | _ => simp_all [live, settled]

theorem doomed_of_unsettled (sound : Sound stopOnError state) (orderly : Orderly state)
    (waited : state.shared.stop = .waited) (opened : guard state) (unsettled : state.settled stopOnError = false) :
    Doomed guard stopOnError state := by
  obtain ⟨goroutine, member, unsettled⟩ := by simpa [State.settled] using unsettled
  obtain ⟨index, here⟩ := mem_iff_getElem?.mp member
  have fits := sound.lone.fits goroutine member
  have acting : goroutine.live = true := by
    by_contra idle
    rw [Bool.not_eq_true] at idle
    rw [settled_of_idle idle ((fits_idle idle).mp fits)] at unsettled
    cases unsettled
  have attached : goroutine.Attached state.shared := by simpa [Fits, acting, Suits, waited] using fits
  cases timer : state.shared.timeoutTimer with
  | some ticker =>
    have running : state.shared.timeoutTimer.isSome := by simp [timer]
    exact .controlled (.clear waited ticker timer) (by simp) (fun _ => opened)
      (.of_cleared rfl running rfl (orderly.ticking running) attached unsettled here)
  | none =>
    have clears : Controls state.shared .clear _ := .clearNone waited timer
    have leaves : Controls { state.shared with stop := .returning } .leave _ := .leave rfl
    exact .controlled clears (by simp) (fun _ => opened) (.controlled leaves (by simp) (by simp)
      (.of_returned rfl ((orderly.control clears).control leaves) timer rfl attached unsettled here))

def StopPhase.early : StopPhase → Bool
  | .idle | .cancelled | .waited => true
  | .sending | .returning | .returned => false

theorem early_of_step {action after} (taken : step stopOnError action state = some after)
    (early : after.shared.stop.early) : state.shared.stop.early ∧ action ≠ .clear := by
  by_cases turned : ∃ index turn, action = .turn index turn
  · obtain ⟨index, turn, rfl⟩ := turned
    obtain ⟨goroutine, phase', spawned, -, moves, -⟩ := step_turn.mp taken
    obtain same | ⟨returning, -⟩ := moves.stop
    · exact ⟨same ▸ early, by simp⟩
    · simp [returning, StopPhase.early] at early
  · obtain ⟨controls, -⟩ := (step_control (by simpa using turned)).mp taken
    generalize after.shared = shared' at controls early
    cases controls <;> simp_all [StopPhase.early]

theorem sound_early {timeout} (nonNegative : 0 ≤ timeout)
    (reached : Reachable (permitted guard stopOnError) (started timeout) state) (early : state.shared.stop.early) :
    Sound stopOnError state := by
  induction reached with
  | start => exact sound_started nonNegative
  | next action reached taken ih =>
    obtain ⟨before, other⟩ := early_of_step (permitted_step taken) early
    exact (ih before).permitted (fun clearing => absurd clearing other) taken

/-- Safe in every interleaving in which the ticker is cleared only where it is permitted: this
is so exactly if each goroutine is settled there. -/
theorem safe_iff (guard : State → Bool) (stopOnError : Bool) (timeout : Int) (nonNegative : 0 ≤ timeout) :
    (∀ state, Reachable (permitted guard stopOnError) (started timeout) state → Safe state) ↔
      ∀ state, Reachable (permitted guard stopOnError) (started timeout) state →
        state.shared.stop = .waited → guard state → state.settled stopOnError := by
  constructor
  · intro safe state reached waited opened
    by_contra unsettled
    have sound := sound_early nonNegative reached (by simp [waited, StopPhase.early])
    obtain ⟨after, further, wrong⟩ := doomed_of_unsettled sound (orderly_reachable reached) waited opened
      (by simpa using unsettled)
    exact wrong (safe after (reached.trans further))
  · intro settled state reached
    have sound : Sound stopOnError state := by
      induction reached with
      | start => exact sound_started nonNegative
      | next action reached taken ih =>
        refine ih.permitted (fun clearing => ?_) taken
        subst clearing
        obtain ⟨opened, cleared⟩ : guard _ ∧ _ := by simpa [permitted] using taken
        obtain ⟨controls, -⟩ := (step_control (by simp)).mp cleared
        exact settled _ reached controls.waited opened
    exact sound.safe

/-- With `Stop` held back until every goroutine is settled, a timer of five milliseconds is safe when it
clears the ticker after a callback. -/
theorem safe_settled :
    let actions : List Action := [.turn 0 .setTicker, .turn 0 .evaluate, .turn 0 .tick, .turn 0 .proceed, .turn 0 .add,
      .turn 0 .begin, .turn 0 (.ended 0 none), .turn 0 .check, .turn 0 .done, .turn 0 .evaluate, .cancel, .wait, .clear]
    ∃ state, run (permitted (State.settled false) false) actions (started 5) = some state ∧
      state.shared.timeoutTimer = none ∧ Safe state := by
  intro actions
  have ran : run (permitted (State.settled false) false) actions (started 5) = some _ := rfl
  exact ⟨_, ran, rfl,
    (safe_iff (State.settled false) false 5 (by decide)).mpr (fun _ _ _ settled => settled) _ (Reachable.run .start ran)⟩

/-- Two bad orders. `Stop` clears the ticker when a callback has ended and the loop is on its way
to the next `select`; and `Stop` returns before the goroutine has set its ticker. -/
theorem stopped_too_early :
    (run (step false) [.turn 0 .setTicker, .turn 0 .evaluate, .turn 0 .tick, .turn 0 .proceed, .turn 0 .add, .turn 0 .begin,
        .turn 0 (.ended 0 none), .turn 0 .check, .turn 0 .done, .cancel, .wait, .clear, .turn 0 .evaluate] (started 5)).map
        (fun state => state.goroutines.map Goroutine.phase) = some [.crashed] ∧
      (run (step false) [.cancel, .wait, .clear, .leave, .turn 0 .setTicker, .turn 0 .evaluate, .turn 0 .tick, .turn 0 .proceed,
        .turn 0 .add, .turn 0 .begin] (started 5)).map (fun state => state.shared.beganLate) = some true := by
  decide

end MycsCommon.Utils.ExecTimer
