import MycsCommon.Mycsnode.Authenticate
import MycsCommon.Proofs.ChunkBounds
import MycsCommon.Proofs.TimerStop
import MycsCommon.Utils.TimerIntervals

/-! The tickers of a timer that nobody stops. Whoever comes to the `select` finds a ticker with
just the interval that was asked for last, as long as every duration that was looked at can be
counted in nanoseconds. -/

namespace MycsCommon.Utils.ExecTimer
open Library.Machine List ExecTimer Goroutine Option Script Timing

/-- Neither below zero nor too long to be counted in nanoseconds. -/
def Countable (timeout : Int) : Prop := 0 ≤ timeout ∧ timeout ≤ 9223372036854

theorem nanoseconds_countable {timeout} (countable : Countable timeout) : nanoseconds timeout = timeout * 1000000 := by
  obtain ⟨low, high⟩ := countable
  exact int64_eq (by omega) (by omega)

namespace Script

variable (script : Script)

/-- The interval that was asked for last, before a call. -/
def requested : Nat → Int
  | 0 => script.start
  | call + 1 => if (script.results call).1 = 0 then requested call else (script.results call).1

/-- The interval of `Start` can be counted, and so can every duration that came back before a
call and was looked at. -/
def CountBefore (bound : Nat) : Prop :=
  Countable script.start ∧
    ∀ call < bound, ¬((script.results call).2.isSome ∧ script.stopOnError) → Countable (script.results call).1

end Script

/-- Nothing has panicked, and whoever comes to the `select` finds a ticker with just the interval
that was asked for last. -/
structure Timing.Handled (script : Script) (timing : Timing) : Prop where
  calm : timing.panicked = false
  ticker : ∀ goroutine ∈ timing.timer.goroutines, goroutine.phase = .looping →
    ∃ ticker interval, timing.timer.shared.timeoutTimer = some ticker ∧ timing.intervals[ticker]? = some interval ∧
      0 < interval ∧ interval = script.requested timing.calls * 1000000

/-! What a step can do. -/

variable {script : Script} {timing after : Timing} {loops : Bool} {phase phase' : Phase} {turn : Turn} {shared shared' : Shared}
  {spawned : List Goroutine} {index : Nat}

/-- Everything a step can do: a callback returns, a ticker is set, a goroutine moves on, or the
context is done. -/
inductive Timing.Advances (script : Script) (timing : Timing) : Timing → Prop where
  | returns {index : Nat} {loops : Bool} (here : timing.timer.goroutines[index]? = some ⟨.calling, loops⟩) :
      Advances script timing
        { timing with
          timer := ⟨timing.timer.shared, timing.timer.goroutines.set index
            ⟨.called (script.results timing.calls).1 (script.results timing.calls).2, loops⟩ ++ []⟩
          calls := timing.calls + 1 }
  | sets {index : Nat} {loops : Bool} {timeout : Int} (here : timing.timer.goroutines[index]? = some ⟨.starting timeout, loops⟩) :
      Advances script timing
        (timing.follow ⟨timing.timer.shared.setTimerTicker timeout, timing.timer.goroutines.set index ⟨.looping, loops⟩ ++ []⟩)
  | moves {index : Nat} {loops : Bool} {phase phase' : Phase} {turn : Turn} {shared' : Shared} {spawned : List Goroutine}
      (here : timing.timer.goroutines[index]? = some ⟨phase, loops⟩)
      (moves : Moves script.stopOnError loops timing.timer.shared phase turn phase' shared' spawned)
      (running : phase ≠ .calling) (made : ∀ timeout, phase ≠ .starting timeout) :
      Advances script timing { timing with timer := ⟨shared', timing.timer.goroutines.set index ⟨phase', loops⟩ ++ spawned⟩ }
  | context (err : ContextError) :
      Advances script timing
        { timing with timer := { timing.timer with shared := { timing.timer.shared with ctx := timing.timer.shared.ctx <|> some err } } }

theorem setTimerTicker_tickers (shared : Shared) (timeout : Int) :
    (shared.setTimerTicker timeout).tickers = if 0 < timeout then shared.tickers + 1 else shared.tickers := by
  simp only [Shared.setTimerTicker]
  split <;> split <;> simp_all

theorem noteError_tickers (shared : Shared) (err : Option String) : (shared.noteError err).tickers = shared.tickers := by
  cases err <;> rfl

theorem Moves.tickers {stopOnError} (moves : Moves stopOnError loops shared phase turn phase' shared' spawned)
    (made : ∀ timeout, phase ≠ .starting timeout) : shared'.tickers = shared.tickers := by
  cases moves with
  | setTicker timeout => exact absurd rfl (made timeout)
  | _ => simp [setTimerTicker_tickers, noteError_tickers]

theorem Timing.follow_moves {stopOnError}
    (moves : Moves stopOnError loops timing.timer.shared phase turn phase' shared' spawned)
    (made : ∀ timeout, phase ≠ .starting timeout) (goroutines : List Goroutine) :
    timing.follow ⟨shared', goroutines⟩ = { timing with timer := ⟨shared', goroutines⟩ } := by
  simp [follow, moves.tickers made]

theorem Timing.step_turn (other : ∀ timeout err, turn ≠ .ended timeout err) :
    step script (.turn index turn) timing =
      if timing.panicked then none else (ExecTimer.step script.stopOnError (.turn index turn) timing.timer).map timing.follow := by
  cases turn with
  | ended timeout err => exact absurd rfl (other timeout err)
  | _ => rfl

theorem Moves.ends {stopOnError} (moves : Moves stopOnError loops shared phase turn phase' shared' spawned) :
    (∃ timeout err, turn = .ended timeout err) ↔ phase = .calling := by
  cases moves <;> simp

theorem Timing.step_advances {action} (taken : step script action timing = some after) :
    Advances script timing after := by
  have calm : timing.panicked = false := by
    by_contra panicked
    simp [step, Bool.not_eq_false _ ▸ panicked] at taken
  cases action with
  | turn index turn =>
    by_cases ended : ∃ timeout err, turn = .ended timeout err
    · obtain ⟨timeout, err, rfl⟩ := ended
      rw [step, if_neg (by simp [calm])] at taken
      simp only [ite_none_right_eq_some, map_eq_some_iff] at taken
      obtain ⟨result, ⟨shared', goroutines'⟩, stepped, rfl⟩ := taken
      obtain ⟨⟨phase, loops⟩, phase', spawned, here, moves, made⟩ := ExecTimer.step_turn.mp stepped
      simp only at made moves
      subst made
      generalize turned : Turn.ended timeout err = turn at moves
      cases moves <;> cases turned
      have returned : Advances script timing _ := .returns here
      rwa [result] at returned
    · rw [step_turn (by simpa using ended), if_neg (by simp [calm])] at taken
      obtain ⟨⟨shared', goroutines'⟩, stepped, rfl⟩ := map_eq_some_iff.mp taken
      obtain ⟨⟨phase, loops⟩, phase', spawned, here, moves, made⟩ := ExecTimer.step_turn.mp stepped
      simp only at made moves
      subst made
      by_cases starting : ∃ timeout, phase = .starting timeout
      · obtain ⟨timeout, rfl⟩ := starting
        cases moves
        exact .sets here
      · simp only [not_exists] at starting
        rw [follow_moves moves starting]
        exact .moves here moves (fun calling => ended (moves.ends.mpr calling)) starting
  | parentDone err =>
    simp only [step, calm, Bool.false_eq_true, if_false, map_eq_some_iff] at taken
    obtain ⟨timer, stepped, rfl⟩ := taken
    simp only [ExecTimer.step, Shared.advance, Option.bind_eq_bind, Option.bind_some, Option.some.injEq] at stepped
    subst stepped
    have done : Advances script timing _ := .context err
    simpa [follow] using done
  | _ => simp [step] at taken

/-! What holds as long as every duration can be counted. -/

/-- What the goroutines share, with the calls that have returned and the intervals. -/
structure Clock where
  shared : Shared
  calls : Nat
  intervals : List Int

def Timing.clock (timing : Timing) : Clock := ⟨timing.timer.shared, timing.calls, timing.intervals⟩

/-- The ticker is the one asked for last before a call. The caller of `Start(0)` has none. -/
structure Clock.Ticks (script : Script) (clock : Clock) (loops : Bool) (call : Nat) : Prop where
  tickTime : clock.shared.tickTime = script.requested call
  linked : loops = clock.shared.timeoutTimer.isSome
  ticker : ∀ ticker, clock.shared.timeoutTimer = some ticker →
    0 < clock.shared.tickTime ∧ clock.intervals[ticker]? = some (clock.shared.tickTime * 1000000)

/-- A ticker is to be made. -/
structure Clock.Asks (script : Script) (clock : Clock) (timeout : Int) : Prop where
  requested : timeout = script.requested clock.calls
  positive : 0 < timeout
  countable : Countable timeout

def Goroutine.Timed (script : Script) (clock : Clock) (goroutine : Goroutine) : Prop :=
  match goroutine.phase with
  | .starting timeout => clock.Asks script timeout ∧ goroutine.loops = true
  | .handing timeout => clock.Asks script timeout
  | .called timeout err => ∃ call, clock.calls = call + 1 ∧ script.results call = (timeout, err) ∧ clock.Ticks script goroutine.loops call
  | .leaving again => (again && goroutine.loops) = true → clock.Ticks script goroutine.loops clock.calls
  | .looping | .selecting _ | .awaitingStop => goroutine.loops = true ∧ clock.Ticks script goroutine.loops clock.calls
  | .ticked | .waited | .added | .calling => clock.Ticks script goroutine.loops clock.calls
  | .finished => True
  | .crashed => False

section Clock

variable {clock : Clock} {calls call : Nat} {intervals : List Int}

theorem Clock.Ticks.same (ticks : Clock.Ticks script ⟨shared, calls, intervals⟩ loops call)
    (timer : shared'.timeoutTimer = shared.timeoutTimer) (time : shared'.tickTime = shared.tickTime) {calls'} :
    Clock.Ticks script ⟨shared', calls', intervals⟩ loops call := by
  obtain ⟨tickTime, linked, ticker⟩ := ticks
  exact ⟨time.trans tickTime, by rw [timer]; exact linked, by rw [timer, time]; exact ticker⟩

theorem Clock.Ticks.resume (ticks : clock.Ticks script loops call) {timeout} {err}
    (result : script.results call = (timeout, err)) (same : timeout = 0 ∨ timeout = clock.shared.tickTime) :
    clock.Ticks script loops (call + 1) := by
  refine ⟨?_, ticks.linked, ticks.ticker⟩
  have time := ticks.tickTime
  rw [requested, result]
  split <;> simp_all

theorem Goroutine.Timed.same {goroutine : Goroutine} (timed : goroutine.Timed script ⟨shared, calls, intervals⟩)
    (timer : shared'.timeoutTimer = shared.timeoutTimer) (time : shared'.tickTime = shared.tickTime) :
    goroutine.Timed script ⟨shared', calls, intervals⟩ := by
  obtain ⟨phase, loops⟩ := goroutine
  cases phase with
  | starting timeout => exact ⟨⟨timed.1.requested, timed.1.positive, timed.1.countable⟩, timed.2⟩
  | handing timeout => exact ⟨timed.requested, timed.positive, timed.countable⟩
  | called timeout err =>
    obtain ⟨call, returned, result, ticks⟩ := timed
    exact ⟨call, returned, result, ticks.same timer time⟩
  | leaving again => exact fun round => (timed round).same timer time
  | looping | selecting ticker | awaitingStop => exact ⟨timed.1, timed.2.same timer time⟩
  | ticked | waited | added | calling => exact Clock.Ticks.same timed timer time
  | finished => trivial
  | crashed => exact timed.elim

theorem Moves.timed (moves : Moves script.stopOnError loops shared phase turn phase' shared' spawned)
    (running : phase ≠ .calling) (made : ∀ timeout, phase ≠ .starting timeout)
    (count : script.CountBefore calls)
    (timed : Timed script ⟨shared, calls, intervals⟩ ⟨phase, loops⟩) :
    ∀ goroutine ∈ ⟨phase', loops⟩ :: spawned, goroutine.Timed script ⟨shared', calls, intervals⟩ := by
  cases moves with
  | setTicker timeout => exact absurd rfl (made timeout)
  | ended timeout err => exact absurd rfl running
  | crash cleared =>
    have linked := timed.2.linked
    rw [timed.1, cleared] at linked
    cases linked
  | resume timeout err going same =>
    obtain ⟨call, returned, result, ticks⟩ := timed
    simp only at returned
    subst returned
    exact forall_mem_singleton.mpr fun _ => (ticks.resume result same).same (by simp) (by simp)
  | change timeout err going changed =>
    obtain ⟨call, returned, result, ticks⟩ := timed
    simp only at returned
    subst returned
    have countable := count.2 call (Nat.lt_succ_self call)
    rw [result] at countable
    have nonZero : timeout ≠ 0 := fun zero => changed (.inl zero)
    have low := (countable going).1
    exact forall_mem_singleton.mpr ⟨by simp [requested, result, nonZero], by omega, countable going⟩
  | spawn timeout =>
    have asks : Clock.Asks script ⟨shared, calls, intervals⟩ timeout := timed
    simp [Timed, asks]
  | evaluate | canceled | proceed => exact forall_mem_singleton.mpr timed
  | tick => exact forall_mem_singleton.mpr timed.2
  | skip ticking again => exact forall_mem_singleton.mpr ⟨again, timed⟩
  | add =>
    have ticks := timed
    exact forall_mem_singleton.mpr (ticks.same rfl rfl)
  | begin =>
    have ticks := timed
    exact forall_mem_singleton.mpr (ticks.same rfl rfl)
  | goOn again round =>
    have ticks : Timed script ⟨shared, calls, intervals⟩ ⟨.looping, loops⟩ :=
      ⟨(Bool.and_eq_true_iff.mp round).2, timed round⟩
    exact forall_mem_singleton.mpr (ticks.same rfl rfl)
  | _ => simp [Timed]

theorem Goroutine.Timed.idle {goroutine : Goroutine} (idle : goroutine.live = false) (timed : goroutine.Timed script clock)
    (other : Clock) : goroutine.Timed script other := by
  obtain ⟨phase, loops⟩ := goroutine
  cases phase with
  | leaving again =>
    intro round
    simp [live, round] at idle
  | finished => trivial
  | crashed => exact timed.elim
  | _ => simp [live] at idle

end Clock

/-- At most one goroutine goes on, and it has the ticker it asked for; each ticker has its interval,
and nothing has panicked. -/
structure Timely (script : Script) (timing : Timing) : Prop where
  lone : Lone live (Timed script) timing.clock timing.timer.goroutines
  counted : timing.intervals.length = timing.timer.shared.tickers
  calm : timing.panicked = false

theorem Timely.handled (timely : Timely script timing) : timing.Handled script := by
  refine ⟨timely.calm, fun goroutine member looping => ?_⟩
  have timed := timely.lone.fits goroutine member
  simp only [Timed, looping] at timed
  obtain ⟨loops, ticks⟩ := timed
  obtain ⟨ticker, running⟩ := isSome_iff_exists.mp (ticks.linked.symm.trans loops)
  obtain ⟨positive, made⟩ := ticks.ticker ticker running
  exact ⟨ticker, _, running, made, by omega, by rw [ticks.tickTime]; rfl⟩

theorem Timely.ordinary (timely : Timely script timing)
    (here : timing.timer.goroutines[index]? = some ⟨phase, loops⟩) (acting : live ⟨phase, loops⟩ = true)
    {calls intervals} (one : List.countP live (⟨phase', loops⟩ :: spawned) ≤ 1)
    (timed : ∀ goroutine ∈ ⟨phase', loops⟩ :: spawned, goroutine.Timed script ⟨shared', calls, intervals⟩) :
    Lone live (Timed script) ⟨shared', calls, intervals⟩
      (timing.timer.goroutines.set index ⟨phase', loops⟩ ++ spawned) :=
  timely.lone.turn here acting ⟨one, timed⟩ fun _ idle fits => fits.idle idle _

theorem Timely.moves (timely : Timely script timing) (count : script.CountBefore timing.calls)
    (here : timing.timer.goroutines[index]? = some ⟨phase, loops⟩)
    (moves : Moves script.stopOnError loops timing.timer.shared phase turn phase' shared' spawned)
    (running : phase ≠ .calling) (made : ∀ timeout, phase ≠ .starting timeout) :
    Timely script { timing with timer := ⟨shared', timing.timer.goroutines.set index ⟨phase', loops⟩ ++ spawned⟩ } := by
  refine ⟨?_, timely.counted.trans (moves.tickers made).symm, timely.calm⟩
  have timed := timely.lone.fits _ (mem_of_getElem? here)
  cases acting : live ⟨phase, loops⟩ with
  | true =>
    have one := moves.live_le
    rw [acting] at one
    exact timely.ordinary here acting one (moves.timed running made count timed)
  | false =>
    obtain ⟨rfl, rfl, rfl⟩ := moves.idle acting
    rw [append_nil]
    exact timely.lone.idle here rfl trivial fun _ timed => timed.same rfl rfl

theorem Timing.follow_countable {timeout} (positive : 0 < timeout) (countable : Countable timeout)
    (goroutines : List Goroutine) : timing.follow ⟨timing.timer.shared.setTimerTicker timeout, goroutines⟩ =
      { timing with
        timer := ⟨timing.timer.shared.setTimerTicker timeout, goroutines⟩
        intervals := timing.intervals ++ [timeout * 1000000] } := by
  have time := (setTimerTicker_timeoutTimer timing.timer.shared positive).2
  simp [follow, setTimerTicker_tickers, positive, time, nanoseconds_countable countable]

theorem Timing.follow_calls (timing : Timing) (timer : State) : (timing.follow timer).calls = timing.calls := by
  rw [follow]
  split
  · split <;> rfl
  · rfl

theorem Timely.sets {timeout} (timely : Timely script timing)
    (here : timing.timer.goroutines[index]? = some ⟨.starting timeout, loops⟩) : Timely script
      (timing.follow ⟨timing.timer.shared.setTimerTicker timeout, timing.timer.goroutines.set index ⟨.looping, loops⟩ ++ []⟩) := by
  obtain ⟨asks, looped⟩ : timing.clock.Asks script timeout ∧ loops = true := timely.lone.fits _ (mem_of_getElem? here)
  obtain ⟨running, time⟩ := setTimerTicker_timeoutTimer timing.timer.shared asks.positive
  rw [follow_countable asks.positive asks.countable]
  refine ⟨timely.ordinary here rfl (by simp [live]) (forall_mem_singleton.mpr ⟨looped, ?_⟩),
    by simp [setTimerTicker_tickers, asks.positive, timely.counted], timely.calm⟩
  refine ⟨time.trans asks.requested, by simp [looped, running], fun ticker same => ?_⟩
  obtain rfl : timing.timer.shared.tickers = ticker := some.inj (running.symm.trans same)
  simp only [time]
  exact ⟨asks.positive, by rw [← timely.counted]; simp⟩

theorem Timely.advances (timely : Timely script timing) (count : script.CountBefore timing.calls)
    (advances : Advances script timing after) : Timely script after := by
  cases advances with
  | returns here =>
    refine ⟨timely.ordinary here rfl (by simp [live]) ?_, timely.counted, timely.calm⟩
    have ticks : timing.clock.Ticks script _ timing.calls := timely.lone.fits _ (mem_of_getElem? here)
    exact forall_mem_singleton.mpr ⟨timing.calls, rfl, rfl, ticks.same rfl rfl⟩
  | sets here => exact timely.sets here
  | moves here moves running made => exact timely.moves count here moves running made
  | context err => exact ⟨timely.lone.mono fun _ _ timed => timed.same rfl rfl, timely.counted, timely.calm⟩

theorem timely_started (countable : Countable script.start) : Timely script script.started := by
  by_cases zero : script.start = 0
  · refine ⟨⟨by simp [Script.started, started, zero, Goroutine.live], ?_⟩, rfl, rfl⟩
    have ticks : script.started.clock.Ticks script false 0 :=
      ⟨zero.symm, rfl, by simp [Script.started, started, Timing.clock]⟩
    simpa [Script.started, started, zero, Goroutine.Timed, Timing.clock] using ticks
  · refine ⟨⟨by simp [Script.started, started, zero, Goroutine.live], ?_⟩, rfl, rfl⟩
    have asks : script.started.clock.Asks script script.start :=
      ⟨rfl, by have := countable.1; omega, countable⟩
    simpa [Script.started, started, zero, Goroutine.Timed, Timing.clock] using asks

theorem Timing.Advances.calls_le (advances : Advances script timing after) : timing.calls ≤ after.calls := by
  cases advances with
  | returns here => exact Nat.le_succ _
  | sets here => rw [follow_calls]
  | _ => exact Nat.le_refl _

/-- In every interleaving of a timer that nobody stops, whoever comes to the `select` finds a
ticker with just the interval asked for last, if the interval of `Start` and every duration that
has come back so far and was looked at can be counted. -/
theorem handled_while_countable (script : Script) (timing : Timing)
    (reached : Reachable (Timing.step script) script.started timing) (count : script.CountBefore timing.calls) :
    timing.Handled script := by
  suffices timely : Timely script timing from timely.handled
  induction reached with
  | start => exact timely_started count.1
  | next action reached taken ih =>
    have before : script.CountBefore _ := ⟨count.1, fun call less => count.2 call (less.trans_le (step_advances taken).calls_le)⟩
    exact (ih before).advances before (step_advances taken)

def slowing : Script := ⟨false, 1000, fun _ => (2000, none)⟩

/-- After a second the callback asks for two, and the goroutine that it has started makes a ticker of two. -/
theorem slowing_handled :
    let actions : List Action := [.turn 0 .setTicker, .turn 0 .evaluate, .turn 0 .tick, .turn 0 .proceed, .turn 0 .add,
      .turn 0 .begin, .turn 0 (.ended 2000 none), .turn 0 .check, .turn 0 .spawn, .turn 1 .setTicker]
    ∃ timing, run (Timing.step slowing) actions slowing.started = some timing ∧
      timing.calls = 1 ∧ timing.intervals = [1000000000, 2000000000] ∧ timing.Handled slowing := by
  intro actions
  have ran : run (Timing.step slowing) actions slowing.started = some _ := rfl
  refine ⟨_, ran, rfl, rfl, handled_while_countable slowing _ (Reachable.run .start ran) ?_⟩
  exact ⟨⟨by decide, by decide⟩, fun _ _ _ => ⟨show (0 : Int) ≤ 2000 by decide, show (2000 : Int) ≤ 9223372036854 by decide⟩⟩

def expiredKey : Script where
  stopOnError := false
  start := 0
  results _ :=
    (({ Mycsnode.newSession with keyTimeoutAt := 1700000000000, isAuthenticated := true } : Mycsnode.Session).renewalIn 1700000000000,
      none)

/-- A callback that returns -50 leaves its successor without a ticker at the `select`. A timer of
9223372036855 milliseconds panics when the ticker is made, and one of 18446744073710 ticks every
448384 nanoseconds. -/
theorem intervals_unhandled :
    (run (Timing.step expiredKey) [.turn 0 .proceed, .turn 0 .add, .turn 0 .begin, .turn 0 (.ended (-50) none), .turn 0 .check,
        .turn 0 .spawn, .turn 1 .setTicker] expiredKey.started).map
        (fun timing => (timing.timer.goroutines.map Goroutine.phase, timing.timer.shared.timeoutTimer)) =
      some ([.leaving false, .looping], none) ∧
    (run (Timing.step ⟨false, 9223372036855, fun _ => (0, none)⟩) [.turn 0 .setTicker]
        (Script.started ⟨false, 9223372036855, fun _ => (0, none)⟩)).map Timing.panicked = some true ∧
    (run (Timing.step ⟨false, 18446744073710, fun _ => (0, none)⟩) [.turn 0 .setTicker]
        (Script.started ⟨false, 18446744073710, fun _ => (0, none)⟩)).map Timing.intervals = some [448384] := by
  exact ⟨rfl, rfl, rfl⟩

end MycsCommon.Utils.ExecTimer
