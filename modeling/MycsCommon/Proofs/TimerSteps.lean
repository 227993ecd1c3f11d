import MycsCommon.Utils.ExecTimer

/-! What a goroutine of a timer can do in each of its phases, and what `Stop` can do. At most
one goroutine is more than on its way out. It has its ticker as long as `Stop` has not cleared
it, and if it was settled at that moment it never looks for the ticker again. -/

namespace MycsCommon.Utils.ExecTimer
open Library.Machine Goroutine Option Shared

variable {stopOnError loops : Bool} {shared after : Shared} {goroutine next : Goroutine} {phase phase' : Phase}
  {spawned : List Goroutine} {turn : Turn} {state : State}

/-- Everything a goroutine can do, by the phases it comes from and goes to. -/
inductive Moves (stopOnError loops : Bool) (shared : Shared) : Phase → Turn → Phase → Shared → List Goroutine → Prop where
  | setTicker (timeout : Int) :
      Moves stopOnError loops shared (.starting timeout) .setTicker .looping (shared.setTimerTicker timeout) []
  | evaluate (ticker : Nat) (running : shared.timeoutTimer = some ticker) :
      Moves stopOnError loops shared .looping .evaluate (.selecting ticker) shared []
  | crash (cleared : shared.timeoutTimer = none) :
      Moves stopOnError loops shared .looping .evaluate .crashed shared []
  | canceled (ticker : Nat) (done : shared.ctx = some .canceled) :
      Moves stopOnError loops shared (.selecting ticker) .contextDone .awaitingStop shared []
  | expired (ticker : Nat) (done : shared.ctx = some .deadlineExceeded) :
      Moves stopOnError loops shared (.selecting ticker) .contextDone .finished
        { shared with callbackError := some (.context .deadlineExceeded) } []
  | receive (ticker : Nat) (sent : shared.stop = .sending) :
      Moves stopOnError loops shared (.selecting ticker) .receiveStop .finished { shared with stop := .returning } []
  | receiveAwaited (sent : shared.stop = .sending) :
      Moves stopOnError loops shared .awaitingStop .receiveStop .finished { shared with stop := .returning } []
  | tick (ticker : Nat) (running : shared.timeoutTimer = some ticker) :
      Moves stopOnError loops shared (.selecting ticker) .tick .ticked shared []
  | proceed (free : shared.tickTime ≤ 0 ∨ shared.inflight = 0) :
      Moves stopOnError loops shared .ticked .proceed .waited shared []
  | skip (ticking : shared.tickTime > 0) (again : loops = true) :
      Moves stopOnError loops shared .ticked .skip .looping shared []
  | skipOnce (ticking : shared.tickTime > 0) (once : ¬loops = true) :
      Moves stopOnError loops shared .ticked .skip .finished shared []
  | add : Moves stopOnError loops shared .waited .add .added { shared with inflight := shared.inflight + 1 } []
  | begin :
      Moves stopOnError loops shared .added .begin .calling
        { shared with beganLate := shared.beganLate || decide (shared.stop = .returned) } []
  | ended (timeout : Int) (err : Option String) :
      Moves stopOnError loops shared .calling (.ended timeout err) (.called timeout err) shared []
  | fail (timeout : Int) (err : Option String) (failed : err.isSome ∧ stopOnError) :
      Moves stopOnError loops shared (.called timeout err) .check (.leaving false)
        ((shared.noteError err).setTimerTicker 0) []
  | resume (timeout : Int) (err : Option String) (going : ¬(err.isSome ∧ stopOnError))
      (same : timeout = 0 ∨ timeout = shared.tickTime) :
      Moves stopOnError loops shared (.called timeout err) .check (.leaving true) (shared.noteError err) []
  | change (timeout : Int) (err : Option String) (going : ¬(err.isSome ∧ stopOnError))
      (changed : ¬(timeout = 0 ∨ timeout = shared.tickTime)) :
      Moves stopOnError loops shared (.called timeout err) .check (.handing timeout) (shared.noteError err) []
  | spawn (timeout : Int) :
      Moves stopOnError loops shared (.handing timeout) .spawn (.leaving false) shared [{ phase := .starting timeout }]
  | goOn (again : Bool) (round : (again && loops) = true) :
      Moves stopOnError loops shared (.leaving again) .done .looping { shared with inflight := shared.inflight - 1 } []
  | finish (again : Bool) (out : ¬(again && loops) = true) :
      Moves stopOnError loops shared (.leaving again) .done .finished { shared with inflight := shared.inflight - 1 } []

theorem advance_iff :
    goroutine.advance stopOnError turn shared = some (next, after, spawned) ↔
      next.loops = goroutine.loops ∧ Moves stopOnError goroutine.loops shared goroutine.phase turn next.phase after spawned := by
  obtain ⟨phase, loops⟩ := goroutine
  obtain ⟨-⟩ := next
  constructor
  · intro taken
    simp only [Goroutine.advance, Goroutine.into] at taken
    split at taken
    all_goals try split at taken
    all_goals try split at taken
    all_goals simp only [reduceCtorEq, Option.some.injEq, Prod.mk.injEq, Goroutine.mk.injEq] at taken
    all_goals obtain ⟨⟨rfl, rfl⟩, rfl, rfl⟩ := taken
    all_goals refine ⟨rfl, ?_⟩
    -- the context may be done for another reason than that it was canceled
    all_goals first | (constructor <;> assumption) | (rename_i err other done; cases err)
    · exact absurd rfl other
    · exact .expired _ done
  · rintro ⟨same, moves⟩
    simp only at same moves
    subst same
    cases moves <;> simp_all [Goroutine.advance, Goroutine.into]

section Shared

variable (shared : Shared) (err : Option String)

@[simp] theorem noteError_inflight : (shared.noteError err).inflight = shared.inflight := by cases err <;> rfl

@[simp] theorem noteError_timeoutTimer : (shared.noteError err).timeoutTimer = shared.timeoutTimer := by cases err <;> rfl

@[simp] theorem noteError_tickTime : (shared.noteError err).tickTime = shared.tickTime := by cases err <;> rfl

@[simp] theorem noteError_stop : (shared.noteError err).stop = shared.stop := by cases err <;> rfl

@[simp] theorem noteError_beganLate : (shared.noteError err).beganLate = shared.beganLate := by cases err <;> rfl

@[simp] theorem setTimerTicker_inflight (timeout : Int) : (shared.setTimerTicker timeout).inflight = shared.inflight := by
  simp only [setTimerTicker]
  split <;> split <;> rfl

@[simp] theorem setTimerTicker_stop (timeout : Int) : (shared.setTimerTicker timeout).stop = shared.stop := by
  simp only [setTimerTicker]
  split <;> split <;> rfl

@[simp] theorem setTimerTicker_beganLate (timeout : Int) :
    (shared.setTimerTicker timeout).beganLate = shared.beganLate := by
  simp only [setTimerTicker]
  split <;> split <;> rfl

theorem setTimerTicker_timeoutTimer {timeout} (positive : 0 < timeout) :
    (shared.setTimerTicker timeout).timeoutTimer = some shared.tickers ∧
      (shared.setTimerTicker timeout).tickTime = timeout := by
  simp only [setTimerTicker, gt_iff_lt, positive, if_true]
  split <;> simp

theorem setTimerTicker_ticking (timeout : Int) (running : (shared.setTimerTicker timeout).timeoutTimer.isSome) :
    0 < (shared.setTimerTicker timeout).tickTime := by
  by_cases positive : 0 < timeout
  · rwa [(setTimerTicker_timeoutTimer shared positive).2]
  · simp only [setTimerTicker, gt_iff_lt, positive, if_false] at running ⊢
    cases timer : shared.timeoutTimer <;> simp [timer] at running

end Shared

namespace Goroutine

/-- A goroutine that may still act on the timer. -/
def live (goroutine : Goroutine) : Bool :=
  match goroutine.phase with
  | .leaving again => again && goroutine.loops
  | .finished | .crashed => false
  | _ => true

/-- A goroutine with the ticker that was made for its loop. The caller of `Start(0)` has none. -/
def Attached (shared : Shared) (goroutine : Goroutine) : Prop :=
  match goroutine.phase with
  | .starting timeout => 0 < timeout ∧ goroutine.loops
  | .handing timeout => 0 < timeout
  | .selecting ticker => shared.timeoutTimer = some ticker ∧ goroutine.loops
  | .looping | .awaitingStop => shared.timeoutTimer.isSome ∧ goroutine.loops
  | .called timeout _ => 0 ≤ timeout ∧ goroutine.loops = shared.timeoutTimer.isSome
  | .ticked | .waited | .added | .calling | .leaving _ => goroutine.loops = shared.timeoutTimer.isSome
  | .finished | .crashed => False

/-- The callback has returned what ends the goroutine. -/
def Ending (stopOnError : Bool) (shared : Shared) (goroutine : Goroutine) : Prop :=
  match goroutine.phase with
  | .called timeout err =>
    (err.isSome ∧ stopOnError) ∨ goroutine.loops = false ∧ (timeout = 0 ∨ timeout = shared.tickTime)
  | _ => False

/-- A goroutine that will not evaluate the ticker that was taken from it. -/
def Parting (stopOnError : Bool) (shared : Shared) (goroutine : Goroutine) : Prop :=
  shared.timeoutTimer = none ∧
    match goroutine.phase with
    | .selecting _ | .awaitingStop => True
    | .called timeout _ => 0 < timeout ∧ timeout ≠ shared.tickTime ∨ goroutine.Ending stopOnError shared
    | _ => False

/-- What a live goroutine is like, by where `Stop` is. -/
def Suits (stopOnError : Bool) (shared : Shared) (goroutine : Goroutine) : Prop :=
  match shared.stop with
  | .idle | .cancelled | .waited => goroutine.Attached shared
  | .sending => goroutine.Attached shared ∨ goroutine.Parting stopOnError shared
  | .returning | .returned => goroutine.Ending stopOnError shared

def Fits (stopOnError : Bool) (shared : Shared) (goroutine : Goroutine) : Prop :=
  if goroutine.live then goroutine.Suits stopOnError shared else goroutine.phase ≠ .crashed

theorem fits_idle (idle : goroutine.live = false) :
    goroutine.Fits stopOnError shared ↔ goroutine.phase ≠ .crashed := by
  simp [Fits, idle]

end Goroutine

/-- No duration below zero is returned by a callback. -/
def Turn.nonNegative : Turn → Bool
  | .ended timeout _ => 0 ≤ timeout
  | _ => true

section

variable (moves : Moves stopOnError loops shared phase turn phase' after spawned)
include moves

theorem Moves.attached
    (nonNegative : turn.nonNegative) (attached : Attached shared ⟨phase, loops⟩)
    (here : live ⟨phase', loops⟩) : Attached after ⟨phase', loops⟩ := by
  cases moves with
  | setTicker timeout =>
    have made := setTimerTicker_timeoutTimer shared attached.1
    simpa [Attached, made.1] using attached.2
  | ended timeout err => exact ⟨by simpa [Turn.nonNegative] using nonNegative, attached⟩
  | change timeout err going changed =>
    simp only [Attached, not_or] at attached changed ⊢
    omega
  | _ => simp_all [Attached, live]

theorem Moves.parting
    (parting : Parting stopOnError shared ⟨phase, loops⟩) (here : live ⟨phase', loops⟩) :
    Attached after ⟨phase', loops⟩ ∨ Parting stopOnError after ⟨phase', loops⟩ := by
  obtain ⟨cleared, parting⟩ := parting
  cases moves with
  | canceled ticker done => exact .inr ⟨cleared, trivial⟩
  | tick ticker running => simp [cleared] at running
  | resume timeout err going same =>
    simp only [live, Ending, Bool.and_eq_true] at here parting
    simp only [here.2, Bool.true_eq_false, false_and, or_false, going] at parting
    omega
  | change timeout err going changed =>
    simp only [Ending, going, changed, and_false, or_false] at parting
    exact .inl parting.1
  | _ => first | exact parting.elim | simp [live] at here

theorem Moves.ending
    (ending : Ending stopOnError shared ⟨phase, loops⟩) :
    live ⟨phase', loops⟩ = false ∧ phase' ≠ .crashed ∧ spawned = [] := by
  cases moves with
  | fail timeout err failed => exact ⟨rfl, by simp, rfl⟩
  | resume timeout err going same =>
    simp only [Ending, going, false_or] at ending
    exact ⟨by simp [live, ending.1], by simp, rfl⟩
  | change timeout err going changed => simp [Ending, going, changed] at ending
  | _ => exact ending.elim

theorem Moves.stop :
    after.stop = shared.stop ∨ after.stop = .returning ∧ phase' = .finished := by
  cases moves with
  | receive | receiveAwaited => exact .inr ⟨rfl, rfl⟩
  | _ => exact .inl (by simp)

theorem Moves.stop_kept
    (unsent : shared.stop ≠ .sending) : after.stop = shared.stop := by
  cases moves <;> simp_all

end

theorem Moves.calling (moves : Moves stopOnError loops shared .calling turn phase' after spawned) :
    ∃ timeout err, turn = .ended timeout err := by
  cases moves with
  | ended timeout err => exact ⟨timeout, err, rfl⟩

theorem Moves.begins (moves : Moves stopOnError loops shared phase .begin phase' after spawned) :
    phase = .added ∧ phase' = .calling := by
  cases moves with
  | begin => exact ⟨rfl, rfl⟩

section

variable (moves : Moves stopOnError loops shared phase turn phase' after spawned)
include moves

section

variable (suits : Suits stopOnError shared ⟨phase, loops⟩)
include suits

theorem Moves.uncrashed : phase' ≠ .crashed := by
  rintro rfl
  cases moves with
  | crash cleared =>
    unfold Suits at suits
    split at suits <;> simp [Attached, Parting, Ending, cleared] at suits

theorem Moves.onTime : after.beganLate = shared.beganLate := by
  cases moves with
  | begin =>
    have early : shared.stop ≠ .returned := by
      intro late
      simp [Suits, late, Ending] at suits
    simp [early]
  | _ => simp

theorem Moves.spawned_fits :
    spawned = [] ∨ live ⟨phase', loops⟩ = false ∧
      ∃ successor, spawned = [successor] ∧ successor.Fits stopOnError after := by
  cases moves with
  | spawn timeout =>
    refine .inr ⟨rfl, _, rfl, ?_⟩
    simp only [Fits, live, if_true]
    unfold Suits at suits ⊢
    split at suits <;> simp_all [Attached, Parting, Ending]
  | _ => exact .inl rfl

end

theorem Moves.suits
    (nonNegative : turn.nonNegative) (suits : Suits stopOnError shared ⟨phase, loops⟩)
    (here : live ⟨phase', loops⟩) : Suits stopOnError after ⟨phase', loops⟩ := by
  have same : after.stop = shared.stop := by
    obtain same | ⟨-, rfl⟩ := moves.stop
    · exact same
    · simp [live] at here
  unfold Suits at suits ⊢
  rw [same]
  cases stage : shared.stop with
  | sending =>
    simp only [stage] at suits
    obtain attached | parting := suits
    · exact .inl (moves.attached nonNegative attached here)
    · exact moves.parting parting here
  | returning | returned =>
    simp only [stage] at suits
    exact absurd here (by simp [(moves.ending suits).1])
  | idle | cancelled | waited =>
    simp only [stage] at suits
    exact moves.attached nonNegative suits here

theorem Moves.lone
    (nonNegative : turn.nonNegative) (suits : Suits stopOnError shared ⟨phase, loops⟩) :
    Lone live (Fits stopOnError) after (⟨phase', loops⟩ :: spawned) := by
  have first : Fits stopOnError after ⟨phase', loops⟩ := by
    unfold Fits
    split
    next here => exact moves.suits nonNegative suits here
    next => exact moves.uncrashed suits
  obtain rfl | ⟨idle, successor, rfl, fits⟩ := moves.spawned_fits suits
  · refine ⟨?_, by simpa using first⟩
    rw [countP_first]
    simp [Bool.toNat_le]
  · refine ⟨?_, by simpa using ⟨first, fits⟩⟩
    rw [countP_first, countP_first, idle]
    simp [Bool.toNat_le]

theorem Moves.idle
    (idle : live ⟨phase, loops⟩ = false) :
    phase' = .finished ∧ after = { shared with inflight := shared.inflight - 1 } ∧ spawned = [] := by
  cases moves with
  | finish again out => exact ⟨rfl, rfl, rfl⟩
  | goOn again round => simp [live, round] at idle
  | _ => simp [live] at idle

end

theorem step_turn {index after} : step stopOnError (.turn index turn) state = some after ↔
      ∃ goroutine phase' spawned, state.goroutines[index]? = some goroutine ∧
        Moves stopOnError goroutine.loops state.shared goroutine.phase turn phase' after.shared spawned ∧
        after.goroutines = state.goroutines.set index (goroutine.into phase') ++ spawned := by
  constructor
  · intro taken
    obtain ⟨goroutine, here, rest⟩ := bind_eq_some_iff.mp taken
    obtain ⟨⟨next, shared, spawned⟩, advanced, made⟩ := bind_eq_some_iff.mp rest
    obtain rfl := some.inj made
    obtain ⟨same, moves⟩ := advance_iff.mp advanced
    refine ⟨goroutine, next.phase, spawned, here, moves, ?_⟩
    rw [into, ← same]
  · rintro ⟨goroutine, phase', spawned, here, moves, made⟩
    have advanced : goroutine.advance stopOnError turn state.shared =
        some (goroutine.into phase', after.shared, spawned) := advance_iff.mpr ⟨rfl, moves⟩
    simp [step, here, advanced, ← made]

/-- No goroutine has evaluated a ticker that is not there, and no callback began late. -/
structure Safe (state : State) : Prop where
  uncrashed : ∀ goroutine ∈ state.goroutines, goroutine.phase ≠ .crashed
  onTime : state.shared.beganLate = false

/-- The invariant of a timer whose ticker is cleared at the right moment. -/
structure Sound (stopOnError : Bool) (state : State) : Prop where
  lone : Lone live (Fits stopOnError) state.shared state.goroutines
  onTime : state.shared.beganLate = false

theorem Sound.safe (sound : Sound stopOnError state) : Safe state := by
  refine ⟨fun goroutine member crashed => ?_, sound.onTime⟩
  have fits := sound.lone.fits goroutine member
  rw [fits_idle (by simp [live, crashed])] at fits
  exact fits crashed

theorem Sound.taken {index after} (sound : Sound stopOnError state) (nonNegative : turn.nonNegative)
    (taken : step stopOnError (.turn index turn) state = some after) : Sound stopOnError after := by
  obtain ⟨⟨phase, loops⟩, phase', spawned, here, moves, made⟩ := step_turn.mp taken
  obtain ⟨shared', goroutines'⟩ := after
  obtain rfl : goroutines' = _ := made
  have fits := sound.lone.fits _ (List.mem_of_getElem? here)
  cases acting : live ⟨phase, loops⟩ with
  | true =>
    simp only [Fits, acting, if_true] at fits
    refine ⟨sound.lone.turn here acting (moves.lone nonNegative fits) fun thread idle => ?_, ?_⟩
    · rw [fits_idle idle, fits_idle idle]
      exact id
    · exact (moves.onTime fits).trans sound.onTime
  | false =>
    obtain ⟨rfl, made, rfl⟩ := moves.idle acting
    simp only at made
    subst made
    rw [List.append_nil]
    exact ⟨sound.lone.idle here rfl (by simp [Fits, live, into]) fun thread => id, sound.onTime⟩

/-- The goroutine is at a point at which its ticker may be cleared for good: it waits for
`Stop`, it is on its way out, or it is about to make a ticker of its own while `Stop` waits. -/
def Goroutine.settled (stopOnError : Bool) (shared : Shared) (goroutine : Goroutine) : Bool :=
  match goroutine.phase with
  | .finished => true
  | .leaving again => !(again && goroutine.loops)
  | .starting _ | .handing _ | .selecting _ | .awaitingStop => shared.timeoutTimer.isSome
  | .called timeout err =>
    (err.isSome && stopOnError) ||
      (if timeout = 0 ∨ timeout = shared.tickTime then !goroutine.loops else shared.timeoutTimer.isSome)
  | .looping | .ticked | .waited | .added | .calling | .crashed => false

def State.settled (stopOnError : Bool) (state : State) : Bool :=
  state.goroutines.all fun goroutine => goroutine.settled stopOnError state.shared

/-- Everything `Stop` and the context can do. -/
inductive Controls (shared : Shared) : Action → Shared → Prop where
  | cancel (idle : shared.stop = .idle) :
      Controls shared .cancel { shared with stop := .cancelled, ctx := shared.ctx <|> some .canceled }
  | wait (cancelled : shared.stop = .cancelled) (free : shared.inflight = 0) :
      Controls shared .wait { shared with stop := .waited }
  | clear (waited : shared.stop = .waited) (ticker : Nat) (running : shared.timeoutTimer = some ticker) :
      Controls shared .clear { shared with stop := .sending, timeoutTimer := none }
  | clearNone (waited : shared.stop = .waited) (none : shared.timeoutTimer = none) :
      Controls shared .clear { shared with stop := .returning }
  | leave (returning : shared.stop = .returning) : Controls shared .leave { shared with stop := .returned }
  | parentDone (err : ContextError) : Controls shared (.parentDone err) { shared with ctx := shared.ctx <|> some err }

theorem controls_iff {action} : shared.advance action = some after ↔ Controls shared action after := by
  constructor
  · intro taken
    unfold Shared.advance at taken
    split at taken
    all_goals try split at taken
    all_goals simp only [reduceCtorEq, some.injEq] at taken
    all_goals subst taken
    all_goals constructor <;> assumption
  · intro controls
    cases controls <;> simp_all [Shared.advance]

theorem Goroutine.Fits.clear (fits : goroutine.Fits stopOnError shared) (settled : goroutine.settled stopOnError shared)
    (controls : Controls shared .clear after) : goroutine.Fits stopOnError after := by
  unfold Fits at fits ⊢
  split at fits
  next here =>
    rw [if_pos here]
    obtain ⟨phase, loops⟩ := goroutine
    cases controls with
    | clear waited ticker running =>
      simp only [Goroutine.Suits, waited] at fits ⊢
      cases phase <;> simp_all [Goroutine.Attached, Goroutine.Parting, Goroutine.Ending, Goroutine.settled, Goroutine.live]
      obtain failed | changed := settled
      · exact .inr failed
      · exact .inl ⟨by omega, changed.2⟩
    | clearNone waited none =>
      simp only [Goroutine.Suits, waited] at fits ⊢
      cases phase <;> simp_all [Goroutine.Attached, Goroutine.Ending, Goroutine.settled, Goroutine.live]
  next idle => rwa [if_neg idle]

theorem Goroutine.Fits.control {action} (fits : goroutine.Fits stopOnError shared) (other : action ≠ .clear)
    (controls : Controls shared action after) : goroutine.Fits stopOnError after := by
  unfold Fits at fits ⊢
  split at fits
  next here =>
    rw [if_pos here]
    cases controls with
    | clear | clearNone => exact absurd rfl other
    | parentDone err => exact fits
    | cancel idle =>
      simp only [Suits, idle] at fits ⊢
      exact fits
    | wait cancelled free =>
      simp only [Suits, cancelled] at fits ⊢
      exact fits
    | leave returning =>
      simp only [Suits, returning] at fits ⊢
      exact fits
  next idle => rwa [if_neg idle]

theorem Controls.beganLate {action} (controls : Controls shared action after) : after.beganLate = shared.beganLate := by
  cases controls <;> rfl

theorem Controls.waited (controls : Controls shared .clear after) : shared.stop = .waited := by
  cases controls <;> assumption

theorem Controls.inflight {action} (controls : Controls shared action after) : after.inflight = shared.inflight := by
  cases controls <;> rfl

theorem step_control {action after} (other : ∀ index turn, action ≠ .turn index turn) :
    step stopOnError action state = some after ↔
      Controls state.shared action after.shared ∧ state.goroutines = after.goroutines := by
  rw [← controls_iff]
  obtain ⟨-⟩ := after
  cases action with
  | turn index turn => exact absurd rfl (other index turn)
  | _ => simp [step, bind_eq_some_iff]

/-- A run in which callbacks return no duration below zero, and `Stop` clears the ticker only
where it is permitted. -/
def permitted (guard : State → Bool) (stopOnError : Bool) (action : Action) (state : State) : Option State :=
  match action with
  | .turn index turn => if turn.nonNegative then step stopOnError (.turn index turn) state else none
  | .clear => if guard state then step stopOnError .clear state else none
  | action => step stopOnError action state

variable {guard : State → Bool}

theorem permitted_step {action after} (taken : permitted guard stopOnError action state = some after) :
    step stopOnError action state = some after := by
  cases action <;> simp_all [permitted]

theorem permitted_moved {index} (here : state.goroutines[index]? = some ⟨phase, loops⟩)
    (moves : Moves stopOnError loops state.shared phase turn phase' after spawned) (nonNegative : turn.nonNegative) :
    permitted guard stopOnError (.turn index turn) state =
      some ⟨after, state.goroutines.set index ⟨phase', loops⟩ ++ spawned⟩ := by
  rw [permitted, if_pos nonNegative]
  exact step_turn.mpr ⟨_, _, _, here, moves, rfl⟩

theorem Sound.permitted {action after} (sound : Sound stopOnError state)
    (settled : action = .clear → state.settled stopOnError)
    (taken : permitted guard stopOnError action state = some after) : Sound stopOnError after := by
  have stepped := permitted_step taken
  by_cases turned : ∃ index turn, action = .turn index turn
  · obtain ⟨index, turn, rfl⟩ := turned
    exact sound.taken (by by_contra; simp_all [ExecTimer.permitted]) stepped
  · obtain ⟨controls, same⟩ := (step_control (by simpa using turned)).mp stepped
    refine ⟨?_, controls.beganLate.trans sound.onTime⟩
    rw [← same]
    refine sound.lone.mono fun goroutine member fits => ?_
    by_cases clearing : action = .clear
    · subst clearing
      exact fits.clear (List.all_eq_true.mp (settled rfl) goroutine member) controls
    · exact fits.control clearing controls

end MycsCommon.Utils.ExecTimer
