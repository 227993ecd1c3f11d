import MycsCommon.Library.Machine
import MycsCommon.Utils.Sync

/-! A `LockTimeout` call that gives up leaves its helper behind, which takes the mutex later
and never unlocks it. -/

namespace MycsCommon.Utils.Sync
open List Library.Machine Sync.Call Option

/-- The mutex is locked by the helper of a call that has returned false. -/
def Abandoned (state : State) : Prop :=
  state.mutex = true ∧ ∃ call ∈ state.calls, call.outcome = .timedOut ∧ call.helper ≠ .waiting

instance (state : State) : Decidable (Abandoned state) := by
  unfold Abandoned
  infer_instance

/-- The mutex was locked for the call and has not been unlocked since. -/
def Call.holds (call : Call) : Bool := call.helper ≠ .waiting && call.outcome ≠ .released

/-- A call that returned true has a helper that has ended. -/
def Call.Proper (call : Call) : Prop := call.outcome = .taken ∨ call.outcome = .released → call.helper = .closed

/-- The mutex is locked for exactly one call, or it is free. -/
structure Sound (state : State) : Prop where
  counted : state.calls.countP holds = state.mutex.toNat
  proper : ∀ call ∈ state.calls, call.Proper

/-- What one turn does to the call and to the mutex. -/
theorem turn_spec {turn} {call after : Call} {mutex locked} (taken : call.turn turn mutex = some (after, locked))
    (proper : call.Proper) (held : call.holds = true → mutex = true) :
    after.Proper ∧ after.holds.toNat + mutex.toNat = call.holds.toNat + locked.toNat ∧
      (turn ≠ .timeout → after.outcome = .timedOut → call.outcome = .timedOut) := by
  obtain ⟨goroutine, helper, outcome⟩ := call
  cases turn <;> cases helper <;> cases outcome <;> cases mutex <;>
    simp_all [turn, Proper, holds] <;> obtain ⟨rfl, rfl⟩ := taken <;> simp

theorem step_cases {action state after} (taken : step action state = some after) :
    (∃ goroutine left, action = .call goroutine ∧ state.left[goroutine]? = some (left + 1) ∧
      after = { state with left := state.left.set goroutine left, calls := state.calls ++ [⟨goroutine, .waiting, .pending⟩] }) ∨
    ∃ index turn call next locked, action = .turn index turn ∧ state.calls[index]? = some call ∧
      call.turn turn state.mutex = some (next, locked) ∧
      after = { state with mutex := locked, calls := state.calls.set index next } := by
  cases action with
  | call goroutine =>
    rw [step] at taken
    split at taken
    · next left remaining =>
      obtain ⟨-, same⟩ := ite_none_right_eq_some.mp taken
      exact .inl ⟨goroutine, left, rfl, remaining, (some.inj same).symm⟩
    · cases taken
  | turn index turn =>
    obtain ⟨call, here, moved⟩ := bind_eq_some_iff.mp taken
    obtain ⟨⟨next, locked⟩, turned, same⟩ := bind_eq_some_iff.mp moved
    exact .inr ⟨index, turn, call, next, locked, rfl, here, turned, (some.inj same).symm⟩

theorem Sound.mutex_of_holds {state} (sound : Sound state) {call} (member : call ∈ state.calls)
    (held : call.holds = true) : state.mutex = true := by
  have some : 0 < state.calls.countP holds := countP_pos_iff.mpr ⟨call, member, held⟩
  have counted := sound.counted
  cases locked : state.mutex with
  | true => rfl
  | false =>
    rw [locked, Bool.toNat_false] at counted
    omega

theorem Sound.step {action} {state after : State} (sound : Sound state) (taken : step action state = some after) :
    Sound after := by
  obtain ⟨goroutine, left, -, -, rfl⟩ | ⟨index, turn, call, next, locked, -, here, turned, rfl⟩ := step_cases taken
  · refine ⟨?_, fun call member => ?_⟩
    · rw [countP_concat, sound.counted]
      rfl
    · obtain old | rfl := by simpa using member
      · exact sound.proper call old
      · exact fun returned => by simp at returned
  · have member := mem_of_getElem? here
    obtain ⟨proper, balance, -⟩ := turn_spec turned (sound.proper call member) (sound.mutex_of_holds member)
    have counted := sound.counted
    have moved := @countP_set _ _ _ _ next holds here
    refine ⟨by simp only; omega, fun other member => ?_⟩
    obtain old | rfl := mem_or_eq_of_mem_set member
    · exact sound.proper other old
    · exact proper

theorem sound_start (left : List Nat) : Sound (start left) := ⟨rfl, nofun⟩

/-- A turn that a call can take leads on. -/
theorem turned {state index call next turn locked} (here : state.calls[index]? = some call)
    (turned : call.turn turn state.mutex = some (next, locked)) :
    step (.turn index turn) state = some { state with mutex := locked, calls := state.calls.set index next } := by
  simp [step, here, turned]

theorem mem_set_self {calls : List Call} {index call next} (here : calls[index]? = some call) :
    next ∈ calls.set index next := by
  obtain ⟨inside, -⟩ := List.getElem?_eq_some_iff.mp here
  exact mem_set inside next

/-- The state can go wrong: it leads to one with an abandoned mutex. -/
def Doomed (state : State) : Prop := ∃ after, Reachable step state after ∧ Abandoned after

theorem Doomed.before {action state after} (doomed : Doomed after) (taken : step action state = some after) :
    Doomed state := by
  obtain ⟨last, reached, abandoned⟩ := doomed
  exact ⟨last, (Reachable.start.next action taken).trans reached, abandoned⟩

/-- The helper of a call that timed out gets the mutex as soon as it is free. -/
theorem doomed_of_free {state : State} {index : Nat} {call} (here : state.calls[index]? = some call)
    (timedOut : call.outcome = .timedOut) (waiting : call.helper = .waiting) (free : state.mutex = false) :
    Doomed state := by
  obtain ⟨goroutine, helper, outcome⟩ := call
  obtain rfl : helper = .waiting := waiting
  obtain rfl : outcome = .timedOut := timedOut
  have locks : turn .lock ⟨goroutine, .waiting, .timedOut⟩ state.mutex = some (⟨goroutine, .locked, .timedOut⟩, true) := by
    rw [free]
    rfl
  exact ⟨_, Reachable.start.next _ (turned here locks), rfl, _, mem_set_self here, rfl, nofun⟩

theorem doomed_of_timedOut {state : State} (sound : Sound state) {index : Nat} {call}
    (here : state.calls[index]? = some call) (timedOut : call.outcome = .timedOut) : Doomed state := by
  have member := mem_of_getElem? here
  by_cases waiting : call.helper = .waiting
  · cases locked : state.mutex with
    | false => exact doomed_of_free here timedOut waiting locked
    | true =>
      -- the call that holds the mutex gives it back, or it has timed out or can do so
      have some : 0 < state.calls.countP holds := by rw [sound.counted, locked]; decide
      obtain ⟨holder, held, holds⟩ := countP_pos_iff.mp some
      obtain ⟨position, there⟩ := mem_iff_getElem?.mp held
      obtain ⟨goroutine, helper, outcome⟩ := holder
      obtain ⟨locks, kept⟩ : helper ≠ .waiting ∧ outcome ≠ .released := by simpa [Call.holds] using holds
      cases outcome with
      | pending =>
        exact ⟨_, Reachable.start.next _ (@turned _ _ _ ⟨goroutine, helper, .timedOut⟩ .timeout state.mutex there rfl),
          locked, _, mem_set_self there, rfl, locks⟩
      | taken =>
        have other : position ≠ index := by
          rintro rfl
          obtain rfl := Option.some.inj (here.symm.trans there)
          cases timedOut
        have still := (getElem?_set_ne (a := ⟨goroutine, helper, .released⟩) other).trans here
        exact Doomed.before (doomed_of_free still timedOut waiting rfl)
          (@turned _ _ _ ⟨goroutine, helper, .released⟩ .unlock false there rfl)
      | released => exact absurd rfl kept
      | timedOut => exact ⟨state, .start, locked, _, held, rfl, locks⟩
  · have holds : call.holds = true := by simp [holds, waiting, timedOut]
    exact ⟨state, .start, sound.mutex_of_holds member holds, call, member, timedOut, waiting⟩

theorem doomed_of_pending {state} (sound : Sound state) {index : Nat} {call}
    (here : state.calls[index]? = some call) (pending : call.outcome = .pending) : Doomed state := by
  obtain ⟨goroutine, helper, outcome⟩ := call
  obtain rfl : outcome = .pending := pending
  have expires := @turned _ _ _ ⟨goroutine, helper, .timedOut⟩ .timeout state.mutex here rfl
  obtain ⟨inside, -⟩ := List.getElem?_eq_some_iff.mp here
  exact Doomed.before (doomed_of_timedOut (sound.step expires) (getElem?_set_self inside) rfl) expires

theorem doomed_of_idle {state} (sound : Sound state) {goroutine left : Nat}
    (remaining : state.left[goroutine]? = some (left + 1)) (idle : ∀ call ∈ state.calls, call.finished = true) :
    Doomed state := by
  have calls : step (.call goroutine) state = some { state with
      left := state.left.set goroutine left, calls := state.calls ++ [⟨goroutine, .waiting, .pending⟩] } := by
    simp only [step, remaining]
    exact if_pos fun call member _ => idle call member
  exact Doomed.before (doomed_of_pending (sound.step calls) getElem?_concat_length rfl) calls

/-- Every call returned true, and no goroutine makes another one. -/
structure Settled (state : State) : Prop where
  left : ∀ left ∈ state.left, left = 0
  calls : ∀ call ∈ state.calls, call.outcome = .taken ∨ call.outcome = .released

theorem Settled.step {action state after} (settled : Settled state) (sound : Sound state)
    (taken : step action state = some after) : Settled after := by
  obtain ⟨goroutine, left, -, remaining, -⟩ | ⟨index, turn, call, next, locked, -, here, turned, rfl⟩ := step_cases taken
  · exact absurd (settled.left _ (mem_of_getElem? remaining)) (by omega)
  · refine ⟨settled.left, fun other member => ?_⟩
    obtain old | rfl := mem_or_eq_of_mem_set member
    · exact settled.calls other old
    · have returned := settled.calls call (mem_of_getElem? here)
      have ended := sound.proper call (mem_of_getElem? here) returned
      obtain ⟨goroutine, helper, outcome⟩ := call
      obtain rfl : helper = .closed := ended
      obtain rfl | rfl : outcome = .taken ∨ outcome = .released := returned
      all_goals cases turn <;> simp [turn] at turned
      simp [← turned.1]

/-- Goroutines that have only had the mutex are done with it once it is free. -/
theorem Sound.finished_of_free {state} (sound : Sound state) (free : state.mutex = false)
    (returned : ∀ call ∈ state.calls, call.outcome = .taken ∨ call.outcome = .released) :
    ∀ call ∈ state.calls, call.finished = true := by
  intro call member
  obtain taken | released := returned call member
  · have ended := sound.proper call member (returned call member)
    have locked := sound.mutex_of_holds member (by simp [holds, taken, ended])
    simp [free] at locked
  · simp [finished, released]

theorem doomed_of_left {state} (sound : Sound state) {goroutine left : Nat}
    (remaining : state.left[goroutine]? = some (left + 1))
    (returned : ∀ call ∈ state.calls, call.outcome = .taken ∨ call.outcome = .released) : Doomed state := by
  by_cases idle : ∀ call ∈ state.calls, call.finished = true
  · exact doomed_of_idle sound remaining idle
  · -- the one call that has the mutex gives it back first
    simp only [not_forall] at idle
    obtain ⟨⟨owner, helper, outcome⟩, member, busy⟩ := idle
    obtain ⟨index, here⟩ := mem_iff_getElem?.mp member
    obtain rfl | rfl : outcome = .taken ∨ outcome = .released := returned _ member
    · have unlocks := @turned _ _ _ ⟨owner, helper, .released⟩ .unlock false here rfl
      refine Doomed.before (doomed_of_idle (sound.step unlocks) remaining ?_) unlocks
      apply (sound.step unlocks).finished_of_free rfl
      intro call member
      obtain old | rfl := mem_or_eq_of_mem_set member
      · exact returned call old
      · exact .inr rfl
    · exact absurd rfl busy

theorem doomed_iff {state : State} (sound : Sound state) : Doomed state ↔ ¬ Settled state := by
  constructor
  · rintro ⟨after, reached, -, call, member, timedOut, -⟩ settled
    have kept := reached.invariant (fun state => Sound state ∧ Settled state) ⟨sound, settled⟩
      fun action state after held taken => ⟨held.1.step taken, held.2.step held.1 taken⟩
    simpa [timedOut] using kept.2.calls call member
  · intro unsettled
    by_contra fine
    have returned : ∀ call ∈ state.calls, call.outcome = .taken ∨ call.outcome = .released := by
      intro call member
      obtain ⟨index, here⟩ := mem_iff_getElem?.mp member
      cases outcome : call.outcome with
      | pending => exact absurd (doomed_of_pending sound here outcome) fine
      | timedOut => exact absurd (doomed_of_timedOut sound here outcome) fine
      | taken | released => simp
    refine unsettled ⟨fun left member => ?_, returned⟩
    obtain ⟨goroutine, remaining⟩ := mem_iff_getElem?.mp member
    cases left with
    | zero => rfl
    | succ left => exact absurd (doomed_of_left sound remaining returned) fine

theorem no_timedOut {actions} {state after : State} (ran : run step actions state = some after)
    (patient : ∀ index, .turn index .timeout ∉ actions)
    (none : Sound state ∧ ∀ call ∈ state.calls, call.outcome ≠ .timedOut) :
    ∀ call ∈ after.calls, call.outcome ≠ .timedOut := by
  induction actions generalizing state with
  | nil => exact some.inj ran ▸ none.2
  | cons action actions ih =>
    obtain ⟨middle, taken, rest⟩ := bind_eq_some_iff.mp ran
    refine ih rest (fun index member => patient index (by simp [member])) ⟨none.1.step taken, ?_⟩
    obtain ⟨goroutine, left, -, -, rfl⟩ | ⟨index, turn, call, next, locked, rfl, here, turned, rfl⟩ := step_cases taken
    · intro call member
      obtain old | rfl := by simpa using member
      · exact none.2 call old
      · exact nofun
    · intro other member
      obtain old | rfl := mem_or_eq_of_mem_set member
      · exact none.2 other old
      · have was := mem_of_getElem? here
        obtain ⟨-, -, kept⟩ := turn_spec turned (none.1.proper call was) (none.1.mutex_of_holds was)
        have waited : turn ≠ .timeout := fun expired => patient index (by simp [expired])
        exact fun timedOut => none.2 call was (kept waited timedOut)

/-- Runs in which no timer fires are safe, and no others need be: from any state that a run reaches, the mutex can come to be
held for a call that returned false, unless every call returned true and none is left to make. -/
theorem lock_abandoned_iff (left : List Nat) :
    (∀ actions state, run step actions (start left) = some state → (∀ index, .turn index .timeout ∉ actions) → ¬ Abandoned state) ∧
      ∀ state, Reachable step (start left) state →
        ((∀ after, Reachable step state after → ¬ Abandoned after) ↔
          (∀ left ∈ state.left, left = 0) ∧ ∀ call ∈ state.calls, call.outcome = .taken ∨ call.outcome = .released) := by
  constructor
  · rintro actions state ran patient ⟨-, call, member, timedOut, -⟩
    exact no_timedOut ran patient ⟨sound_start left, nofun⟩ call member timedOut
  · intro state reached
    have sound := reached.invariant Sound (sound_start left) fun _ _ _ => Sound.step
    have decided := not_congr (doomed_iff sound)
    rw [Doomed, not_not, not_exists] at decided
    simp only [not_and] at decided
    exact decided.trans ⟨fun settled => ⟨settled.left, settled.calls⟩, fun ⟨left, calls⟩ => ⟨left, calls⟩⟩

theorem turn_timedOut {turn call next mutex locked} (turned : Call.turn turn call mutex = some (next, locked))
    (timedOut : call.outcome = .timedOut) (helped : call.helper ≠ .waiting) :
    next.outcome = .timedOut ∧ next.helper ≠ .waiting := by
  obtain ⟨goroutine, helper, outcome⟩ := call
  obtain rfl : outcome = .timedOut := timedOut
  cases turn <;> cases helper <;> simp_all [Call.turn]
  simp [← turned.1]

theorem Abandoned.step {action} {state after : State} (abandoned : Abandoned state) (sound : Sound state)
    (taken : step action state = some after) : Abandoned after := by
  obtain ⟨-, call, member, timedOut, helped⟩ := abandoned
  obtain ⟨holder, held, timedOut, helped⟩ : ∃ call ∈ after.calls, call.outcome = .timedOut ∧ call.helper ≠ .waiting := by
    obtain ⟨goroutine, left, -, -, rfl⟩ | ⟨index, turn, moved, next, mutex, -, here, turned, rfl⟩ := step_cases taken
    · exact ⟨call, mem_append_left _ member, timedOut, helped⟩
    · obtain ⟨position, there⟩ := mem_iff_getElem?.mp member
      by_cases same : index = position
      · subst same
        obtain rfl := some.inj (here.symm.trans there)
        exact ⟨next, mem_set_self here, turn_timedOut turned timedOut helped⟩
      · exact ⟨call, mem_of_getElem? ((getElem?_set_ne same).trans there), timedOut, helped⟩
  have holds : holder.holds = true := by simp [Call.holds, timedOut, helped]
  exact ⟨(sound.step taken).mutex_of_holds held holds, holder, held, timedOut, helped⟩

/-- An abandoned mutex is never unlocked, whatever the goroutines do. -/
theorem abandoned_forever (left : List Nat) {state after : State} (reached : Reachable step (start left) state)
    (abandoned : Abandoned state) (later : Reachable step state after) : Abandoned after := by
  have sound := reached.invariant Sound (sound_start left) fun _ _ _ => Sound.step
  have kept := later.invariant (fun state => Sound state ∧ Abandoned state) ⟨sound, abandoned⟩
    fun action state after held taken => ⟨held.1.step taken, held.2.step held.1 taken⟩
  exact kept.2

/-- The only call times out, and its helper locks the mutex. -/
theorem abandoned_by_one :
    ∃ state after, run step [.call 0, .turn 0 .timeout, .turn 0 .lock] (start [1]) = some state ∧
      step (.turn 0 .close) state = some after ∧ Abandoned after := by
  have reached := Reachable.start.run (rfl : run step [.call 0, .turn 0 .timeout, .turn 0 .lock] (start [1]) = some _)
  exact ⟨_, _, rfl, rfl, abandoned_forever [1] reached (by decide) (.next (.turn 0 .close) .start rfl)⟩

/-- Two goroutines make one call each. The second one times out while the first has the mutex, and its helper locks
the mutex after the first has unlocked it. -/
theorem lock_abandoned :
    ∃ state, run step [.call 0, .turn 0 .lock, .turn 0 .close, .turn 0 .complete, .call 1, .turn 1 .timeout, .turn 0 .unlock,
      .turn 1 .lock] (start [1, 1]) = some state ∧ Abandoned state :=
  ⟨_, rfl, by decide⟩

end MycsCommon.Utils.Sync
