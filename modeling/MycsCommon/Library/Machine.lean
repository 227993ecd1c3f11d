import Mathlib.Data.List.Basic
import Mathlib.Data.List.Induction

/-! Threads that share a state: a machine takes one action of one thread at a time, in
any order. The threads of one kind are a list, and counting those in a certain phase is
how invariants speak about all of them. -/

namespace Library.Machine
open List

variable {α σ : Type}

/-- The states some sequence of actions leads to. An action that is not enabled gives no state. -/
inductive Reachable (step : α → σ → Option σ) (start : σ) : σ → Prop where
  | start : Reachable step start start
  | next {state after : σ} (action : α) (reached : Reachable step start state)
      (taken : step action state = some after) : Reachable step start after

theorem Reachable.invariant {step : α → σ → Option σ} {start state : σ} (inv : σ → Prop)
    (initial : inv start) (kept : ∀ action state after, inv state → step action state = some after → inv after)
    (reached : Reachable step start state) : inv state := by
  induction reached with
  | start => exact initial
  | next action _ taken ih => exact kept action _ _ ih taken

theorem Reachable.trans {step : α → σ → Option σ} {start state after : σ} (first : Reachable step start state)
    (second : Reachable step state after) : Reachable step start after :=
  second.invariant (Reachable step start) first fun action _ _ reached taken => reached.next action taken

/-- If every step lowers a rank, and a step can be taken wherever the run is not over, then it
can be brought to its end from any state. -/
theorem Reachable.exists_over {step : α → σ → Option σ} {start : σ} {rank : σ → Nat} {finished : σ → Prop}
    (lowers : ∀ action state after, step action state = some after → rank after < rank state)
    (progress : ∀ state, Reachable step start state → finished state ∨ ∃ action after, step action state = some after)
    {state : σ} (reached : Reachable step start state) : ∃ last, Reachable step state last ∧ finished last := by
  induction measured : rank state using Nat.strongRecOn generalizing state with
  | _ count ih =>
    obtain done | ⟨action, after, taken⟩ := progress state reached
    · exact ⟨state, .start, done⟩
    · have lower := lowers action state after taken
      obtain ⟨last, rest, done⟩ := ih (rank after) (measured ▸ lower) (reached.next action taken) rfl
      exact ⟨last, (Reachable.start.next action taken).trans rest, done⟩

/-- The state after a list of actions, if each is enabled where it is taken. -/
def run (step : α → σ → Option σ) : List α → σ → Option σ
  | [], state => some state
  | action :: actions, state => (step action state).bind (run step actions)

theorem Reachable.run {step : α → σ → Option σ} {start state after : σ} {actions : List α}
    (reached : Reachable step start state) (ran : run step actions state = some after) :
    Reachable step start after := by
  induction actions generalizing state with
  | nil => exact Option.some.inj ran ▸ reached
  | cons action actions ih =>
    obtain ⟨middle, taken, rest⟩ := Option.bind_eq_some_iff.mp ran
    exact ih (reached.next action taken) rest

/-- A run whose steps all lower a rank is no longer than the rank it starts with. -/
theorem length_le_rank {step : α → σ → Option σ} {rank : σ → Nat} {actions : List α} {state after : σ}
    (lowers : ∀ action state after, step action state = some after → rank after < rank state)
    (ran : run step actions state = some after) : actions.length + rank after ≤ rank state := by
  induction actions generalizing state with
  | nil => simp [← Option.some.inj ran]
  | cons action actions ih =>
    obtain ⟨middle, taken, rest⟩ := Option.bind_eq_some_iff.mp ran
    have lower := lowers action state middle taken
    have shorter := ih rest
    rw [length_cons]
    omega

theorem run_concat (step : α → σ → Option σ) (actions : List α) (action : α) (state : σ) :
    run step (actions ++ [action]) state = (run step actions state).bind (step action) := by
  induction actions generalizing state with
  | nil => cases taken : step action state <;> simp [run, taken]
  | cons first actions ih => cases taken : step first state <;> simp [run, taken, ih]

/-- If a step out of a state that is fine leads to one that is fine exactly when it is not a bad
step, then all states of a run are fine exactly when none of its steps is bad. -/
theorem run_forall_iff {step : α → σ → Option σ} {start : σ} {fine : σ → Prop} {bad : α → σ → Prop} (initial : fine start)
    (decided : ∀ action state after, fine state → step action state = some after → (fine after ↔ ¬ bad action state))
    (actions : List α) :
    (∀ before after state, actions = before ++ after → run step before start = some state → fine state) ↔
      ∀ before action after state next, actions = before ++ action :: after → run step before start = some state →
        step action state = some next → ¬ bad action state := by
  constructor
  · intro all before action after state next split reached taken
    have here := all before (action :: after) state split reached
    have there := all (before ++ [action]) after next (by simp [split]) (by simp [run_concat, reached, taken])
    exact (decided action state next here taken).mp there
  · intro none before
    induction before using List.reverseRecOn with
    | nil =>
      intro after state split reached
      obtain rfl : start = state := by simpa [run] using reached
      exact initial
    | append_singleton before action ih =>
      intro after state split reached
      rw [run_concat] at reached
      obtain ⟨middle, led, taken⟩ := Option.bind_eq_some_iff.mp reached
      have split : actions = before ++ action :: after := by simpa using split
      exact (decided action middle state (ih (action :: after) middle split led) taken).mpr
        (none before action after middle state split led taken)

section Threads

variable {threads : List α} {index : Nat} {old new : α} {phase : α → Bool}

theorem countP_concat (last : α) : (threads ++ [last]).countP phase = threads.countP phase + (phase last).toNat := by
  cases held : phase last <;> simp [held]

theorem countP_first (first : α) : (first :: threads).countP phase = threads.countP phase + (phase first).toNat := by
  cases held : phase first <;> simp [held]

theorem countP_set (here : threads[index]? = some old) :
    (threads.set index new).countP phase + (phase old).toNat = threads.countP phase + (phase new).toNat := by
  induction threads generalizing index with
  | nil => simp at here
  | cons thread threads ih =>
    cases index with
    | zero =>
      obtain rfl : thread = old := by simpa using here
      simp only [set_cons_zero, countP_cons]
      cases phase thread <;> cases phase new <;> simp
    | succ index =>
      have rest := @ih index (by simpa using here)
      simp only [set_cons_succ, countP_cons]
      omega

theorem countP_turn {spawned : List α} (here : threads[index]? = some old) :
    (threads.set index new ++ spawned).countP phase + (phase old).toNat =
      threads.countP phase + (new :: spawned).countP phase := by
  have moved := @countP_set _ _ _ _ new phase here
  rw [countP_append, countP_first]
  omega

theorem getElem?_turn {spawned : List α} (here : threads[index]? = some old) :
    (threads.set index new ++ spawned)[index]? = some new := by
  obtain ⟨inside, -⟩ := List.getElem?_eq_some_iff.mp here
  rw [getElem?_append_left (by simpa using inside), getElem?_set_self inside]

theorem countP_eraseIdx (here : threads[index]? = some old) :
    (threads.eraseIdx index).countP phase + (phase old).toNat = threads.countP phase := by
  induction threads generalizing index with
  | nil => simp at here
  | cons thread threads ih =>
    cases index with
    | zero =>
      obtain rfl : thread = old := by simpa using here
      simp only [eraseIdx_cons_zero, countP_cons]
      cases phase thread <;> simp
    | succ index =>
      have rest := @ih index (by simpa using here)
      simp only [eraseIdx_cons_succ, countP_cons]
      omega

theorem length_eraseIdx (here : threads[index]? = some old) :
    (threads.eraseIdx index).length + 1 = threads.length := by
  obtain ⟨inside, -⟩ := List.getElem?_eq_some_iff.mp here
  rw [length_eraseIdx_of_lt inside]
  omega

theorem exists_around (here : threads[index]? = some old) :
    ∃ front back, threads = front ++ old :: back ∧ (∀ new, threads.set index new = front ++ new :: back) ∧
      threads.eraseIdx index = front ++ back := by
  induction threads generalizing index with
  | nil => simp at here
  | cons thread threads ih =>
    cases index with
    | zero =>
      obtain rfl : thread = old := by simpa using here
      exact ⟨[], threads, rfl, fun _ => rfl, rfl⟩
    | succ index =>
      obtain ⟨front, back, whole, set, erased⟩ := @ih index (by simpa using here)
      exact ⟨thread :: front, back, by simp [whole], fun new => by simp [set], by simp [erased]⟩

end Threads

section Lone

variable {threads spawned : List α} {index : Nat} {old new : α} {active : α → Bool} {fits : σ → α → Prop} {shared after : σ}

/-- At most one thread is active, and each fits the state that is shared. -/
structure Lone (active : α → Bool) (fits : σ → α → Prop) (shared : σ) (threads : List α) : Prop where
  one : threads.countP active ≤ 1
  fits : ∀ thread ∈ threads, fits shared thread

theorem exists_idle_around (one : threads.countP active ≤ 1) (here : threads[index]? = some old) (acting : active old = true) :
    ∃ front back, threads = front ++ old :: back ∧ (∀ new, threads.set index new = front ++ new :: back) ∧
      ∀ thread ∈ front ++ back, active thread = false := by
  obtain ⟨front, back, whole, set, -⟩ := exists_around here
  refine ⟨front, back, whole, set, ?_⟩
  have none : (front ++ back).countP active = 0 := by
    rw [whole, countP_append, countP_first, acting] at one
    rw [countP_append]
    simp only [Bool.toNat_true] at one
    omega
  simpa using countP_eq_zero.mp none

section

variable (lone : Lone active fits shared threads)
include lone

/-- The active thread takes a turn and starts others. What the rest needs is not touched by it,
since none of it is active. -/
theorem Lone.turn (here : threads[index]? = some old) (acting : active old = true)
    (next : Lone active fits after (new :: spawned))
    (others : ∀ thread, active thread = false → fits shared thread → fits after thread) :
    Lone active fits after (threads.set index new ++ spawned) := by
  obtain ⟨front, back, whole, set, rest⟩ := exists_idle_around lone.one here acting
  refine ⟨?_, fun thread member => ?_⟩
  · have counted := @countP_turn _ _ _ _ new active spawned here
    have left := lone.one
    have still := next.one
    simp only [acting, Bool.toNat_true] at counted
    omega
  · rw [set] at member
    obtain inFront | rfl | inBack | inSpawned : thread ∈ front ∨ thread = new ∨ thread ∈ back ∨ thread ∈ spawned := by
      simpa [or_assoc] using member
    · exact others thread (rest thread (by simp [inFront])) (lone.fits thread (by simp [whole, inFront]))
    · exact next.fits thread (by simp)
    · exact others thread (rest thread (by simp [inBack])) (lone.fits thread (by simp [whole, inBack]))
    · exact next.fits thread (by simp [inSpawned])

theorem Lone.idle (here : threads[index]? = some old)
    (still : active new = false) (fit : fits after new) (others : ∀ thread, fits shared thread → fits after thread) :
    Lone active fits after (threads.set index new) := by
  refine ⟨?_, fun thread member => ?_⟩
  · have counted := @countP_set _ _ _ _ new active here
    have one := lone.one
    simp only [still, Bool.toNat_false] at counted
    omega
  · obtain old | rfl := mem_or_eq_of_mem_set member
    · exact others thread (lone.fits thread old)
    · exact fit

theorem Lone.mono {fits' : σ → α → Prop}
    (others : ∀ thread ∈ threads, fits shared thread → fits' after thread) : Lone active fits' after threads :=
  ⟨lone.one, fun thread member => others thread member (lone.fits thread member)⟩

end

end Lone

end Library.Machine
