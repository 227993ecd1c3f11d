import MycsCommon.Proofs.SerialExpects
import MycsCommon.Streams.ExpectSession

/-! The two handlers of a session at work together, and whether a session that an expect has
ended stays ended. Every match sets `running`, also to true again, so that it does exactly if
no other expect matches afterwards. -/

namespace MycsCommon.Streams
open Library.Machine ExpectStream ExpectStream Option Session

variable {σ ε : Type} {outlets : Outlets σ ε}

namespace ExpectStream

def exited (es : ExpectStream σ) : Bool := es.matched.any Expect.exit

def answering (es : ExpectStream σ) (line : List UInt8) (newLine : Bool) (ref : ExpectRef) : Option Expect :=
  (es.lookup ref).filter fun expect => (expect.judge line newLine).2

section
variable {line : List UInt8} {newLine : Bool} {ref : ExpectRef} {es : ExpectStream σ}

theorem store_shared (sent : Bool) (judged : Expect) :
    (store ref sent judged es).running = es.running ∧ (store ref sent judged es).matched = es.matched := by
  cases ref <;> exact ⟨rfl, rfl⟩

theorem record_shared (sent : Bool) (command : List UInt8) :
    (record sent ref command es).running = es.running ∧ (record sent ref command es).matched = es.matched := by
  cases sent <;> exact ⟨rfl, rfl⟩

theorem evaluate_unmatched (none : es.answering line newLine ref = none) :
    (evaluate outlets line newLine ref es).2.running = es.running ∧
      (evaluate outlets line newLine ref es).2.exited = es.exited := by
  unfold evaluate
  cases here : es.lookup ref with
  | none => exact ⟨rfl, rfl⟩
  | some expect =>
    have missed : (expect.judge line newLine).2 = false := by simpa [answering, here, Option.filter] using none
    obtain ⟨⟨judged, matched⟩, judging⟩ : ∃ result, expect.judge line newLine = result := ⟨_, rfl⟩
    obtain rfl : matched = false := by simpa [judging] using missed
    simp [processExpect, judging, exited, record_shared, store_shared]

theorem evaluate_matched {expect} (found : es.answering line newLine ref = some expect) :
    (evaluate outlets line newLine ref es).2.running = !expect.exit ∧
      (evaluate outlets line newLine ref es).2.exited = (es.exited || expect.exit) := by
  obtain ⟨here, hit⟩ := filter_eq_some_iff.mp found
  obtain ⟨active, same⟩ := judge_same expect line newLine
  obtain ⟨⟨judged, matched⟩, judging⟩ : ∃ result, expect.judge line newLine = result := ⟨_, rfl⟩
  obtain rfl : matched = true := by simpa [judging] using hit
  have exit : judged.exit = expect.exit := by
    have same : judged = { expect with active } := by rwa [judging] at same
    rw [same]
  unfold evaluate
  rw [here]
  by_cases long : 0 < judged.command.length <;>
    simp [processExpect, judging, long, exited, record_shared, store_shared, exit]

end

end ExpectStream

namespace Session

/-! A handler that is not interrupted does what `startStreamHandler` does. -/

section Alone

variable {line : List UInt8} {newLine : Bool} {es after : ExpectStream σ} {side : Side} {handlers : Side → HandlerState}

theorem refs_evaluate {ref} (done : es.evaluate outlets line newLine ref = (none, after)) (side : Side) :
    refs after side = refs es side := by
  unfold evaluate at done
  cases here : es.lookup ref with
  | none =>
    obtain rfl : es = after := by simpa [here] using done
    rfl
  | some expect =>
    obtain ⟨⟨⟨sent, err⟩, judged, between⟩, processed⟩ : ∃ result, es.processExpect outlets expect line newLine = result :=
      ⟨_, rfl⟩
    simp only [here, processed, Prod.mk.injEq] at done
    obtain ⟨rfl, rfl⟩ := done
    obtain ⟨-, -, -, -, -, rfl⟩ := processExpect_cases processed
    cases sent <;> cases ref <;> cases side <;> simp [record, store, refs, outRefs, inRefs]

theorem refs_evaluateAll {shownTo} (done : es.evaluateAll outlets line newLine shownTo = (none, after))
    (side : Side) : refs after side = refs es side := by
  induction shownTo generalizing es with
  | nil =>
    obtain rfl : es = after := by simpa [evaluateAll] using done
    rfl
  | cons ref shownTo ih =>
    obtain ⟨between, evaluated, done⟩ := evaluateAll_cons done
    rw [ih done, refs_evaluate evaluated]

theorem expectHandler_eq (side : Side) :
    es.expectHandler outlets side line newLine = es.evaluateAll outlets line newLine (refs es side) := by
  cases side <;> rfl

theorem evaluateAll_reaches {shownTo} (done : es.evaluateAll outlets line newLine shownTo = (none, after))
    (lineBuffer : List UInt8) (rest : List (ExpectRef × List UInt8 × Bool)) : Reachable (step outlets)
      (put ⟨es, handlers⟩ side ⟨.showing, lineBuffer, shownTo.map (fun ref => (ref, line, newLine)) ++ rest⟩)
      (put ⟨after, handlers⟩ side ⟨.showing, lineBuffer, rest⟩) := by
  induction shownTo generalizing es with
  | nil =>
    obtain rfl : es = after := by simpa [evaluateAll] using done
    exact .start
  | cons ref shownTo ih =>
    obtain ⟨between, evaluated, done⟩ := evaluateAll_cons done
    exact (Reachable.start.next (.evaluate side) (by simp [step, evaluated, put])).trans (ih done)

theorem handleFragments_reaches {shown} (done : es.handleFragments outlets side shown = (none, after))
    (lineBuffer : List UInt8) :
    Reachable (step outlets) (put ⟨es, handlers⟩ side ⟨.showing, lineBuffer, toShow es side shown⟩)
      (put ⟨after, handlers⟩ side ⟨.showing, lineBuffer, []⟩) := by
  induction shown generalizing es with
  | nil =>
    obtain rfl : es = after := by simpa [handleFragments] using done
    exact .start
  | cons fragment shown ih =>
    obtain ⟨line, newLine⟩ := fragment
    obtain ⟨between, handled, done⟩ := handleFragments_cons done
    rw [expectHandler_eq] at handled
    have same : toShow es side ((line, newLine) :: shown) =
        (refs es side).map (fun ref => (ref, line, newLine)) ++ toShow between side shown := by
      simp [toShow, refs_evaluateAll handled side]
    rw [same]
    exact (evaluateAll_reaches handled lineBuffer _).trans (ih done)

theorem startStreamHandler_reaches {reads unread lineBuffer}
    (done : es.startStreamHandler outlets side reads lineBuffer = (none, unread, after)) :
    ∃ left, Reachable (step outlets) (put ⟨es, handlers⟩ side ⟨.looping, lineBuffer, []⟩)
      (put ⟨after, handlers⟩ side ⟨.looping, left, []⟩) := by
  induction reads generalizing es lineBuffer with
  | nil =>
    obtain ⟨-, rfl⟩ : _ ∧ es = after := by simpa [startStreamHandler] using done
    exact ⟨lineBuffer, .start⟩
  | cons buffer reads ih =>
    obtain ⟨-, rfl, rfl⟩ | ⟨count, streams, between, running, echoed, handled, done⟩ := startStreamHandler_cons done
    · exact ⟨lineBuffer, .start⟩
    · obtain ⟨⟨shown, left⟩, cut⟩ : ∃ result, fragments lineBuffer false buffer = result := ⟨_, rfl⟩
      rw [cut] at handled done
      have checked : Reachable (step outlets) (put ⟨es, handlers⟩ side ⟨.looping, lineBuffer, []⟩)
          (put ⟨es, handlers⟩ side ⟨.reading, lineBuffer, []⟩) :=
        Reachable.start.next (.check side) (by simp [step, running, put])
      have read := checked.next (.read side buffer)
        (show _ = some (put ⟨{ es with streams }, handlers⟩ side ⟨.showing, left, toShow es side shown⟩) by
          simp [step, put, echoed, cut])
      have shown := read.trans (handleFragments_reaches handled left)
      have back := shown.next (.evaluate side)
        (show _ = some (put ⟨between, handlers⟩ side ⟨.looping, left, []⟩) by simp [step, put])
      obtain ⟨last, rest⟩ := ih done
      exact ⟨last, back.trans rest⟩

end Alone

/-- Once an expect with `Exit` has matched the session is not running. -/
def Final (session : Session σ) : Prop := session.es.exited = true → session.es.running = false

/-- The step has an expect without `Exit` match after one with `Exit` has matched. -/
def resumes : SessionAction σ → Session σ → Bool
  | .evaluate side, session =>
    session.es.exited && (session.handlers side).todo.head?.any fun (ref, line, newLine) =>
      (session.es.answering line newLine ref).any fun expect => !expect.exit
  | _, _ => false

theorem final_evaluate_iff {session} (final : Final session) (line : List UInt8) (newLine : Bool) (ref : ExpectRef) :
    ((session.es.evaluate outlets line newLine ref).2.exited = true →
        (session.es.evaluate outlets line newLine ref).2.running = false) ↔
      (session.es.exited && (session.es.answering line newLine ref).any fun expect => !expect.exit) = false := by
  cases found : session.es.answering line newLine ref with
  | none =>
    obtain ⟨running, exited⟩ := @evaluate_unmatched _ _ outlets _ _ _ _ found
    rw [running, exited]
    exact iff_of_true final (by simp)
  | some expect =>
    obtain ⟨running, exited⟩ := @evaluate_matched _ _ outlets _ _ _ _ _ found
    rw [running, exited]
    cases exit : expect.exit <;> simp [exit]

theorem final_step_iff (action : SessionAction σ) (session after : Session σ) (final : Final session)
    (taken : step outlets action session = some after) : Final after ↔ ¬ resumes action session = true := by
  rw [Bool.not_eq_true]
  cases action with
  | outside streams =>
    obtain rfl := some.inj taken
    exact iff_of_true final rfl
  | close streams =>
    obtain rfl := some.inj taken
    exact iff_of_true (fun _ => rfl) rfl
  | check side =>
    obtain ⟨-, made⟩ := ite_none_right_eq_some.mp taken
    obtain rfl := some.inj made
    exact iff_of_true final rfl
  | read side buffer =>
    obtain ⟨-, made⟩ := ite_none_right_eq_some.mp taken
    obtain ⟨⟨⟨count, err⟩, streams⟩, echoed⟩ : ∃ result, (outlets.echo side).write buffer session.es.streams = result :=
      ⟨_, rfl⟩
    rw [echoed] at made
    cases err <;> obtain rfl := some.inj made <;> exact iff_of_true final rfl
  | evaluate side =>
    obtain ⟨-, made⟩ := ite_none_right_eq_some.mp taken
    cases todo : (session.handlers side).todo with
    | nil =>
      rw [todo] at made
      obtain rfl := some.inj made
      exact iff_of_true final (by simp [resumes, todo])
    | cons item rest =>
      obtain ⟨ref, line, newLine⟩ := item
      have kept := @final_evaluate_iff _ _ outlets _ final line newLine ref
      have asked : resumes (.evaluate side) session =
          (session.es.exited && (session.es.answering line newLine ref).any fun expect => !expect.exit) := by
        simp [resumes, todo]
      rw [asked, ← kept]
      obtain ⟨⟨err, es⟩, evaluated⟩ : ∃ result, session.es.evaluate outlets line newLine ref = result := ⟨_, rfl⟩
      simp only [todo, evaluated] at made
      rw [evaluated]
      cases err <;> obtain rfl := some.inj made <;> exact Iff.rfl

end Session

/-- In every run of the two handlers `running` stays false in all states after a match with
`Exit` exactly if no expect without `Exit` matches after one with it. -/
theorem exit_final_iff {es : ExpectStream σ} (unmatched : es.matched = []) (actions : List (SessionAction σ)) :
    (∀ before after state, actions = before ++ after → run (step outlets) before (start es) = some state →
      Final state) ↔
      ∀ before action after state next, actions = before ++ action :: after →
        run (step outlets) before (start es) = some state →
        Session.step outlets action state = some next → ¬ Session.resumes action state = true := by
  refine run_forall_iff (fun exited => ?_) final_step_iff actions
  simp [Session.start, ExpectStream.start, ExpectStream.exited, unmatched] at exited

def shell (answers : List Expect) : ExpectStream (List UInt8) :=
  setShellExitCommand [] { triggerOutExpects := answers, streams := [] }

def typedExit : List (SessionAction (List UInt8)) :=
  [.check .output, .check .input, .read .input "exit\n".toUTF8.toList, .evaluate .input, .evaluate .input, .evaluate .input]

/-- The output handler was in a read when the exit command matched. The line that it reads
sets `running` again, and both handlers go on. -/
theorem exit_undone :
    (run (step plainOutlets) (typedExit ++ [.read .output [98, 10], .evaluate .output, .evaluate .output])
      (start (shell [{ startPattern := (· == [98]), command := [33], onNewLine := true }]))).map
        (fun session => (session.es.exited, session.es.running)) = some (true, true) := by
  decide +kernel

theorem exit_final_iff_typed :
    ∃ state, run (step plainOutlets) typedExit (start (shell [])) = some state ∧ Final state := by
  have taken : (run (step plainOutlets) typedExit (start (shell []))).isSome := by decide +kernel
  obtain ⟨state, reached⟩ := isSome_iff_exists.mp taken
  refine ⟨state, reached, (exit_final_iff rfl typedExit).mpr ?_ typedExit [] state (by simp) reached⟩
  intro before action after state next cut reached _
  have none : ∀ count < typedExit.length, (run (step plainOutlets) (typedExit.take count) (start (shell []))).all
      (fun session => typedExit[count]?.all fun action => !resumes action session) = true := by decide +kernel
  have here := none before.length (by simp [cut])
  simpa [cut, reached] using here

end MycsCommon.Streams
