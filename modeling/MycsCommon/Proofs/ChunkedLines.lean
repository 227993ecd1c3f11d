import MycsCommon.Proofs.ExitFinal
import MycsCommon.Proofs.StreamEnd

/-! What a handler does does not depend on how its stream is cut into reads, as far as whole lines
are concerned and the session goes on. -/

namespace MycsCommon.Streams
open Library.Lines List ExpectStream Handling Prod Session
open Utils (ReadError)

variable {σ ε : Type} {outlets : Outlets σ ε}

namespace ExpectStream

variable {line : List UInt8} {newLine : Bool} {es after : ExpectStream σ} {keep : ExpectRef → Bool}

/-- The expects of some references, and what they have sent in order. -/
abbrev Held := (ExpectRef → List Expect) × List (ExpectRef × List UInt8)

def held (keep : ExpectRef → Bool) (es : ExpectStream σ) : Held :=
  (fun ref => if keep ref then es.expectsAt ref else [], es.sent.filter fun entry => keep entry.1)

def heldNext (refs : List ExpectRef) (held : Held) (fragment : List UInt8 × Bool) : Held :=
  (fun ref => if ref ∈ refs then (viewNext (ref == .serial) (held.1 ref, []) fragment).1 else held.1 ref,
    held.2 ++ refs.flatMap fun ref => (viewNext (ref == .serial) (held.1 ref, []) fragment).2.map fun command => (ref, command))

theorem viewNext_fst (serial : Bool) (expects : List Expect) (sent : List (List UInt8)) (fragment : List UInt8 × Bool) :
    (viewNext serial (expects, sent) fragment).1 = (viewNext serial (expects, []) fragment).1 := by
  cases expects with
  | nil => rfl
  | cons expect rest =>
    simp only [viewNext]
    split <;> rfl

theorem evaluate_sent {ref} (ran : evaluate outlets line newLine ref es = (none, after)) :
    after.sent = es.sent ++ (viewNext (ref == .serial) (es.expectsAt ref, []) (line, newLine)).2.map fun command => (ref, command) := by
  unfold evaluate at ran
  rw [lookup_eq_head] at ran
  cases here : es.expectsAt ref with
  | nil =>
    simp only [here, head?_nil, Prod.mk.injEq, true_and] at ran
    simp [ran, viewNext]
  | cons expect rest =>
    simp only [here, head?_cons] at ran
    obtain ⟨⟨⟨sent, err⟩, judged, between⟩, processed⟩ : ∃ result, processExpect outlets expect line newLine es = result :=
      ⟨_, rfl⟩
    simp only [processed] at ran
    obtain ⟨rfl, rfl⟩ := ran
    obtain ⟨shown, fired, -, -, -, rfl⟩ := processExpect_cases processed
    have command : judged.command = expect.command := by rw [shown, judge_command]
    rw [viewNext, ← fired, command]
    cases sent <;> cases ref <;> simp [record, store]

theorem evaluate_held {ref} (ran : evaluate outlets line newLine ref es = (none, after)) (keep : ExpectRef → Bool) :
    held keep after = heldNext [ref] (held keep es) (line, newLine) := by
  refine Prod.ext (funext fun other => ?_) ?_
  · have seen := congrArg Prod.fst (evaluate_view ran other)
    simp only [view, apply_ite fst, viewNext_fst] at seen
    simp only [held, heldNext, mem_singleton, seen]
    by_cases same : other = ref
    · subst same
      cases keep other <;> simp [viewNext]
    · simp [same]
  · simp only [held, heldNext, evaluate_sent ran, filter_append, flatMap_cons, flatMap_nil, append_nil]
    congr 1
    cases kept : keep ref <;> simp [kept, viewNext]

theorem heldNext_cons {ref refs} (absent : ref ∉ refs) (kept : Held) (fragment : List UInt8 × Bool) :
    heldNext (ref :: refs) kept fragment = heldNext refs (heldNext [ref] kept fragment) fragment := by
  have apart : ∀ place ∈ refs, place ≠ ref := fun place member same => absent (same ▸ member)
  have other : ∀ place ∈ refs, (heldNext [ref] kept fragment).1 place = kept.1 place := by
    intro place member
    simp [heldNext, apart place member]
  refine Prod.ext (funext fun place => ?_) ?_
  · by_cases member : place ∈ refs
    · simp [heldNext, member, apart place member]
    · simp [heldNext, member]
  · have rest : refs.flatMap (fun place => (viewNext (place == .serial) (kept.1 place, []) fragment).2.map fun command => (place, command)) =
        refs.flatMap fun place =>
          (viewNext (place == .serial) ((heldNext [ref] kept fragment).1 place, []) fragment).2.map fun command => (place, command) :=
      flatMap_congr fun place member => by rw [other place member]
    simp only [heldNext, flatMap_cons, flatMap_nil, append_nil, append_assoc] at rest ⊢
    rw [rest]

theorem evaluateAll_held {refs} (distinct : refs.Nodup)
    (ran : evaluateAll outlets line newLine refs es = (none, after)) (keep : ExpectRef → Bool) :
    held keep after = heldNext refs (held keep es) (line, newLine) := by
  induction refs generalizing es with
  | nil =>
    simp only [evaluateAll, Prod.mk.injEq, true_and] at ran
    simp [ran, heldNext]
  | cons ref refs ih =>
    obtain ⟨absent, distinct⟩ := nodup_cons.mp distinct
    obtain ⟨between, evaluated, ran⟩ := evaluateAll_cons ran
    rw [ih distinct ran, evaluate_held evaluated, heldNext_cons absent]

theorem refs_nodup (es : ExpectStream σ) (side : Side) : (refs es side).Nodup := by
  cases side with
  | output => exact outRefs_nodup es
  | input => exact nodup_range.map fun first second same => ExpectRef.triggerIn.inj same

theorem handleFragments_held {side} {shown} (ran : handleFragments outlets side shown es = (none, after))
    (keep : ExpectRef → Bool) : held keep after = shown.foldl (heldNext (Session.refs es side)) (held keep es) ∧
      Session.refs after side = Session.refs es side := by
  induction shown generalizing es with
  | nil =>
    simp only [handleFragments, Prod.mk.injEq, true_and] at ran
    subst ran
    exact ⟨rfl, rfl⟩
  | cons fragment shown ih =>
    obtain ⟨between, handled, ran⟩ := handleFragments_cons ran
    rw [Session.expectHandler_eq] at handled
    obtain ⟨folded, same⟩ := ih ran
    have refs := Session.refs_evaluateAll handled side
    rw [refs] at folded same
    refine ⟨?_, same⟩
    rw [folded, evaluateAll_held (refs_nodup es side) handled, foldl_cons]

/-! Expects that look at whole lines. -/

def WholeLines (kept : Held) : Prop := ∀ ref, ∀ expect ∈ kept.1 ref, expect.onNewLine = true

theorem viewNext_whole {serial} {expects} (whole : ∀ expect ∈ expects, expect.onNewLine = true)
    (fragment : List UInt8 × Bool) :
    ∀ expect ∈ (viewNext serial (expects, []) fragment).1, expect.onNewLine = true := by
  cases expects with
  | nil => simp [viewNext]
  | cons expect rest =>
    obtain ⟨here, others⟩ := forall_mem_cons.mp whole
    obtain ⟨active, judged⟩ := judge_same expect fragment.1 fragment.2
    have still : ∀ other ∈ (expect.judge fragment.1 fragment.2).1 :: rest, other.onNewLine = true :=
      forall_mem_cons.mpr ⟨by rw [judged]; exact here, others⟩
    rw [viewNext]
    split
    · split
      · exact others
      · exact still
    · exact still

section

variable {kept} (whole : WholeLines kept) (refs : List ExpectRef)
include whole refs

theorem WholeLines.next (fragment : List UInt8 × Bool) :
    WholeLines (heldNext refs kept fragment) := by
  intro ref
  simp only [heldNext]
  split
  · exact viewNext_whole (whole ref) fragment
  · exact whole ref

theorem WholeLines.growing (line : List UInt8) :
    heldNext refs kept (line, false) = kept := by
  have still : ∀ ref serial, viewNext serial (kept.1 ref, []) (line, false) = (kept.1 ref, []) := by
    intro ref serial
    have here := whole ref
    cases expects : kept.1 ref with
    | nil => rfl
    | cons expect rest =>
      rw [expects] at here
      simp [viewNext, Expect.judge_growing (here expect mem_cons_self)]
  have silent : refs.flatMap (fun _ : ExpectRef => ([] : List (ExpectRef × List UInt8))) = [] := flatMap_eq_nil_iff.mpr (by simp)
  simp [heldNext, still, silent]

theorem foldl_completeLines
    (shown : List (List UInt8 × Bool)) :
    shown.foldl (heldNext refs) kept = (completeLines shown).foldl (fun kept line => heldNext refs kept (line, true)) kept := by
  induction shown generalizing kept with
  | nil => rfl
  | cons fragment shown ih =>
    obtain ⟨line, newLine⟩ := fragment
    cases newLine with
    | false => rw [foldl_cons, whole.growing, ih whole]; rfl
    | true => rw [foldl_cons, ih (whole.next refs _)]; rfl

end

end ExpectStream

namespace Handling

variable {side : Side} {handling start : Handling σ ε} {chunks : List (List UInt8)} {turns : Nat}

theorem showLines_calls {shown} (fine : (showLines outlets side shown handling).err = none) :
    (showLines outlets side shown handling).calls = handling.calls ++ shown := by
  induction shown generalizing handling with
  | nil => simp [showLines]
  | cons fragment shown ih =>
    obtain ⟨line, newLine⟩ := fragment
    obtain ⟨⟨err, es⟩, handled⟩ : ∃ result, expectHandler outlets side line newLine handling.es = result := ⟨_, rfl⟩
    rw [showLines, handled] at fine ⊢
    cases err with
    | some err => cases fine
    | none =>
      rw [ih fine]
      simp

theorem pass_fine {buffer} (fine : (handling.pass outlets side buffer).err = none) :
    (∃ streams, handleFragments outlets side (fragments handling.lineBuffer false buffer).1
        { handling.es with streams } = (none, (handling.pass outlets side buffer).es)) ∧
      (handling.pass outlets side buffer).lineBuffer = (fragments handling.lineBuffer false buffer).2 ∧
      (handling.pass outlets side buffer).echoed = handling.echoed ++ buffer ∧
      (handling.pass outlets side buffer).calls = handling.calls ++ (fragments handling.lineBuffer false buffer).1 := by
  obtain ⟨⟨⟨count, failed⟩, streams⟩, wrote⟩ : ∃ result, (outlets.echo side).write buffer handling.es.streams = result := ⟨_, rfl⟩
  rw [pass, wrote] at fine ⊢
  cases failed with
  | some err => cases fine
  | none =>
    obtain ⟨err, es, echoed, left⟩ := @showLines_err _ _ outlets side
      { handling with
        es := { handling.es with streams }, err := none
        lineBuffer := (fragments handling.lineBuffer false buffer).2, echoed := handling.echoed ++ buffer }
      (fragments handling.lineBuffer false buffer).1 rfl
    refine ⟨⟨streams, Prod.ext ?_ es.symm⟩, left, echoed, showLines_calls fine⟩
    exact Option.map_eq_none_iff.mp (err.symm.trans fine)

/-- How far a handler has come that is still going: what it has read is echoed, the lines that have
ended in it were shown, and its expects have seen the calls that were made. -/
structure Caught (outlets : Outlets σ ε) (side : Side) (start handling : Handling σ ε) (read : List UInt8) : Prop where
  echoed : handling.echoed = start.echoed ++ read
  lines : completeLines handling.calls = (split endsLine [] read).1
  left : handling.lineBuffer = (split endsLine [] read).2
  refs : refs handling.es side = refs start.es side
  held : ∀ keep, held keep handling.es =
    handling.calls.foldl (ExpectStream.heldNext (Session.refs start.es side)) (ExpectStream.held keep start.es)

theorem Caught.pass {read buffer} (caught : Caught outlets side start handling read)
    (fine : (handling.pass outlets side buffer).err = none) :
    Caught outlets side start (handling.pass outlets side buffer) (read ++ buffer) := by
  obtain ⟨⟨streams, handled⟩, left, echoed, calls⟩ := pass_fine fine
  obtain ⟨lines, rest⟩ := completeLines_fragments handling.lineBuffer false buffer
  have seen := fun keep => handleFragments_held handled keep
  have refs : Session.refs { handling.es with streams } side = Session.refs start.es side := by
    rw [← caught.refs]
    cases side <;> rfl
  have whole : completeLines (handling.pass outlets side buffer).calls =
      completeLines handling.calls ++ (split endsLine handling.lineBuffer buffer).1 := by
    rw [calls, completeLines, filter_append, map_append, ← lines]
    rfl
  refine ⟨?_, ?_, ?_, ?_, fun keep => ?_⟩
  · rw [echoed, caught.echoed, append_assoc]
  · rw [whole, split_append, caught.lines, caught.left]
  · rw [left, split_append, rest, caught.left]
  · rw [(seen fun _ => true).2, refs]
  · have before : ExpectStream.held keep { handling.es with streams } = ExpectStream.held keep handling.es := rfl
    rw [(seen keep).1, before, refs, caught.held keep, calls, foldl_append]

theorem caught_after (fresh : start.echoed = [] ∧ start.calls = [] ∧ start.lineBuffer = [])
    (going : (after outlets side (delivers chunks) start turns).going = true) :
    Caught outlets side start (after outlets side (delivers chunks) start turns) (chunks.take turns).flatten := by
  obtain ⟨echoed, calls, line⟩ := fresh
  induction turns with
  | zero => exact ⟨by simp [after], by simp [after, calls, completeLines, split], by simp [after, line, split], rfl, by simp [after, calls]⟩
  | succ turns ih =>
    have before := going_before going turns (Nat.le_succ turns)
    have fine : (after outlets side (delivers chunks) start (turns + 1)).err = none := by
      simpa [going] using (Bool.and_eq_true_iff.mp going).1
    rw [after_going before, turn_delivers] at fine ⊢
    have step := (ih before).pass fine
    rw [take_add_one, flatten_append]
    cases delivered : chunks[turns]? <;> simpa [delivered] using step

end Handling

/-- However a stream is cut into reads: as long as the session goes on, the same bytes are echoed,
the whole lines shown are the lines of the stream, and the expects that look at whole lines have
sent the same commands. -/
theorem lines_independent_of_chunks (outlets : Outlets σ ε) (side : Side) (es : ExpectStream σ) (chunks others : List (List UInt8))
    (same : chunks.flatten = others.flatten)
    (going : (after outlets side (delivers chunks) { es } chunks.length).going = true)
    (goingToo : (after outlets side (delivers others) { es } others.length).going = true) :
    let one := after outlets side (delivers chunks) { es } chunks.length
    let two := after outlets side (delivers others) { es } others.length
    (one.echoed = chunks.flatten ∧ two.echoed = chunks.flatten) ∧
    (completeLines one.calls = (split endsLine [] chunks.flatten).1 ∧ completeLines two.calls = (split endsLine [] chunks.flatten).1) ∧
    ∀ keep : ExpectRef → Bool, (∀ ref, keep ref = true → ∀ expect ∈ es.expectsAt ref, expect.onNewLine = true) →
      one.es.sent.filter (fun entry => keep entry.1) = two.es.sent.filter fun entry => keep entry.1 := by
  intro one two
  have caught := caught_after ⟨rfl, rfl, rfl⟩ going
  have caughtToo := caught_after ⟨rfl, rfl, rfl⟩ goingToo
  rw [take_length] at caught caughtToo
  rw [← same] at caughtToo
  refine ⟨⟨caught.echoed, caughtToo.echoed⟩, ⟨caught.lines, caughtToo.lines⟩, fun keep whole => ?_⟩
  have lines : WholeLines (held keep es) := by
    intro ref expect member
    by_cases kept : keep ref = true
    · exact whole ref kept expect (by simpa [held, kept] using member)
    · simp [held, kept] at member
  have equal : held keep one.es = held keep two.es := by
    rw [caught.held keep, caughtToo.held keep, foldl_completeLines lines, foldl_completeLines lines,
      caught.lines, caughtToo.lines]
  exact congrArg snd equal

def answering (line command : List UInt8) (onNewLine exit : Bool) : Expect :=
  { startPattern := fun shown => shown == line, command, onNewLine, exit }

def wholeTrigger : ExpectStream (List UInt8) := { running := true, streams := [], triggerOutExpects := [answering [97, 98] [120] true false] }

theorem lines_independent_of_chunks_split :
    (after plainOutlets .output (delivers [[97, 98, 10]]) { es := wholeTrigger } 1).es.sent.filter
      (fun entry => entry.1 == .triggerOut 0) = [(.triggerOut 0, [120])] ∧
    (after plainOutlets .output (delivers [[97], [98, 10]]) { es := wholeTrigger } 2).es.sent.filter
      (fun entry => entry.1 == .triggerOut 0) = [(.triggerOut 0, [120])] := by
  obtain ⟨-, -, commands⟩ := lines_independent_of_chunks plainOutlets .output wholeTrigger [[97, 98, 10]] [[97], [98, 10]]
    rfl rfl rfl
  have whole : ∀ ref, (ref == ExpectRef.triggerOut 0) = true → ∀ expect ∈ wholeTrigger.expectsAt ref, expect.onNewLine = true := by
    intro ref kept expect member
    obtain rfl : ref = .triggerOut 0 := by simpa using kept
    obtain rfl : expect = answering [97, 98] [120] true false := by simpa [wholeTrigger, expectsAt] using member
    rfl
  exact ⟨rfl, (commands (fun ref => ref == .triggerOut 0) whole).symm.trans rfl⟩

/-- A serial expect that is waited for while the line grows, in front of one that looks at whole lines. -/
def mixedSerial : ExpectStream (List UInt8) :=
  { running := true, streams := [], serialExpects := [answering [97] [120] false false, answering [97, 98] [121] true false] }

def exitTrigger : ExpectStream (List UInt8) := { running := true, streams := [], triggerOutExpects := [answering [97] [] true true] }

/-- Reads that cut one stream at different places: the second serial expect, which looks at whole
lines, is answered or not, and a session that ends at a line has echoed what was read with it. -/
theorem chunks_matter :
    ((after plainOutlets .output (delivers [[97, 98, 10]]) { es := mixedSerial } 1).es.sent = [] ∧
      (after plainOutlets .output (delivers [[97], [98, 10]]) { es := mixedSerial } 2).es.sent =
        [(.serial, [120]), (.serial, [121])]) ∧
    ((after plainOutlets .output (delivers [[97, 10, 98, 10]]) { es := exitTrigger } 1).echoed = [97, 10, 98, 10] ∧
      completeLines (after plainOutlets .output (delivers [[97, 10, 98, 10]]) { es := exitTrigger } 1).calls =
        [[97], [98]]) ∧
    ∀ turns, (after plainOutlets .output (delivers [[97, 10], [98, 10]]) { es := exitTrigger } (1 + turns)).echoed =
        [97, 10] ∧
      completeLines (after plainOutlets .output (delivers [[97, 10], [98, 10]]) { es := exitTrigger } (1 + turns)).calls =
        [[97]] := by
  refine ⟨⟨rfl, rfl⟩, ⟨rfl, rfl⟩, fun turns => ?_⟩
  rw [after_ended rfl turns]
  exact ⟨rfl, rfl⟩

end MycsCommon.Streams
