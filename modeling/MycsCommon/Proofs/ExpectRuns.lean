import MycsCommon.Library.Lines
import MycsCommon.Proofs.FilterBytes
import MycsCommon.Streams.ExpectStream
import Mathlib.Data.List.Nodup

/-! What the lines of a stream do to one expect. A handler shows a line to one expect after the
other; seen from one of them the rest does not matter, so that its part of the state is a fold
over the lines that were shown. -/

namespace MycsCommon.Streams
open Library.Lines List Expect ExpectStream Prod

variable {σ ε : Type} {outlets : Outlets σ ε}

namespace ExpectStream

variable {line : List UInt8} {newLine : Bool} {es after : ExpectStream σ}

def sentBy (ref : ExpectRef) (es : ExpectStream σ) : List (List UInt8) :=
  (es.sent.filter fun entry => entry.1 = ref).map snd

theorem judge_same (expect : Expect) (line : List UInt8) (newLine : Bool) :
    ∃ active, (expect.judge line newLine).1 = { expect with active } := by
  unfold judge
  by_cases looks : (!expect.onNewLine || newLine) = true
  · rw [if_pos looks]
    by_cases starts : (!expect.active && expect.startPattern line) = true
    · exact ⟨true, by simp [starts]⟩
    · exact ⟨expect.active, by simp [starts]⟩
  · rw [if_neg looks]
    exact ⟨expect.active, rfl⟩

theorem judge_command (expect : Expect) (line : List UInt8) (newLine : Bool) :
    (expect.judge line newLine).1.command = expect.command := by
  obtain ⟨active, same⟩ := judge_same expect line newLine
  rw [same]

/-- A call of `processExpect` that did not fail: it returns whether a command was sent. Of the
session only what is shared by all expects changes. -/
theorem processExpect_cases {expect judged sent}
    (ran : processExpect outlets expect line newLine es = ((sent, none), judged, after)) :
    judged = (expect.judge line newLine).1 ∧
      sent = ((expect.judge line newLine).2 && decide (0 < expect.command.length)) ∧
      ∃ running streams matched, after = { es with running, streams, matched } := by
  have command := judge_command expect line newLine
  unfold processExpect at ran
  obtain ⟨⟨shown, matched⟩, judging⟩ : ∃ result, expect.judge line newLine = result := ⟨_, rfl⟩
  rw [judging] at command ⊢
  cases matched with
  | false =>
    simp only [judging] at ran
    obtain ⟨⟨rfl, -⟩, rfl, rfl⟩ := ran
    exact ⟨rfl, rfl, _, _, _, rfl⟩
  | true =>
    simp only [judging] at ran
    split_ifs at ran with long
    · obtain ⟨⟨⟨count, err⟩, output⟩, written⟩ : ∃ result, outlets.streamWriter.write shown.command es.streams = result :=
        ⟨_, rfl⟩
      simp only [written] at ran
      obtain ⟨⟨rfl, rfl⟩, rfl, rfl⟩ := ran
      exact ⟨rfl, by simp [← command, long], _, _, _, rfl⟩
    · simp only [Prod.mk.injEq] at ran
      obtain ⟨⟨rfl, -⟩, rfl, rfl⟩ := ran
      exact ⟨rfl, by simp [← command, long], _, _, _, rfl⟩

theorem sentBy_record (sent : Bool) (ref other : ExpectRef) (command : List UInt8) (es : ExpectStream σ) :
    (record sent ref command es).sentBy other = es.sentBy other ++ if sent ∧ ref = other then [command] else [] := by
  cases sent with
  | false => simp [record]
  | true => by_cases same : ref = other <;> simp [record, sentBy, same]

def expectsAt (es : ExpectStream σ) : ExpectRef → List Expect
  | .serial => es.serialExpects
  | .triggerOut index => es.triggerOutExpects[index]?.toList
  | .triggerIn index => es.triggerInExpects[index]?.toList

theorem lookup_eq_head (es : ExpectStream σ) (ref : ExpectRef) : es.lookup ref = (es.expectsAt ref).head? := by
  cases ref with
  | serial => rfl
  | triggerOut index => cases here : es.triggerOutExpects[index]? <;> simp [lookup, expectsAt, here]
  | triggerIn index => cases here : es.triggerInExpects[index]? <;> simp [lookup, expectsAt, here]

theorem expectsAt_record (sent : Bool) (ref : ExpectRef) (command : List UInt8) (es : ExpectStream σ) :
    (record sent ref command es).expectsAt = es.expectsAt := by
  cases sent <;> rfl

/-- What showing a line does to them, and to what they have sent. -/
def viewNext (serial : Bool) : List Expect × List (List UInt8) → List UInt8 × Bool → List Expect × List (List UInt8)
  | ([], sent), _ => ([], sent)
  | (expect :: rest, sent), (line, newLine) =>
    if (expect.judge line newLine).2 && decide (0 < expect.command.length) then
      (if serial then rest else (expect.judge line newLine).1 :: rest, sent ++ [expect.command])
    else ((expect.judge line newLine).1 :: rest, sent)

def view (es : ExpectStream σ) (ref : ExpectRef) : List Expect × List (List UInt8) := (es.expectsAt ref, es.sentBy ref)

theorem getElem?_set_toList {expects rest : List Expect} {index expect} (judged : Expect)
    (here : expects[index]?.toList = expect :: rest) : (expects.set index judged)[index]?.toList = judged :: rest := by
  cases found : expects[index]? with
  | none => simp [found] at here
  | some old =>
    obtain ⟨inside, -⟩ := List.getElem?_eq_some_iff.mp found
    obtain ⟨-, rfl⟩ : old = expect ∧ [] = rest := by simpa [found] using here
    simp [inside]

theorem expectsAt_store {ref} {expect : Expect} {rest} (sent : Bool) (judged : Expect)
    (here : es.expectsAt ref = expect :: rest) :
    (store ref sent judged es).expectsAt ref = if (ref == .serial && sent) then rest else judged :: rest := by
  cases ref with
  | serial =>
    have all : es.serialExpects = expect :: rest := here
    cases sent <;> simp [store, expectsAt, all]
  | triggerOut | triggerIn => exact getElem?_set_toList judged here

theorem expectsAt_store_of_ne {ref other} (sent : Bool) (judged : Expect) (es : ExpectStream σ)
    (apart : other ≠ ref) : (store ref sent judged es).expectsAt other = es.expectsAt other := by
  cases ref with
  | serial =>
    cases other with
    | serial => exact absurd rfl apart
    | _ => rfl
  | triggerOut index =>
    cases other with
    | triggerOut place =>
      have differ : index ≠ place := fun same => apart (by rw [same])
      simp [store, expectsAt, getElem?_set_ne differ]
    | _ => rfl
  | triggerIn index =>
    cases other with
    | triggerIn place =>
      have differ : index ≠ place := fun same => apart (by rw [same])
      simp [store, expectsAt, getElem?_set_ne differ]
    | _ => rfl

theorem sentBy_store (ref other : ExpectRef) (sent : Bool) (judged : Expect) (es : ExpectStream σ) :
    (store ref sent judged es).sentBy other = es.sentBy other := by
  cases ref <;> rfl

theorem evaluate_view {ref} (ran : evaluate outlets line newLine ref es = (none, after)) (other : ExpectRef) :
    after.view other = if other = ref then viewNext (ref == .serial) (es.view ref) (line, newLine) else es.view other := by
  unfold evaluate at ran
  rw [lookup_eq_head] at ran
  cases here : es.expectsAt ref with
  | nil =>
    simp only [here, head?_nil, Prod.mk.injEq, true_and] at ran
    subst ran
    split_ifs with same
    · simp [view, viewNext, same, here]
    · rfl
  | cons expect rest =>
    simp only [here, head?_cons] at ran
    obtain ⟨⟨⟨sent, err⟩, judged, between⟩, processed⟩ : ∃ result, processExpect outlets expect line newLine es = result :=
      ⟨_, rfl⟩
    simp only [processed, Prod.mk.injEq] at ran
    obtain ⟨rfl, rfl⟩ := ran
    obtain ⟨shown, fired, running, streams, matched, rfl⟩ := processExpect_cases processed
    have still : ExpectStream.expectsAt { es with running, streams, matched } ref = expect :: rest := by
      rw [← here]
      cases ref <;> rfl
    rw [view, expectsAt_record, sentBy_record, sentBy_store]
    by_cases same : other = ref
    · subst same
      have command : judged.command = expect.command := by rw [shown, judge_command]
      have stored := expectsAt_store sent judged still
      rw [if_pos rfl, view, here, stored, command, viewNext, ← fired, shown]
      cases sent <;> cases other <;> simp [sentBy]
    · have stored := expectsAt_store_of_ne sent judged { es with running, streams, matched } same
      rw [if_neg same, stored, if_neg (fun both => same both.2.symm)]
      cases other <;> simp [view, expectsAt, sentBy]

/-! The loops of a handler, where nothing fails. -/

theorem evaluateAll_cons {ref refs} (ran : evaluateAll outlets line newLine (ref :: refs) es = (none, after)) :
    ∃ between, evaluate outlets line newLine ref es = (none, between) ∧
      evaluateAll outlets line newLine refs between = (none, after) := by
  unfold evaluateAll at ran
  obtain ⟨⟨err, between⟩, evaluated⟩ : ∃ result, evaluate outlets line newLine ref es = result := ⟨_, rfl⟩
  rw [evaluated] at ran
  cases err with
  | some err => simp at ran
  | none => exact ⟨between, evaluated, ran⟩

theorem handleFragments_cons {side} {fragment shown}
    (ran : handleFragments outlets side (fragment :: shown) es = (none, after)) :
    ∃ between, expectHandler outlets side fragment.1 fragment.2 es = (none, between) ∧
      handleFragments outlets side shown between = (none, after) := by
  unfold handleFragments at ran
  obtain ⟨⟨err, between⟩, handled⟩ : ∃ result, expectHandler outlets side fragment.1 fragment.2 es = result := ⟨_, rfl⟩
  simp only [handled] at ran
  cases err with
  | some err => simp at ran
  | none => exact ⟨between, handled, ran⟩

theorem startStreamHandler_cons {side} {buffer lineBuffer reads unread}
    (ran : startStreamHandler outlets side (buffer :: reads) lineBuffer es = (none, unread, after)) :
    (es.running = false ∧ unread = buffer :: reads ∧ after = es) ∨
    ∃ count streams between, es.running = true ∧ (outlets.echo side).write buffer es.streams = ((count, none), streams) ∧
      handleFragments outlets side (fragments lineBuffer false buffer).1 { es with streams } = (none, between) ∧
      startStreamHandler outlets side reads (fragments lineBuffer false buffer).2 between = (none, unread, after) := by
  unfold startStreamHandler at ran
  split_ifs at ran with running
  · obtain ⟨⟨⟨count, failed⟩, streams⟩, echoed⟩ : ∃ result, (outlets.echo side).write buffer es.streams = result := ⟨_, rfl⟩
    rw [echoed] at ran
    cases failed with
    | some err => simp at ran
    | none =>
      obtain ⟨⟨err, between⟩, handled⟩ : ∃ result, handleFragments outlets side
          (fragments lineBuffer false buffer).1 { es with streams } = result := ⟨_, rfl⟩
      simp only [handled] at ran
      cases err with
      | some err => simp at ran
      | none => exact .inr ⟨count, streams, between, running, echoed, handled, ran⟩
  · simp only [Prod.mk.injEq, true_and] at ran
    exact .inl ⟨by simpa using running, ran.1.symm, ran.2.symm⟩

theorem evaluateAll_view {refs} (distinct : refs.Nodup)
    (ran : evaluateAll outlets line newLine refs es = (none, after)) (other : ExpectRef) :
    after.view other = if other ∈ refs then viewNext (other == .serial) (es.view other) (line, newLine) else es.view other := by
  induction refs generalizing es with
  | nil =>
    simp only [evaluateAll, Prod.mk.injEq, true_and] at ran
    simp [ran]
  | cons ref refs ih =>
    obtain ⟨absent, distinct⟩ := nodup_cons.mp distinct
    obtain ⟨between, evaluated, ran⟩ := evaluateAll_cons ran
    rw [ih distinct ran, evaluate_view evaluated]
    by_cases same : other = ref
    · subst same
      simp [absent]
    · simp [same]

theorem outRefs_nodup (es : ExpectStream σ) : es.outRefs.Nodup := by
  refine nodup_cons.mpr ⟨by simp, nodup_range.map fun first second same => ?_⟩
  exact ExpectRef.triggerOut.inj same

/-- Everything a handler shows of the reads, from the line that is open. -/
def shownIn : List UInt8 → List (List UInt8) → List (List UInt8 × Bool)
  | _, [] => []
  | lineBuffer, buffer :: reads =>
    let (shown, left) := fragments lineBuffer false buffer
    shown ++ shownIn left reads

section
variable {ref : ExpectRef}

theorem processOutExpects_view (ran : processOutExpects outlets line newLine es = (none, after))
    (here : ∀ index, ref ≠ .triggerIn index) :
    after.view ref = viewNext (ref == .serial) (es.view ref) (line, newLine) := by
  rw [evaluateAll_view (outRefs_nodup es) ran ref]
  split_ifs with member
  · rfl
  · cases ref with
    | serial => exact absurd (mem_cons_self) member
    | triggerIn index => exact absurd rfl (here index)
    | triggerOut index =>
      have outside : es.triggerOutExpects.length ≤ index := by simpa [outRefs] using member
      simp [view, expectsAt, viewNext, outside]

theorem handleFragments_view {shown} (ran : handleFragments outlets .output shown es = (none, after))
    (here : ∀ index, ref ≠ .triggerIn index) :
    after.view ref = shown.foldl (viewNext (ref == .serial)) (es.view ref) := by
  induction shown generalizing es with
  | nil =>
    simp only [handleFragments, Prod.mk.injEq, true_and] at ran
    rw [ran]
    rfl
  | cons fragment shown ih =>
    obtain ⟨between, handled, ran⟩ := handleFragments_cons ran
    rw [ih ran, processOutExpects_view handled here, foldl_cons]

/-- The output handler's run, seen from one of its expects: a fold over what it has shown of the
reads it has made. These are all of them unless the session was ended. -/
theorem startStreamHandler_view (ref : ExpectRef) {reads unread lineBuffer}
    (ran : startStreamHandler outlets .output reads lineBuffer es = (none, unread, after))
    (here : ∀ index, ref ≠ .triggerIn index) : ∃ made, reads = made ++ unread ∧ (unread = [] ∨ after.running = false) ∧
      after.view ref = (shownIn lineBuffer made).foldl (viewNext (ref == .serial)) (es.view ref) := by
  induction reads generalizing lineBuffer es with
  | nil =>
    simp only [startStreamHandler] at ran
    obtain ⟨rfl, rfl⟩ := ran
    exact ⟨[], rfl, .inl rfl, rfl⟩
  | cons buffer reads ih =>
    obtain ⟨running, rfl, rfl⟩ | ⟨-, streams, between, -, -, handled, ran⟩ := startStreamHandler_cons ran
    · exact ⟨[], rfl, .inr running, rfl⟩
    · obtain ⟨made, rfl, ended, seen⟩ := ih ran
      refine ⟨buffer :: made, rfl, ended, ?_⟩
      have echo : view { es with streams } ref = es.view ref := by cases ref <;> rfl
      rw [seen, handleFragments_view handled here, echo, shownIn, foldl_append]

end

end ExpectStream

/-- The lines among what is shown that have ended. -/
def completeLines (shown : List (List UInt8 × Bool)) : List (List UInt8) := (shown.filter snd).map fst

theorem completeLines_fragments (line : List UInt8) (grown : Bool) (buffer : List UInt8) :
    completeLines (fragments line grown buffer).1 = (split endsLine line buffer).1 ∧
      (fragments line grown buffer).2 = (split endsLine line buffer).2 := by
  induction buffer generalizing line grown with
  | nil => cases grown <;> simp [fragments, completeLines, split]
  | cons byte buffer ih =>
    by_cases ending : endsLine byte
    · obtain ⟨lines, left⟩ := ih [] false
      simp only [completeLines] at lines
      simp [fragments, split, ending, completeLines, lines, left]
    · simpa [fragments, split, ending] using ih (line ++ [byte]) true

theorem completeLines_shownIn (lineBuffer : List UInt8) (reads : List (List UInt8)) :
    completeLines (shownIn lineBuffer reads) = (split endsLine lineBuffer reads.flatten).1 := by
  induction reads generalizing lineBuffer with
  | nil => rfl
  | cons buffer reads ih =>
    obtain ⟨lines, left⟩ := completeLines_fragments lineBuffer false buffer
    have rest := ih (fragments lineBuffer false buffer).2
    simp only [completeLines] at lines rest
    rw [flatten_cons, split_append, shownIn, completeLines, filter_append, map_append, lines, rest,
      left]

namespace Expect

def ends (expect : Expect) (line : List UInt8) : Bool := expect.endPattern.all fun pattern => pattern line

/-- The blocks that begin at a line with the start pattern, outside a block, and end at the first
line from there on with the end pattern. -/
def blocks (start ends : Pattern) : Bool → List (List UInt8) → Nat
  | _, [] => 0
  | inside, line :: lines =>
    if inside || start line then
      if ends line then blocks start ends false lines + 1 else blocks start ends true lines
    else blocks start ends false lines

def timesMatched (expect : Expect) (lines : List (List UInt8)) : Nat :=
  match expect.endPattern with
  | none => lines.countP expect.startPattern
  | some pattern => blocks expect.startPattern pattern false lines

theorem timesMatched_eq (expect : Expect) (lines : List (List UInt8)) :
    expect.timesMatched lines = blocks expect.startPattern expect.ends false lines := by
  unfold timesMatched
  cases pattern : expect.endPattern with
  | some ending =>
    have same : expect.ends = ending := by
      funext line
      simp [ends, pattern]
    rw [same]
  | none =>
    have always (line : List UInt8) : expect.ends line = true := by simp [ends, pattern]
    induction lines with
    | nil => rfl
    | cons line lines ih =>
      by_cases starts : expect.startPattern line <;> simp [blocks, starts, always, ih]

/-- How often a command goes out: the expect stays active after the first start. -/
def fires (start ends : Pattern) : Bool → List (List UInt8) → Nat
  | _, [] => 0
  | active, line :: lines => (if (active || start line) && ends line then 1 else 0) + fires start ends (active || start line) lines

def inBlock (start ends : Pattern) (inside : Bool) (lines : List (List UInt8)) : Bool :=
  lines.foldl (fun inside line => (inside || start line) && !ends line) inside

section
variable (start ends : Pattern)

theorem blocks_cons (inside : Bool) (line : List UInt8) (lines : List (List UInt8)) :
    blocks start ends inside (line :: lines) =
      ((inside || start line) && ends line).toNat + blocks start ends ((inside || start line) && !ends line) lines := by
  rw [blocks]
  cases inside || start line <;> cases ends line <;> simp [Nat.add_comm]

theorem fires_cons (active : Bool) (line : List UInt8) (lines : List (List UInt8)) :
    fires start ends active (line :: lines) =
      ((active || start line) && ends line).toNat + fires start ends (active || start line) lines := by
  rw [fires]
  cases (active || start line) && ends line <;> rfl

variable {active inside : Bool}

section

variable (within : inside = true → active = true)
include within

theorem within_next (line : List UInt8)
    (opened : ((inside || start line) && !ends line) = true) : (active || start line) = true := by
  have started : inside = true ∨ start line = true := by simpa using (Bool.and_eq_true_iff.mp opened).1
  obtain already | starts := started
  · rw [within already, Bool.true_or]
  · rw [starts, Bool.or_true]

theorem matched_le_fired (line : List UInt8) :
    ((inside || start line) && ends line).toNat ≤ ((active || start line) && ends line).toNat := by
  cases inside with
  | true => rw [within rfl]
  | false => cases active <;> cases start line <;> simp

theorem matched_eq_fired_iff (line : List UInt8) :
    ((active || start line) && ends line).toNat = ((inside || start line) && ends line).toNat ↔
      (active = true → inside = false → ends line = true → start line = true) := by
  cases inside with
  | true => simp [within rfl]
  | false => cases active <;> cases start line <;> cases ends line <;> decide

theorem blocks_le_fires (lines : List (List UInt8)) :
    blocks start ends inside lines ≤ fires start ends active lines := by
  induction lines generalizing active inside with
  | nil => exact Nat.le_refl _
  | cons line lines ih =>
    rw [blocks_cons, fires_cons]
    exact Nat.add_le_add (matched_le_fired start ends within line) (ih (within_next start ends within line))

/-- The two counts are the same exactly if, once there was a start, no line outside a block has
the end pattern without the start pattern. -/
theorem fires_eq_blocks_iff (lines : List (List UInt8)) :
    fires start ends active lines = blocks start ends inside lines ↔
      ∀ before line after, lines = before ++ line :: after → (active || before.any start) = true →
        inBlock start ends inside before = false → ends line = true → start line = true := by
  induction lines generalizing active inside with
  | nil => simp [fires, blocks]
  | cons line lines ih =>
    have first := matched_eq_fired_iff start ends within line
    have rest := ih (within_next start ends within line)
    have most := matched_le_fired start ends within line
    have fewer := blocks_le_fires start ends (within_next start ends within line) lines
    -- neither count can make up later for what it lacks here
    have both : fires start ends active (line :: lines) = blocks start ends inside (line :: lines) ↔
        ((active || start line) && ends line).toNat = ((inside || start line) && ends line).toNat ∧
          fires start ends (active || start line) lines = blocks start ends ((inside || start line) && !ends line) lines := by
      rw [blocks_cons, fires_cons]
      omega
    rw [both, first, rest, forall_cut_cons]
    simp [← Bool.or_assoc, inBlock]

end

end

theorem judge_complete {expect : Expect} (whole : expect.onNewLine = true) (line : List UInt8) :
    expect.judge line true = ({ expect with active := expect.active || expect.startPattern line },
      (expect.active || expect.startPattern line) && expect.ends line) := by
  obtain ⟨startPattern, -, -, onNewLine, -, active⟩ := expect
  cases active <;> cases starts : startPattern line <;> simp [judge, ends, starts]

theorem judge_growing {expect : Expect} (whole : expect.onNewLine = true) (line : List UInt8) :
    expect.judge line false = (expect, false) := by
  simp [judge, whole]

end Expect

namespace ExpectStream

theorem foldl_trigger {expect : Expect} (whole : expect.onNewLine = true) (answers : expect.command ≠ [])
    (shown : List (List UInt8 × Bool)) (sent : List (List UInt8)) :
    (shown.foldl (viewNext false) ([expect], sent)).2 =
      sent ++ List.replicate (fires expect.startPattern expect.ends expect.active (completeLines shown)) expect.command := by
  induction shown generalizing expect sent with
  | nil => simp [completeLines, fires]
  | cons fragment shown ih =>
    obtain ⟨line, newLine⟩ := fragment
    have long := length_pos_iff.mpr answers
    cases newLine with
    | false =>
      have skipped : viewNext false ([expect], sent) (line, false) = ([expect], sent) := by
        simp [viewNext, judge_growing whole]
      rw [foldl_cons, skipped, ih whole answers]
      simp [completeLines]
    | true =>
      have next (sent : List (List UInt8)) :
          (shown.foldl (viewNext false) ([{ expect with active := expect.active || expect.startPattern line }], sent)).2 =
            sent ++ List.replicate (fires expect.startPattern expect.ends
              (expect.active || expect.startPattern line) (completeLines shown)) expect.command :=
        @ih { expect with active := expect.active || expect.startPattern line } whole answers sent
      have lines : completeLines ((line, true) :: shown) = line :: completeLines shown := by simp [completeLines]
      rw [foldl_cons, lines, fires, viewNext, judge_complete whole]
      cases fired : (expect.active || expect.startPattern line) && expect.ends line with
      | false => simpa using next sent
      | true =>
        simp only [long, decide_true, Bool.and_true, if_true, Bool.false_eq_true, if_false, next]
        simp [Nat.add_comm 1, replicate_succ]

/-- Every line outside a block that has the end pattern, once there was a start, also has the
start pattern. Without an end pattern every line has it. -/
def Rearmed (expect : Expect) (lines : List (List UInt8)) : Prop :=
  ∀ before line after, lines = before ++ line :: after → before.any expect.startPattern = true →
    inBlock expect.startPattern expect.ends false before = false → expect.ends line = true →
    expect.startPattern line = true

variable {reads unread : List (List UInt8)}

/-- Of the lines that the output handler has read, the trigger's command was sent as often as it
matched exactly if the trigger never fires again without being started again. -/
theorem trigger_once_iff {es after : ExpectStream σ} {index : Nat} {expect : Expect}
    (present : es.triggerOutExpects[index]? = some expect) (whole : expect.onNewLine = true)
    (answers : expect.command ≠ []) (fresh : expect.active = false)
    (ran : startStreamHandler outlets .output reads [] es = (none, unread, after)) :
    ∃ made, reads = made ++ unread ∧ (unread = [] ∨ after.running = false) ∧
      ((after.sentBy (.triggerOut index)).length = (es.sentBy (.triggerOut index)).length +
          expect.timesMatched (split endsLine [] made.flatten).1 ↔
        Rearmed expect (split endsLine [] made.flatten).1) := by
  obtain ⟨made, rfl, ended, seen⟩ := startStreamHandler_view (.triggerOut index) ran (by simp)
  refine ⟨made, rfl, ended, ?_⟩
  have start : es.view (.triggerOut index) = ([expect], es.sentBy (.triggerOut index)) := by
    simp [view, expectsAt, present]
  have sent : after.sentBy (.triggerOut index) = es.sentBy (.triggerOut index) ++
      List.replicate (fires expect.startPattern expect.ends false (split endsLine [] made.flatten).1)
        expect.command := by
    have fold := foldl_trigger whole answers (shownIn [] made) (es.sentBy (.triggerOut index))
    rw [← start, completeLines_shownIn, fresh] at fold
    exact (congrArg snd seen).trans fold
  rw [sent, timesMatched_eq, length_append, length_replicate, Nat.add_left_cancel_iff,
    fires_eq_blocks_iff _ _ (by simp)]
  simp [Rearmed]

def plainOutlets : Outlets (List UInt8) Unit := ⟨plainSink, plainSink⟩

def oneTrigger (endPattern : Option Pattern) : ExpectStream (List UInt8) :=
  { triggerOutExpects := [{ startPattern := (· == [97]), endPattern, command := [33], onNewLine := true }]
    running := true, streams := [] }

/-- The line `b` behind the one match is answered as well; with an end pattern it is the second `z`. -/
theorem fires_again :
    ((startStreamHandler plainOutlets .output [[97, 10, 98], [10]] [] (oneTrigger none)).2.2.sentBy (.triggerOut 0)).length = 2 ∧
      ((startStreamHandler plainOutlets .output [[97, 10, 122, 10, 122, 10]] []
        (oneTrigger (some (· == [122])))).2.2.sentBy (.triggerOut 0)).length = 2 ∧
      (oneTrigger none).triggerOutExpects.map (·.timesMatched [[97], [98]]) = [1] ∧
      (oneTrigger (some (· == [122]))).triggerOutExpects.map (·.timesMatched [[97], [122], [122]]) = [1] := by
  decide

theorem trigger_once_iff_twice :
    ((startStreamHandler plainOutlets .output [[97, 10, 97], [10]] [] (oneTrigger none)).2.2.sentBy (.triggerOut 0)).length =
      ((oneTrigger none).sentBy (.triggerOut 0)).length + 2 := by
  obtain ⟨made, read, -, once⟩ := @trigger_once_iff _ _ plainOutlets [[97, 10, 97], [10]] [] (oneTrigger none) _ 0 _
    rfl rfl (by decide) rfl rfl
  obtain rfl : made = [[97, 10, 97], [10]] := by simpa using read.symm
  refine once.mpr fun before line after cut _ _ _ => ?_
  have among : line ∈ [[97], [97]] := by
    have all : [[97], [97]] = before ++ line :: after := cut
    rw [all]
    simp
  simpa using among

end ExpectStream

end MycsCommon.Streams
