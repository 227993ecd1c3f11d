import MycsCommon.Proofs.FilterBytes
import MycsCommon.Run.Cli

/-! What the readers of a command's output receive. The way the stream is cut into writes does
not matter; what is left is in which order the writers are closed. -/

namespace MycsCommon.Run
open Streams Buffers Streams.Filter FilterWriter Output

variable {buffers : Buffers} {writes : List (List UInt8)} {output : Output} {ready : Buffers → Prop}
  {add : List UInt8 → Buffers → Buffers}

def Output.writer (output : Output) : Streams.Writer Buffers OutputError := ⟨fun data buffers => output.write data buffers⟩

theorem copyOutput_takes (takes : Takes output.writer ready add) (writes : List (List UInt8)) (able : ready buffers) :
    copyOutput output writes buffers = add writes.flatten buffers := by
  induction writes generalizing buffers with
  | nil => exact (takes.nil buffers).symm
  | cons data writes ih =>
    have written : output.write data buffers = ((data.length, none), add data buffers) := takes.write data buffers able
    simp only [copyOutput, written, ne_eq, not_true_eq_false, if_false]
    rw [ih (takes.ready data buffers able), takes.append]
    rfl

/-- Data for the caller's buffer and, if it is taken, the pipe. -/
def Buffers.receive (buffers : Buffers) (taken : Bool) (data : List UInt8) : Buffers :=
  { buffers with
    original := buffers.original ++ data
    piped := if taken then buffers.piped ++ data else buffers.piped }

def target (taken : Bool) : Output := if taken then .multi .original .pipe else .original

theorem takes_target (taken : Bool) :
    Takes (target taken).writer (fun buffers => taken = true → buffers.pipeClosed = false)
      (fun data buffers => buffers.receive taken data) := by
  cases taken with
  | false =>
    refine ⟨fun _ _ _ => rfl, by simp, fun buffers => ?_, fun first second buffers => ?_⟩
    · simp [receive]
    · simp [receive]
  | true =>
    refine ⟨fun data buffers opened => ?_, fun _ _ opened => opened, fun buffers => ?_, fun first second buffers => ?_⟩
    · simp [Output.writer, target, Output.write, opened rfl, Buffers.receive]
    · simp [receive]
    · simp [receive]

/-- Data for the filter, which lets something of it out. -/
def Buffers.filter (buffers : Buffers) (taken : Bool) (data : List UInt8) : Buffers :=
  { buffers.receive taken (buffers.filterWriter.feedAll data).2 with filterWriter := (buffers.filterWriter.feedAll data).1 }

theorem takes_filtered (taken : Bool) :
    Takes (filtered (target taken)).writer
      (fun buffers => (taken = true → buffers.pipeClosed = false) ∧ buffers.filterWriter.filter.filterType ≠ .undefined)
      (fun data buffers => buffers.filter taken data) := by
  refine ⟨fun data buffers able => ?_, fun data buffers able => ?_, fun buffers => ?_, fun first second buffers => ?_⟩
  · have fed := FilterWriter.write_feedAll (takes_target taken) data able.2 able.1
    simp only [writer] at fed
    simp [Output.writer, Output.write, fed, Buffers.filter]
  · exact ⟨able.1, feedAll_known data able.2⟩
  · simp [Buffers.filter, Buffers.receive, FilterWriter.feedAll]
  · cases taken <;> simp [Buffers.filter, Buffers.receive, FilterWriter.feedAll_append]

theorem takes_pipeOutside :
    Takes (multi (.filtered .original) .pipe).writer
      (fun buffers => buffers.pipeClosed = false ∧ buffers.filterWriter.filter.filterType ≠ .undefined)
      (fun data buffers => { buffers.filter false data with piped := buffers.piped ++ data }) := by
  refine ⟨fun data buffers able => ?_, fun data buffers able => ?_, fun buffers => ?_, fun first second buffers => ?_⟩
  · have filtered : (Output.filtered .original).write data buffers = ((data.length, none), buffers.filter false data) :=
      (takes_filtered false).write data buffers ⟨by simp, able.2⟩
    simp [Output.writer, Output.write.eq_3, Output.write.eq_2, filtered, Buffers.filter, Buffers.receive, able.1]
  · exact ⟨able.1, feedAll_known data able.2⟩
  · simp [Buffers.filter, Buffers.receive, FilterWriter.feedAll]
  · simp [Buffers.filter, Buffers.receive, FilterWriter.feedAll_append]

theorem write_undefined (outputBuffer : Output) (data : List UInt8)
    (unset : buffers.filterWriter.filter.filterType = .undefined) :
    (filtered outputBuffer).write data buffers = ((0, some .unknownFilterType), buffers) := by
  simp [Output.write, FilterWriter.write, unset, passedOn]

theorem copyOutput_refused {err} (writes : List (List UInt8))
    (refused : ∀ data, output.write data buffers = ((0, some err), buffers)) :
    copyOutput output writes buffers = buffers := by
  cases writes with
  | nil => rfl
  | cons data writes => simp [copyOutput, refused]

theorem copyOutput_filtered (taken : Bool) (writes : List (List UInt8)) (opened : buffers.pipeClosed = false) :
    copyOutput (.filtered (target taken)) writes buffers = buffers.filter taken writes.flatten := by
  by_cases unset : buffers.filterWriter.filter.filterType = .undefined
  · rw [copyOutput_refused writes (fun data => write_undefined _ data unset)]
    simp [Buffers.filter, Buffers.receive, FilterWriter.feedAll_undefined _ unset]
  · exact copyOutput_takes (takes_filtered taken) writes ⟨fun _ => opened, unset⟩

theorem copyOutput_pipeOutside (writes : List (List UInt8)) (opened : buffers.pipeClosed = false) :
    copyOutput (.multi (.filtered .original) .pipe) writes buffers =
      { buffers.filter false writes.flatten with
        piped := if buffers.filterWriter.filter.filterType = .undefined then buffers.piped
          else buffers.piped ++ writes.flatten } := by
  by_cases unset : buffers.filterWriter.filter.filterType = .undefined
  · have refused (data : List UInt8) : (Output.multi (.filtered .original) .pipe).write data buffers =
        ((0, some .unknownFilterType), buffers) := by
      simp [write.eq_3, write_undefined .original data unset]
    rw [copyOutput_refused writes refused]
    simp [Buffers.filter, Buffers.receive, FilterWriter.feedAll_undefined _ unset, unset]
  · rw [copyOutput_takes takes_pipeOutside writes ⟨opened, unset⟩, if_neg unset]

theorem closeFilter_received (taken : Bool) (closed : taken = true → buffers.pipeClosed = true) :
    (closeFilter (some (target taken)) buffers).original = buffers.original ++ buffers.filterWriter.heldBack ∧
      (closeFilter (some (target taken)) buffers).piped = buffers.piped := by
  unfold closeFilter FilterWriter.close FilterWriter.heldBack
  cases buffers.filterWriter.filter.state with
  | stateExclude => simp
  | stateInclude =>
    cases taken with
    | false => simp [target, Output.write]
    | true => simp [target, Output.write, closed rfl]

namespace Setup

variable (original stream : List UInt8)

/-- What the caller's buffer is to hold after the run. -/
def expected (setup : Setup) : List UInt8 :=
  original ++ match setup.filter? with
    | some applied => applied.passes stream
    | none => stream

def expectedPiped : Setup → List UInt8
  | plain | filter _ => []
  | pipe | filterThenPipe _ => stream
  | pipeThenFilter applied => applied.passes stream

def piped : Setup → List UInt8
  | plain | filter _ => []
  | pipe => stream
  | filterThenPipe applied => if applied.filterType = .undefined then [] else stream
  | pipeThenFilter applied => (applied.fed stream).2

/-- The writers of a setup that has been prepared. -/
def prepared : Setup → Cli
  | plain => {}
  | filter _ =>
    { outputBuffer := .filtered .original, outUnfilteredBuffer := some .original, outFilteredWriter := some .original }
  | pipe => { outputBuffer := .multi .original .pipe, outBuffer := some .original, outPipeWriter := true }
  | filterThenPipe _ =>
    { outputBuffer := .multi (.filtered .original) .pipe, outBuffer := some (.filtered .original), outPipeWriter := true
      outUnfilteredBuffer := some .original, outFilteredWriter := some .original }
  | pipeThenFilter _ =>
    { outputBuffer := .filtered (.multi .original .pipe), outBuffer := some .original, outPipeWriter := true
      outUnfilteredBuffer := some (.multi .original .pipe), outFilteredWriter := some (.multi .original .pipe)
      filteredAll := true }

theorem prepare_eq (setup : Setup) : setup.prepare {} = some setup.prepared := by
  cases setup <;> rfl

theorem runCommand_copied (setup : Setup) (writes : List (List UInt8)) {copied}
    (copying : copyOutput setup.prepared.outputBuffer writes (setup.buffers original) = copied) :
    setup.prepared.runCommand writes (setup.buffers original) = cleanUp setup.prepared copied := by
  rw [Cli.runCommand, copying]

theorem runCommand_received (setup : Setup) (writes : List (List UInt8)) :
    (setup.prepared.runCommand writes (setup.buffers original)).2.original = setup.expected original writes.flatten ∧
      (setup.prepared.runCommand writes (setup.buffers original)).2.piped = setup.piped writes.flatten := by
  cases setup with
  | plain =>
    rw [runCommand_copied original plain writes (copyOutput_takes (takes_target false) writes (by simp))]
    simp [cleanUp, prepared, receive, buffers, expected, filter?, piped]
  | pipe =>
    rw [runCommand_copied original pipe writes (copyOutput_takes (takes_target true) writes (by simp [buffers]))]
    simp [cleanUp, prepared, receive, buffers, expected, filter?, piped]
  | filter applied =>
    rw [runCommand_copied original (filter applied) writes (copyOutput_filtered false writes rfl)]
    obtain ⟨kept, piped_eq⟩ := @closeFilter_received
      (((filter applied).buffers original).filter false writes.flatten) false (by simp)
    refine ⟨kept.trans ?_, piped_eq.trans ?_⟩
    · simp [Buffers.filter, Buffers.receive, buffers, expected, filter?, Filter.passes_eq, Filter.fed_eq]
    · simp [Buffers.filter, Buffers.receive, buffers, piped]
  | filterThenPipe applied =>
    rw [runCommand_copied original (filterThenPipe applied) writes (copyOutput_pipeOutside writes rfl)]
    obtain ⟨kept, piped_eq⟩ := @closeFilter_received
      { ((filterThenPipe applied).buffers original).filter false writes.flatten with
        piped := if applied.filterType = .undefined then [] else [] ++ writes.flatten
        pipeClosed := true } false (by simp)
    refine ⟨kept.trans ?_, piped_eq.trans ?_⟩
    · simp [Buffers.filter, Buffers.receive, buffers, expected, filter?, Filter.passes_eq, Filter.fed_eq]
    · simp [piped]
  | pipeThenFilter applied =>
    rw [runCommand_copied original (pipeThenFilter applied) writes (copyOutput_filtered true writes rfl)]
    obtain ⟨kept, piped_eq⟩ := @closeFilter_received
      { ((pipeThenFilter applied).buffers original).filter true writes.flatten with pipeClosed := true } true (by simp)
    refine ⟨kept.trans ?_, piped_eq.trans ?_⟩
    · simp [Buffers.filter, Buffers.receive, buffers, expected, filter?, Filter.passes_eq, Filter.fed_eq]
    · simp [Buffers.filter, Buffers.receive, buffers, piped, filter?, Filter.fed_eq]

/-- Every reader has received its stream, and the writers are again as they were before the
filter and the pipe. -/
structure Delivered (setup : Setup) (writes : List (List UInt8)) (cli : Cli) (received : Buffers) : Prop where
  original : received.original = setup.expected original writes.flatten
  piped : received.piped = setup.expectedPiped writes.flatten
  restored : cli = {}

/-- What the pipe gets is what it is to get unless the filter is under it and holds back a last
line, or over it and refuses every write. -/
theorem piped_eq_iff (setup : Setup) :
    setup.piped stream = setup.expectedPiped stream ↔
      (∀ applied, setup = pipeThenFilter applied → (applied.fed stream).1.heldBack = []) ∧
        (∀ applied, setup = filterThenPipe applied → applied.filterType = .undefined → stream = []) := by
  cases setup with
  | plain | filter | pipe => simp [piped, expectedPiped]
  | filterThenPipe applied =>
    by_cases unset : applied.filterType = .undefined
    · simp [piped, expectedPiped, unset]
    · simp [piped, expectedPiped, unset]
  | pipeThenFilter applied => simp [piped, expectedPiped, passes_eq]

theorem delivered_iff (setup : Setup) (writes : List (List UInt8)) :
    (∃ cli, setup.prepare {} = some cli ∧
      let (after, received) := cli.runCommand writes (setup.buffers original)
      Delivered original setup writes after received) ↔
      (∀ applied, setup = pipeThenFilter applied → (applied.fed writes.flatten).1.heldBack = []) ∧
        (∀ applied, setup = filterThenPipe applied → applied.filterType = .undefined → writes.flatten = []) := by
  obtain ⟨kept, piped⟩ := runCommand_received original setup writes
  rw [← piped_eq_iff, prepare_eq]
  constructor
  · rintro ⟨cli, prepared, delivered⟩
    obtain rfl := Option.some.inj prepared
    exact piped.symm.trans delivered.piped
  · intro same
    refine ⟨_, rfl, kept, piped.trans same, ?_⟩
    cases setup <;> rfl

/-- A pipe under a filter that drops the lines with a `#`: the last line has no newline and
reaches the caller's buffer only. -/
theorem last_line_lost :
    let setup := pipeThenFilter (addExcludePattern (fun line => line.contains 35) {})
    (setup.prepare {}).map (fun cli =>
        let (_, received) := cli.runCommand [[97, 10], [98]] (setup.buffers [])
        (received.original, received.piped, setup.expectedPiped [97, 10, 98])) =
      some ([97, 10, 98], [97, 10], [97, 10, 98]) := by
  decide

end Setup

end MycsCommon.Run
