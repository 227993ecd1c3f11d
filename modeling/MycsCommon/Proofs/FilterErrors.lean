import MycsCommon.Proofs.FilterReset

/-! Which errors of the sink a filter passes on. It loses that of the write which follows the
switch to passing everything, and that of the line written when it is closed. -/

namespace MycsCommon.Streams
open Streams.Filter FilterWriter

variable {σ ε : Type} {sink : Writer σ ε}

/-- The contract of an `io.Writer`: what is not taken whole is an error. -/
def WholeOrError (sink : Writer σ ε) : Prop :=
  ∀ data output, (sink.write data output).1.2 = none → (sink.write data output).1.1 = data.length

def watched (sink : Writer σ ε) : Writer (σ × Bool) ε :=
  ⟨fun data (output, failed) =>
    let ((count, err), output) := sink.write data output
    ((count, err), output, failed || err.isSome)⟩

/-- `Close` with what it returns, which is nil on every path. -/
def closeReturning (sink : Writer σ ε) (writer : FilterWriter) (output : σ) : Option (FilterError ε) × FilterWriter × σ :=
  (none, FilterWriter.close sink writer output)

/-- A call during which the sink failed returns an error, and so does one that reports less
than the size it was given. -/
def InOrder (size : Nat) : (Nat × Option (FilterError ε)) × FilterWriter × σ × Bool → Prop
  | ((count, err), _, _, failed) => (failed = true → err ≠ none) ∧ (count < size → err ≠ none)

def WriteReported (sink : Writer σ ε) (data : List UInt8) (writer : FilterWriter) (output : σ) : Prop :=
  InOrder data.length (write (watched sink) data writer (output, false))

def CloseReported (sink : Writer σ ε) (writer : FilterWriter) (output : σ) : Prop :=
  let (err, _, _, failed) := closeReturning (watched sink) writer (output, false)
  failed = true → err ≠ none

/-- The data behind the first line that has lines included. -/
def Filter.opening (filter : Filter) : List UInt8 → List UInt8 → Option (List UInt8)
  | _, [] => none
  | held, byte :: rest =>
    if byte = newline then
      if isMatch filter.includeAfterPatterns held then some rest else filter.opening [] rest
    else filter.opening (held ++ [byte]) rest

/-- The filter is about to pass everything, and the sink fails on the rest of the data. -/
def LosesWrite (sink : Writer σ ε) (data : List UInt8) (writer : FilterWriter) (output : σ) : Prop :=
  writer.filter.filterType = .applyFilters ∧ writer.filter.state = .stateExclude ∧
    writer.filter.hasExcludeAfterPatterns = false ∧
    ∃ rest, writer.filter.opening writer.currentLine data = some rest ∧ (sink.write rest output).1.2 ≠ none

/-- The sink fails on the line that was held back. -/
def LosesClose (sink : Writer σ ε) (writer : FilterWriter) (output : σ) : Prop :=
  writer.filter.state = .stateInclude ∧ (sink.write writer.currentLine output).1.2 ≠ none

theorem closeReported_iff (sink : Writer σ ε) (writer : FilterWriter) (output : σ) :
    CloseReported sink writer output ↔ ¬ LosesClose sink writer output := by
  unfold CloseReported LosesClose closeReturning FilterWriter.close
  cases writer.filter.state with
  | stateExclude => simp
  | stateInclude =>
    obtain ⟨⟨⟨count, err⟩, after⟩, written⟩ : ∃ result, sink.write writer.currentLine output = result := ⟨_, rfl⟩
    cases err <;> simp [watched, written]

section
variable {filter : Filter}

theorem Filter.Flagged.ended (flagged : filter.Flagged) (line : List UInt8) : (filter.endLine line).2.1.Flagged := by
  obtain ⟨ended, _⟩ | ⟨ended, _⟩ | ⟨ended, _⟩ := endLine_cases flagged line <;> rw [ended] <;> exact ⟨flagged.1, flagged.2⟩

end

section
variable {writer : FilterWriter} {size : Nat} {data : List UInt8} {kept : Bool} {filter : Filter} {onward : Onward}

theorem inOrder_line (ended : writer.filter.endLine writer.currentLine = (kept, filter, onward)) (judging : onward ≠ .passed)
    (goes : onward = .nextLine → ∀ between, InOrder size (writeLines (watched sink) size data ⟨[], filter⟩ (between, false)))
    (output : σ) : InOrder size (writeLines (watched sink) size (newline :: data) writer (output, false)) := by
  obtain ⟨⟨⟨count, err⟩, after⟩, written⟩ : ∃ result, sink.write (writer.currentLine ++ [newline]) output = result := ⟨_, rfl⟩
  cases onward with
  | passed => exact absurd rfl judging
  | dropped => cases kept <;> cases err <;> simp [writeLines, ended, watched, written, InOrder]
  | nextLine =>
    cases kept with
    | false => simpa [writeLines, ended] using goes rfl output
    | true =>
      cases err with
      | none => simpa [writeLines, ended, watched, written] using goes rfl after
      | some err => simp [writeLines, ended, watched, written, InOrder]

end

/-- What the loop of a `Write` returns is in order unless it comes to pass the rest of the data
to a sink that fails on it. -/
theorem writeLines_reported (size : Nat) (data : List UInt8) {writer} (flagged : writer.filter.Flagged) (output : σ) :
    InOrder size (writeLines (watched sink) size data writer (output, false)) ↔
      ¬ (writer.filter.state = .stateExclude ∧ writer.filter.hasExcludeAfterPatterns = false ∧
        ∃ rest, writer.filter.opening writer.currentLine data = some rest ∧ (sink.write rest output).1.2 ≠ none) := by
  induction data generalizing writer output with
  | nil => simp [writeLines, opening, InOrder]
  | cons byte data ih =>
    by_cases ending : byte = newline
    · subst ending
      obtain ⟨ended, same⟩ | ⟨ended, including, -, none⟩ | ⟨ended, excluding, reached, untold, none⟩ :=
        endLine_cases flagged writer.currentLine
      · have continued (between : σ) :=
          @ih ⟨[], { writer.filter with state := writer.filter.next writer.filter.state writer.currentLine }⟩
            ⟨flagged.1, flagged.2⟩ between
        cases state : writer.filter.state with
        | stateInclude =>
          -- if the state changes there is an exclude-after pattern
          have goes (between : σ) : InOrder size (writeLines (watched sink) size data
              ⟨[], { writer.filter with state := writer.filter.next writer.filter.state writer.currentLine }⟩
              (between, false)) := by
            refine (continued between).mpr fun loses => ?_
            obtain ⟨excluded, untold, -⟩ := loses
            obtain same | told := same
            · exact absurd (state.symm.trans (same.symm.trans excluded)) (by simp)
            · simp [told] at untold
          exact iff_of_true (inOrder_line ended (by simp) (fun _ => goes) output) (by simp)
        | stateExclude =>
          have onward : writeLines (watched sink) size (newline :: data) writer (output, false) =
              writeLines (watched sink) size data
                ⟨[], { writer.filter with state := writer.filter.next writer.filter.state writer.currentLine }⟩
                (output, false) := by
            simp [writeLines, ended, state]
          rw [onward, continued output]
          obtain same | told := same
          · have closed : isMatch writer.filter.includeAfterPatterns writer.currentLine = false := by
              simpa [state, next] using same
            rw [same]
            change ¬ (writer.filter.state = _ ∧ writer.filter.hasExcludeAfterPatterns = _ ∧
              ∃ rest, writer.filter.opening [] data = some rest ∧ _) ↔ _
            simp [opening, closed, state]
          · simp [told]
      · exact iff_of_true (inOrder_line ended (by simp) (by simp) output) (by simp [including])
      · obtain ⟨⟨⟨count, err⟩, after⟩, written⟩ : ∃ result, sink.write data output = result := ⟨_, rfl⟩
        have opens : isMatch writer.filter.includeAfterPatterns writer.currentLine = true := by
          simpa [next] using reached
        cases err <;> simp [writeLines, ended, watched, written, InOrder, opening, excluding, untold, opens]
    · have continued := @ih { writer with currentLine := writer.currentLine ++ [byte] } flagged output
      simpa [writeLines, opening, ending] using continued

theorem writeReported_iff (contract : WholeOrError sink) (data : List UInt8) {writer}
    (flagged : writer.filter.Flagged) (output : σ) :
    WriteReported sink data writer output ↔ ¬ LosesWrite sink data writer output := by
  unfold WriteReported LosesWrite write
  cases type : writer.filter.filterType with
  | undefined | blackHole => simp [InOrder]
  | passThru =>
    have whole := contract data output
    obtain ⟨⟨⟨count, err⟩, after⟩, written⟩ : ∃ result, sink.write data output = result := ⟨_, rfl⟩
    rw [written] at whole
    cases err with
    | none =>
      obtain rfl : count = data.length := whole rfl
      simp [InOrder, watched, written]
    | some err => simp [InOrder, watched, written]
  | applyFilters =>
    rw [writeLines_reported _ data flagged]
    simp

section
variable {writer : FilterWriter}

theorem writeLines_flagged (size : Nat) (data : List UInt8) (flagged : writer.filter.Flagged) (output : σ) :
    (writeLines sink size data writer output).2.1.filter.Flagged := by
  induction data generalizing writer output with
  | nil => exact flagged
  | cons byte data ih =>
    have ended := flagged.ended writer.currentLine
    unfold writeLines
    by_cases ending : byte = newline
    · rw [if_pos ending]
      obtain ⟨kept, filter, onward, decided⟩ : ∃ kept filter onward,
          writer.filter.endLine writer.currentLine = (kept, filter, onward) := ⟨_, _, _, rfl⟩
      rw [decided] at ended
      simp only [decided]
      obtain ⟨⟨⟨count, err⟩, after⟩, written⟩ : ∃ result,
          (if kept then sink.write (writer.currentLine ++ [byte]) output else ((0, none), output)) = result := ⟨_, rfl⟩
      rw [written]
      cases err with
      | some err => exact flagged
      | none =>
        cases onward with
        | nextLine => exact ih ended after
        | dropped => exact ended
        | passed =>
          obtain ⟨⟨⟨count, err⟩, last⟩, written⟩ : ∃ result, sink.write data after = result := ⟨_, rfl⟩
          cases err <;> simp only [written] <;> exact ended
    · rw [if_neg ending]
      exact @ih { writer with currentLine := writer.currentLine ++ [byte] } flagged output

theorem write_flagged (data : List UInt8) (flagged : writer.filter.Flagged) (output : σ) :
    (write sink data writer output).2.1.filter.Flagged := by
  unfold write
  cases writer.filter.filterType with
  | applyFilters => exact writeLines_flagged _ data flagged output
  | _ => exact flagged

theorem close_flagged (flagged : writer.filter.Flagged) (output : σ) :
    (FilterWriter.close sink writer output).1.filter.Flagged := by
  unfold FilterWriter.close
  cases writer.filter.state with
  | stateExclude => exact ⟨flagged.1, flagged.2⟩
  | stateInclude =>
    obtain ⟨⟨⟨count, err⟩, after⟩, written⟩ : ∃ result, sink.write writer.currentLine output = result := ⟨_, rfl⟩
    cases err <;> simp only [written] <;> exact ⟨flagged.1, flagged.2⟩

end

theorem Filter.Flagged.config {filter} (flagged : filter.Flagged) (call : ConfigCall) :
    (call.apply filter).Flagged := by
  obtain ⟨excludeAfter, includeAfter⟩ := flagged
  cases call with
  | setPassThru | setBlackHole => exact ⟨excludeAfter, includeAfter⟩
  | add call =>
    cases call with
    | addExcludeAfterPattern pattern => exact ⟨fun untold => absurd (show true = false from untold) (by decide), includeAfter⟩
    | addIncludeAfterPattern pattern => exact ⟨excludeAfter, fun untold => absurd (show true = false from untold) (by decide)⟩
    | addExcludePattern | addIncludePattern => exact ⟨excludeAfter, includeAfter⟩

theorem flagged_usedFilter (sinks : Nat → Writer σ ε) (start : σ) (history : List FilterEvent) :
    (usedFilter sinks start history).Flagged := by
  suffices kept : ∀ shared : SharedFilter σ, shared.filter.Flagged →
      (history.foldl (FilterEvent.apply sinks) shared).filter.Flagged from
    kept ⟨{}, fun _ => [], start⟩ ⟨fun _ => rfl, fun _ => rfl⟩
  induction history with
  | nil => exact fun _ flagged => flagged
  | cons event history ih =>
    intro shared flagged
    refine ih _ ?_
    cases event with
    | config call => exact flagged.config call
    | clearPatterns => exact ⟨fun _ => rfl, fun _ => rfl⟩
    | write index data => exact @write_flagged _ _ (sinks index) ⟨shared.held index, shared.filter⟩ data flagged shared.output
    | close index => exact @close_flagged _ _ (sinks index) ⟨shared.held index, shared.filter⟩ flagged shared.output

/-- Something holds before each `Write` of a session and before its `Close`. -/
def EachCall (sink : Writer σ ε) (atWrite : List UInt8 → FilterWriter → σ → Prop) (atClose : FilterWriter → σ → Prop) :
    List (List UInt8) → FilterWriter → σ → Prop
  | [], writer, output => atClose writer output
  | data :: writes, writer, output =>
    let (_, after, received) := write sink data writer output
    atWrite data writer output ∧ EachCall sink atWrite atClose writes after received

/-- However a filter was set up and used before, every call of a session reports the failures
of the sink exactly if no call loses one. -/
theorem session_reports_iff {τ : Type} (contract : WholeOrError sink) (sinks : Nat → Writer τ ε) (start : τ)
    (history : List FilterEvent) (writes : List (List UInt8)) (output : σ) :
    EachCall sink (WriteReported sink) (CloseReported sink) writes (newFilterWriter (usedFilter sinks start history)) output ↔
      EachCall sink (fun data writer output => ¬ LosesWrite sink data writer output)
        (fun writer output => ¬ LosesClose sink writer output) writes
        (newFilterWriter (usedFilter sinks start history)) output := by
  suffices calls : ∀ writer : FilterWriter, writer.filter.Flagged →
      (EachCall sink (WriteReported sink) (CloseReported sink) writes writer output ↔
        EachCall sink (fun data writer output => ¬ LosesWrite sink data writer output)
          (fun writer output => ¬ LosesClose sink writer output) writes writer output) from
    calls _ (flagged_usedFilter sinks start history)
  induction writes generalizing output with
  | nil => exact fun writer _ => closeReported_iff sink writer output
  | cons data writes ih =>
    intro writer flagged
    exact and_congr (writeReported_iff contract data flagged output) (ih _ _ (write_flagged data flagged output))

def fullSink : Writer Unit Unit := ⟨fun data _ => if data.isEmpty then ((0, none), ()) else ((0, some ()), ())⟩

theorem wholeOrError_fullSink : WholeOrError fullSink := by
  intro data output worked
  cases data with
  | nil => rfl
  | cons byte data => exact absurd worked (by simp [fullSink])

/-- The line `a` has the rest passed on, and the sink refuses it: the write has taken nothing
and returns no error. -/
theorem lost_error :
    (write (watched fullSink) [97, 10, 98]
      (newFilterWriter (usedFilter (fun _ => fullSink) () [.config (.add (.addIncludeAfterPattern (· == [97])))]))
      ((), false)).1 = (0, none) ∧
    ¬ WriteReported fullSink [97, 10, 98]
      (newFilterWriter (usedFilter (fun _ => fullSink) () [.config (.add (.addIncludeAfterPattern (· == [97])))])) () := by
  refine ⟨by decide, fun reported => ?_⟩
  exact absurd (reported.1 (by decide)) (by decide)

/-- Every write fails while everything is passed on, and every one says so. -/
theorem session_reports_iff_passThru :
    EachCall fullSink (WriteReported fullSink) (CloseReported fullSink) [[97, 10], [98]]
      (newFilterWriter (usedFilter (fun _ => fullSink) () [.config .setPassThru])) () := by
  refine (session_reports_iff wholeOrError_fullSink (fun _ => fullSink) () [.config .setPassThru] [[97, 10], [98]] ()).mpr
    ⟨fun loses => ?_, fun loses => ?_, fun loses => ?_⟩
  · exact absurd loses.1 (by decide)
  · exact absurd loses.1 (by decide)
  · exact absurd loses.2 (by decide)

end MycsCommon.Streams
