import MycsCommon.Streams.FilterWriter

/-! A filter over a sink that takes everything is a machine over bytes: it does not matter how
the stream is cut into writes. -/

namespace MycsCommon.Streams
open FilterWriter

variable {σ ε : Type}

/-- A sink that takes every write, as long as an invariant holds, and then has the data added. -/
structure Takes (sink : Writer σ ε) (ready : σ → Prop) (add : List UInt8 → σ → σ) : Prop where
  write : ∀ data output, ready output → sink.write data output = ((data.length, none), add data output)
  ready : ∀ data output, ready output → ready (add data output)
  nil : ∀ output, add [] output = output
  append : ∀ first second output, add second (add first output) = add (first ++ second) output

/-- A sink that takes every write; `added` tells what has come to it between two of its states. -/
structure Delivers (sink : Writer σ ε) (ready : σ → Prop) (added : List UInt8 → σ → σ → Prop) : Prop where
  write : ∀ data output, ready output → ∃ after,
    sink.write data output = ((data.length, none), after) ∧ added data output after ∧ ready after
  nil : ∀ output, added [] output output
  append : ∀ first second before between after,
    added first before between → added second between after → added (first ++ second) before after

theorem Takes.delivers {sink : Writer σ ε} {ready add} (takes : Takes sink ready add) :
    Delivers sink ready (fun data before after => after = add data before) := by
  refine ⟨fun data output able => ?_, fun output => (takes.nil output).symm, ?_⟩
  · exact ⟨_, takes.write data output able, rfl, takes.ready data output able⟩
  · rintro first second before _ _ rfl rfl
    exact takes.append first second before

theorem Accepts.delivers {sink : Writer σ ε} {holds} (accepts : Accepts sink holds) :
    Delivers sink (fun _ => True) (fun data before after => holds after = holds before ++ data) := by
  refine ⟨fun data output _ => ?_, fun output => (List.append_nil _).symm, ?_⟩
  · exact ⟨_, Prod.ext (accepts.whole data output) rfl, accepts.keeps data output, trivial⟩
  · intro first second before between after one two
    rw [two, one, List.append_assoc]

namespace FilterWriter

/-- What a filter does with one byte, and what it lets out. -/
def feed (writer : FilterWriter) (byte : UInt8) : FilterWriter × List UInt8 :=
  match writer.filter.filterType with
  | .undefined | .blackHole => (writer, [])
  | .passThru => (writer, [byte])
  | .applyFilters =>
    if byte = newline then
      let (kept, filter, _) := writer.filter.endLine writer.currentLine
      ({ currentLine := [], filter }, if kept then writer.currentLine ++ [byte] else [])
    else ({ writer with currentLine := writer.currentLine ++ [byte] }, [])

def feedAll : FilterWriter → List UInt8 → FilterWriter × List UInt8
  | writer, [] => (writer, [])
  | writer, byte :: rest =>
    let (next, out) := writer.feed byte
    let (final, more) := feedAll next rest
    (final, out ++ more)

theorem feedAll_append (writer : FilterWriter) (first second : List UInt8) :
    writer.feedAll (first ++ second) =
      (((writer.feedAll first).1.feedAll second).1, (writer.feedAll first).2 ++ ((writer.feedAll first).1.feedAll second).2) := by
  induction first generalizing writer with
  | nil => simp [feedAll]
  | cons byte first ih => simp [feedAll, ih]

theorem feedAll_blackHole {writer : FilterWriter} (data : List UInt8) (hole : writer.filter.filterType = .blackHole) :
    writer.feedAll data = (writer, []) := by
  induction data with
  | nil => rfl
  | cons byte rest ih => simp [feedAll, feed, hole, ih]

theorem feedAll_passThru {writer : FilterWriter} (data : List UInt8) (passing : writer.filter.filterType = .passThru) :
    writer.feedAll data = (writer, data) := by
  induction data with
  | nil => rfl
  | cons byte rest ih => simp [feedAll, feed, passing, ih]

theorem feedAll_undefined {writer : FilterWriter} (data : List UInt8) (unset : writer.filter.filterType = .undefined) :
    writer.feedAll data = (writer, []) := by
  induction data with
  | nil => rfl
  | cons byte rest ih => simp [feedAll, feed, unset, ih]

variable {sink : Writer σ ε} {ready : σ → Prop} {added : List UInt8 → σ → σ → Prop} {add : List UInt8 → σ → σ} {output : σ}

theorem endLine_filterType {filter next : Filter} {line} {kept} {onward}
    (filtering : filter.filterType = .applyFilters) (ended : filter.endLine line = (kept, next, onward)) :
    next.filterType = match onward with
      | .nextLine => .applyFilters
      | .dropped => .blackHole
      | .passed => .passThru := by
  unfold Filter.endLine at ended
  cases state : filter.state with
  | stateInclude | stateExclude =>
    simp only [state] at ended
    split_ifs at ended <;> cases ended <;> first | rfl | exact filtering

theorem writeLines_delivers (delivers : Delivers sink ready added) (size : Nat) (data : List UInt8)
    {writer : FilterWriter} (filtering : writer.filter.filterType = .applyFilters) (able : ready output) :
    ∃ after, writeLines sink size data writer output = ((size, none), (writer.feedAll data).1, after) ∧
      added (writer.feedAll data).2 output after ∧ ready after := by
  induction data generalizing writer output with
  | nil => exact ⟨output, rfl, delivers.nil output, able⟩
  | cons byte rest ih =>
    by_cases ending : byte = newline
    · obtain ⟨kept, next, onward, decided⟩ : ∃ kept next onward,
          writer.filter.endLine writer.currentLine = (kept, next, onward) := ⟨_, _, _, rfl⟩
      have type := endLine_filterType filtering decided
      obtain ⟨out, emitted, count, between, written, one, able'⟩ : ∃ out,
          (if kept then writer.currentLine ++ [byte] else []) = out ∧ ∃ count between,
          (if kept then sink.write (writer.currentLine ++ [byte]) output else ((0, none), output)) =
            ((count, none), between) ∧ added out output between ∧ ready between := by
        cases kept with
        | true => exact ⟨_, rfl, _, delivers.write _ _ able⟩
        | false => exact ⟨_, rfl, 0, output, rfl, delivers.nil output, able⟩
      simp only [writeLines, feedAll, feed, filtering, ending, if_true, decided] at emitted written ⊢
      simp only [written, emitted]
      cases onward with
      | nextLine =>
        obtain ⟨after, ran, two, able''⟩ := @ih between ⟨[], next⟩ type able'
        exact ⟨after, ran, delivers.append _ _ _ _ _ one two, able''⟩
      | dropped =>
        rw [feedAll_blackHole rest type]
        exact ⟨between, rfl, by simpa using one, able'⟩
      | passed =>
        rw [feedAll_passThru rest type]
        obtain ⟨after, ran, two, able''⟩ := delivers.write rest between able'
        rw [ran]
        exact ⟨after, rfl, delivers.append _ _ _ _ _ one two, able''⟩
    · simp only [writeLines, ending, if_false, feedAll, feed, filtering, List.nil_append]
      exact ih filtering able

theorem write_delivers (delivers : Delivers sink ready added) (data : List UInt8) {writer : FilterWriter}
    (known : writer.filter.filterType ≠ .undefined) (able : ready output) :
    ∃ after, write sink data writer output = ((data.length, none), (writer.feedAll data).1, after) ∧
      added (writer.feedAll data).2 output after ∧ ready after := by
  unfold write
  cases type : writer.filter.filterType with
  | undefined => exact absurd type known
  | blackHole => exact ⟨output, by simp [feedAll_blackHole data type], by
      rw [feedAll_blackHole data type]; exact delivers.nil output, able⟩
  | passThru =>
    obtain ⟨after, written, one, able'⟩ := delivers.write data output able
    rw [feedAll_passThru data type]
    exact ⟨after, by simp [written], one, able'⟩
  | applyFilters => exact writeLines_delivers delivers _ data type able

theorem write_feedAll (takes : Takes sink ready add) (data : List UInt8) {writer : FilterWriter}
    (known : writer.filter.filterType ≠ .undefined) (able : ready output) :
    write sink data writer output =
      ((data.length, none), (writer.feedAll data).1, add (writer.feedAll data).2 output) := by
  obtain ⟨-, written, rfl, _⟩ := write_delivers takes.delivers data known able
  exact written

theorem feed_known {writer : FilterWriter} (byte : UInt8) (known : writer.filter.filterType ≠ .undefined) :
    (writer.feed byte).1.filter.filterType ≠ .undefined := by
  unfold feed
  cases type : writer.filter.filterType with
  | undefined => exact absurd type known
  | blackHole | passThru => simp [type]
  | applyFilters =>
    by_cases ending : byte = newline
    · obtain ⟨kept, next, onward, decided⟩ : ∃ kept next onward,
          writer.filter.endLine writer.currentLine = (kept, next, onward) := ⟨_, _, _, rfl⟩
      have type' := endLine_filterType type decided
      simp only [ending, if_true, decided, type']
      cases onward <;> simp
    · simp [ending, type]

theorem feedAll_known {writer : FilterWriter} (data : List UInt8) (known : writer.filter.filterType ≠ .undefined) :
    (writer.feedAll data).1.filter.filterType ≠ .undefined := by
  induction data generalizing writer with
  | nil => exact known
  | cons byte rest ih => exact ih (feed_known byte known)

def heldBack (writer : FilterWriter) : List UInt8 :=
  match writer.filter.state with
  | .stateInclude => writer.currentLine
  | .stateExclude => []

theorem close_delivers (delivers : Delivers sink ready added) (writer : FilterWriter) (able : ready output) :
    added writer.heldBack output (close sink writer output).2 := by
  unfold close heldBack
  cases writer.filter.state with
  | stateInclude =>
    obtain ⟨after, written, one, _⟩ := delivers.write writer.currentLine output able
    simpa [written] using one
  | stateExclude => exact delivers.nil output

theorem close_heldBack (takes : Takes sink ready add) (writer : FilterWriter) (able : ready output) :
    (close sink writer output).2 = add writer.heldBack output :=
  close_delivers takes.delivers writer able

theorem writeAll_delivers (delivers : Delivers sink ready added) (writes : List (List UInt8)) {writer : FilterWriter}
    (known : writer.filter.filterType ≠ .undefined) (able : ready output) :
    ∃ after, writeAll sink writes writer output =
        (writes.map (fun data => (data.length, none)), (writer.feedAll writes.flatten).1, after) ∧
      added (writer.feedAll writes.flatten).2 output after ∧ ready after := by
  induction writes generalizing writer output with
  | nil => exact ⟨output, rfl, delivers.nil output, able⟩
  | cons data writes ih =>
    obtain ⟨between, written, one, able'⟩ := write_delivers delivers data known able
    obtain ⟨after, ran, two, able''⟩ := ih (feedAll_known data known) able'
    refine ⟨after, ?_, ?_, able''⟩
    · simp [writeAll, written, ran, feedAll_append]
    · simpa [feedAll_append] using delivers.append _ _ _ _ _ one two

theorem writeAll_undefined (writes : List (List UInt8)) {writer} (unset : writer.filter.filterType = .undefined) :
    writeAll sink writes writer output = (writes.map (fun _ => (0, some .unknownFilterType)), writer, output) := by
  induction writes with
  | nil => rfl
  | cons data writes ih => simp [writeAll, write, unset, ih]

/-- What a filter lets out of a stream until it is closed. -/
def emits (writer : FilterWriter) (stream : List UInt8) : List UInt8 :=
  (writer.feedAll stream).2 ++ (writer.feedAll stream).1.heldBack

theorem session_emits (delivers : Delivers sink ready added) (filter : Filter) (writes : List (List UInt8))
    (able : ready output) :
    added ((newFilterWriter filter).emits writes.flatten) output (session sink filter writes output).2.2 := by
  by_cases unset : filter.filterType = .undefined
  · have held := close_delivers delivers (newFilterWriter filter) able
    rw [session, writeAll_undefined writes unset, emits, feedAll_undefined _ unset]
    exact held
  · obtain ⟨between, ran, one, able'⟩ := @writeAll_delivers _ _ _ _ _ output delivers writes (newFilterWriter filter) unset able
    have held := close_delivers delivers ((newFilterWriter filter).feedAll writes.flatten).1 able'
    rw [session, ran]
    exact delivers.append _ _ _ _ _ one held

end FilterWriter

def plainSink : Writer (List UInt8) Unit := ⟨fun data output => ((data.length, none), output ++ data)⟩

/-- A filter that has been given a stream, on its own, and what it let out. -/
def Filter.fed (filter : Filter) (stream : List UInt8) : FilterWriter × List UInt8 :=
  (write plainSink stream (newFilterWriter filter) []).2

/-- The stream passed through the filter: what it lets out until it is closed. -/
def Filter.passes (filter : Filter) (stream : List UInt8) : List UInt8 :=
  (FilterWriter.close plainSink (filter.fed stream).1 (filter.fed stream).2).2

theorem takes_plainSink : Takes plainSink (fun _ => True) (fun data output => output ++ data) :=
  ⟨fun _ _ _ => rfl, fun _ _ _ => trivial, fun _ => List.append_nil _, fun _ _ _ => List.append_assoc _ _ _⟩

theorem Filter.fed_eq (filter : Filter) (stream : List UInt8) :
    filter.fed stream = (newFilterWriter filter).feedAll stream := by
  by_cases unset : filter.filterType = .undefined
  · rw [feedAll_undefined stream unset]
    simp [Filter.fed, write, newFilterWriter, unset]
  · rw [Filter.fed, write_feedAll takes_plainSink stream unset trivial]
    simp

theorem Filter.passes_eq (filter : Filter) (stream : List UInt8) :
    filter.passes stream = (filter.fed stream).2 ++ (filter.fed stream).1.heldBack :=
  FilterWriter.close_heldBack takes_plainSink _ trivial

end MycsCommon.Streams
