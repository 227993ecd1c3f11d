import MycsCommon.Library.Lines
import MycsCommon.Proofs.FilterBytes

/-! The lines a filter lets through. The reference judges every line by the state before it and
by the patterns; the filter does the same until it turns into one that passes everything, and
does not judge the line that is open when it is closed. -/

namespace MycsCommon.Streams
open Library.Lines List Streams.Filter FilterWriter PatternCall

variable {σ ε : Type} {sink : Writer σ ε} {holds : σ → List UInt8}

theorem Filter.configure_known (filter : Filter) {calls} (given : calls ≠ []) :
    (filter.configure calls).filterType ≠ .undefined := by
  obtain ⟨-, last, rfl⟩ := eq_nil_or_concat calls |>.resolve_left given
  rw [configure, concat_eq_append, foldl_append]
  cases last with
  | add call => cases call <;> simp [ConfigCall.apply, apply, addExcludeAfterPattern,
      addIncludeAfterPattern, addExcludePattern, addIncludePattern]
  | setPassThru => simp [ConfigCall.apply, setPassThru]
  | setBlackHole => simp [ConfigCall.apply, setBlackHole]

/-- A configured filter lets the same out of a stream however it is cut, and every write of it
is reported whole. -/
theorem session_split (accepts : Accepts sink holds) {calls : List ConfigCall} (given : calls ≠ [])
    {writes others : List (List UInt8)} (same : writes.flatten = others.flatten) (output : σ) :
    holds (session sink (configure {} calls) writes output).2.2 =
        holds (session sink (configure {} calls) others output).2.2 ∧
      (session sink (configure {} calls) writes output).1 =
        writes.map (fun data => (data.length, none)) ∧
      (session sink (configure {} calls) others output).1 =
        others.map (fun data => (data.length, none)) := by
  have known := configure_known {} given
  have results (cut : List (List UInt8)) :
      (session sink (configure {} calls) cut output).1 = cut.map (fun data => (data.length, none)) := by
    obtain ⟨after, ran, _⟩ := @writeAll_delivers _ _ _ _ _ output accepts.delivers cut
      (newFilterWriter (configure {} calls)) known trivial
    rw [session, ran]
  refine ⟨?_, results writes, results others⟩
  rw [session_emits accepts.delivers _ writes trivial,
    session_emits accepts.delivers _ others trivial, same]

theorem accepts_plainSink : Accepts plainSink (fun output => output) := ⟨fun _ _ => rfl, fun _ _ => rfl⟩

/-- Cut inside a line, and with an empty write, at the switch to passing everything. -/
theorem session_split_after :
    (session plainSink
        (configure {} [.add (.addIncludeAfterPattern (fun line => line == [97]))]) [[97, 10, 98, 10]] []).2.2 =
      (session plainSink
        (configure {} [.add (.addIncludeAfterPattern (fun line => line == [97]))]) [[97], [], [10, 98], [10]] []).2.2 :=
  (session_split accepts_plainSink (by simp) rfl []).1

/-- The cut at the newlines: the lines that have ended, and the last one. -/
def textLines (held stream : List UInt8) : List (List UInt8) × List UInt8 := split (· == newline) held stream

theorem textLines_join (held stream : List UInt8) :
    (textLines held stream).1.flatMap (· ++ [newline]) ++ (textLines held stream).2 = held ++ stream := by
  induction stream generalizing held with
  | nil => simp [textLines, split]
  | cons byte stream ih =>
    unfold textLines at ih ⊢
    by_cases ending : byte = newline
    · subst ending
      have rest := ih []
      simp only [split, beq_self_eq_true, if_true, flatMap_cons, append_assoc]
      rw [rest]
      simp
    · rw [split, if_neg (by simpa using ending), ih]
      simp

/-- The lines that are shown: those judged good in the state that includes. -/
def shown (next : FilterState → List UInt8 → FilterState) (ended left : List UInt8 → Bool) :
    FilterState → List (List UInt8) → List UInt8 → List UInt8
  | state, [], last => if state = .stateInclude ∧ left last = true then last else []
  | state, line :: lines, last =>
    (if state = .stateInclude ∧ ended line = true then line ++ [newline] else []) ++
      shown next ended left (next state line) lines last

section
variable {next : FilterState → List UInt8 → FilterState} {ended left few fewLeft : List UInt8 → Bool}

theorem shown_cons (state : FilterState) (line : List UInt8) (lines : List (List UInt8)) (last : List UInt8) :
    shown next ended left state (line :: lines) last =
      (if state = .stateInclude ∧ ended line = true then line ++ [newline] else []) ++
        shown next ended left (next state line) lines last := rfl

theorem shown_all (stays : ∀ line, next .stateInclude line = .stateInclude) (all : ∀ line, ended line = true)
    (also : ∀ line, left line = true) (lines : List (List UInt8)) (last : List UInt8) :
    shown next ended left .stateInclude lines last = lines.flatMap (· ++ [newline]) ++ last := by
  induction lines with
  | nil => simp [shown, also]
  | cons line lines ih => simp [shown, all, stays, ih]

theorem shown_none (stays : ∀ line, next .stateExclude line = .stateExclude) (lines : List (List UInt8))
    (last : List UInt8) : shown next ended left .stateExclude lines last = [] := by
  induction lines with
  | nil => simp [shown]
  | cons line lines ih => simp [shown, stays, ih]

section

variable (fewer : ∀ line, few line = true → ended line = true) (fewerLeft : ∀ line, fewLeft line = true → left line = true) (state : FilterState) (lines : List (List UInt8)) (last : List UInt8)
include fewer fewerLeft state lines last

theorem length_shown_le :
    (shown next few fewLeft state lines last).length ≤ (shown next ended left state lines last).length := by
  induction lines generalizing state with
  | nil =>
    unfold shown
    by_cases good : state = .stateInclude ∧ fewLeft last = true
    · rw [if_pos good, if_pos ⟨good.1, fewerLeft last good.2⟩]
    · simp [if_neg good]
  | cons line lines ih =>
    have rest := ih (next state line)
    rw [shown_cons, shown_cons]
    by_cases good : state = .stateInclude ∧ few line = true
    · rw [if_pos good, if_pos ⟨good.1, fewer line good.2⟩]
      simpa using rest
    · rw [if_neg good]
      simp only [nil_append, length_append]
      omega

/-- Of two ways to judge of which one is stricter, both show the same only if they differ
nowhere the state includes; only an open line that is empty may be judged either way. -/
theorem shown_eq_iff :
    shown next ended left state lines last = shown next few fewLeft state lines last ↔
      (∀ before line after, lines = before ++ line :: after →
          before.foldl next state = .stateInclude → ended line = true → few line = true) ∧
        (lines.foldl next state = .stateInclude → last ≠ [] → left last = true → fewLeft last = true) := by
  induction lines generalizing state with
  | nil =>
    have strict := fewerLeft last
    cases state <;> cases first : left last <;> cases second : fewLeft last <;> simp_all [shown]
  | cons line lines ih =>
    rw [forall_cut_cons, foldl_cons, and_assoc]
    simp only [foldl_cons, foldl_nil]
    rw [← ih (next state line), shown_cons, shown_cons]
    by_cases good : state = .stateInclude ∧ few line = true
    · rw [if_pos good, if_pos ⟨good.1, fewer line good.2⟩]
      simp [good]
    · rw [if_neg good]
      by_cases loose : state = .stateInclude ∧ ended line = true
      · -- the text shown by the one is longer than all the other can show
        have shorter := @length_shown_le next _ _ _ _ fewer fewerLeft (next state line) lines last
        rw [if_pos loose]
        constructor
        · intro same
          have lengths := congrArg List.length same
          simp only [length_append, length_cons, length_nil] at lengths
          omega
        · rintro ⟨strict, _⟩
          exact absurd ⟨loose.1, strict loose.1 loose.2⟩ good
      · rw [if_neg loose]
        simp only [nil_append]
        constructor
        · exact fun same => ⟨fun included judged => absurd ⟨included, judged⟩ loose, same⟩
        · exact fun both => both.2

end

end

namespace Filter

def next (filter : Filter) (state : FilterState) (line : List UInt8) : FilterState :=
  match state with
  | .stateInclude => if isMatch filter.excludeAfterPatterns line then .stateExclude else .stateInclude
  | .stateExclude => if isMatch filter.includeAfterPatterns line then .stateInclude else .stateExclude

def wants (filter : Filter) (line : List UInt8) : Bool :=
  (filter.includePatterns.isEmpty || isMatch filter.includePatterns line) && !isMatch filter.excludePatterns line

/-- The reference: line by line, the last one possibly without a newline. -/
def reference (filter : Filter) (stream : List UInt8) : List UInt8 :=
  shown filter.next filter.wants filter.wants filter.state (textLines [] stream).1 (textLines [] stream).2

/-- A filter that starts with lines excluded and has no exclude-after pattern passes all that
is behind the first line that includes. -/
def loose (filter : Filter) : Bool := filter.state == .stateExclude && !filter.hasExcludeAfterPatterns

def lets (filter : Filter) (line : List UInt8) : Bool := filter.loose || filter.keeps line

/-- There are no patterns that the flags do not tell of. -/
structure Flagged (filter : Filter) : Prop where
  excludeAfter : filter.hasExcludeAfterPatterns = false → filter.excludeAfterPatterns = []
  includeAfter : filter.hasIncludeAfterPatterns = false → filter.includeAfterPatterns = []

/-- What the end of a line can do. The state changes without an end to the judging only if there
are patterns to change it back. -/
theorem endLine_cases {filter : Filter} (flagged : filter.Flagged) (line : List UInt8) :
    (filter.endLine line =
        (filter.state == .stateInclude && filter.keeps line, { filter with state := filter.next filter.state line }, .nextLine) ∧
      (filter.next filter.state line = filter.state ∨ filter.hasExcludeAfterPatterns = true)) ∨
    (filter.endLine line = (filter.keeps line, { filter with state := .stateExclude, filterType := .blackHole }, .dropped) ∧
      filter.state = .stateInclude ∧ filter.next .stateInclude line = .stateExclude ∧ filter.includeAfterPatterns = []) ∨
    (filter.endLine line = (false, { filter with state := .stateInclude, filterType := .passThru }, .passed) ∧
      filter.state = .stateExclude ∧ filter.next .stateExclude line = .stateInclude ∧
      filter.hasExcludeAfterPatterns = false ∧ filter.excludeAfterPatterns = []) := by
  unfold endLine next
  cases state : filter.state with
  | stateInclude =>
    by_cases excludes : isMatch filter.excludeAfterPatterns line
    · have told : filter.hasExcludeAfterPatterns = true := by
        by_contra untold
        simp [flagged.excludeAfter (by simpa using untold), isMatch] at excludes
      cases includes : filter.hasIncludeAfterPatterns with
      | false => exact .inr (.inl (by simp [excludes, flagged.includeAfter includes]))
      | true => exact .inl (by simp [excludes, told])
    · refine .inl ⟨?_, .inl (by simp [excludes])⟩
      have same : { filter with state := .stateInclude } = filter := by rw [← state]
      simp [excludes, same]
  | stateExclude =>
    by_cases includes : isMatch filter.includeAfterPatterns line
    · cases excludes : filter.hasExcludeAfterPatterns with
      | false => exact .inr (.inr (by simp [includes, flagged.excludeAfter excludes]))
      | true => exact .inl (by simp [includes])
    · refine .inl ⟨?_, .inl (by simp [includes])⟩
      have same : { filter with state := .stateExclude } = filter := by rw [← state]
      simp [includes, same]

end Filter

namespace FilterWriter

variable {filter : Filter}

theorem emits_cons (writer : FilterWriter) (byte : UInt8) (stream : List UInt8) :
    writer.emits (byte :: stream) = (writer.feed byte).2 ++ (writer.feed byte).1.emits stream := by
  simp [emits, feedAll]

theorem emits_passThru (stream : List UInt8) (passing : filter.filterType = .passThru) :
    emits ⟨[], filter⟩ stream = stream := by
  rw [emits, feedAll_passThru stream passing]
  cases state : filter.state <;> simp [heldBack, state]

theorem emits_blackHole (stream : List UInt8) (hole : filter.filterType = .blackHole) :
    emits ⟨[], filter⟩ stream = [] := by
  rw [emits, feedAll_blackHole stream hole]
  cases state : filter.state <;> simp [heldBack, state]

theorem emits_shown (filtering : filter.filterType = .applyFilters) (flagged : filter.Flagged)
    (held stream : List UInt8) :
    emits ⟨held, filter⟩ stream =
      shown filter.next filter.lets (fun _ => true) filter.state (textLines held stream).1 (textLines held stream).2 := by
  induction stream generalizing held filter with
  | nil => cases state : filter.state <;> simp [emits, feedAll, heldBack, textLines, split, shown, state]
  | cons byte stream ih =>
    rw [emits_cons]
    by_cases ending : byte = newline
    · subst ending
      have cut : textLines held (newline :: stream) = (held :: (textLines [] stream).1, (textLines [] stream).2) := by
        simp [textLines, split]
      rw [cut, shown_cons]
      simp only [feed, filtering, if_true]
      obtain ⟨ended, same⟩ | ⟨ended, including, left, none⟩ | ⟨ended, excluding, reached, untold, none⟩ :=
        endLine_cases flagged held
      · have judged : filter.lets = lets { filter with state := filter.next filter.state held } := by
          funext line
          obtain same | told := same
          · simp [lets, loose, keeps, same]
          · simp [lets, loose, keeps, told]
        have rest := @ih { filter with state := filter.next filter.state held } filtering ⟨flagged.1, flagged.2⟩ []
        rw [← judged] at rest
        rw [ended]
        refine congrArg₂ (· ++ ·) ?_ rest
        cases state : filter.state <;> simp [lets, loose, state]
      · have stays (line : List UInt8) : filter.next .stateExclude line = .stateExclude := by
          simp [Filter.next, none, isMatch]
        rw [ended, emits_blackHole stream rfl, including, left, shown_none stays]
        simp [lets, loose, including]
      · have stays (line : List UInt8) : filter.next .stateInclude line = .stateInclude := by
          simp [Filter.next, none, isMatch]
        have all (line : List UInt8) : filter.lets line = true := by simp [lets, loose, excluding, untold]
        rw [ended, emits_passThru stream rfl, excluding, reached, shown_all stays all (fun _ => rfl), textLines_join]
        simp
    · have cut : textLines held (byte :: stream) = textLines (held ++ [byte]) stream := by
        simp [textLines, split, ending]
      rw [cut, ← ih filtering flagged]
      simp [feed, filtering, ending]

end FilterWriter

namespace Filter

/-- The flags of a filter that was only given patterns tell which there are. Without an
exclude-after pattern it starts with lines excluded if it has an include-after pattern. -/
structure Told (filter : Filter) : Prop where
  excludeAfter : filter.hasExcludeAfterPatterns = !filter.excludeAfterPatterns.isEmpty
  includeAfter : filter.hasIncludeAfterPatterns = !filter.includeAfterPatterns.isEmpty
  exclude : filter.hasExcludePatterns = !filter.excludePatterns.isEmpty
  includes : filter.hasIncludePatterns = !filter.includePatterns.isEmpty
  starts : filter.excludeAfterPatterns = [] → (filter.state = .stateExclude ↔ filter.includeAfterPatterns ≠ [])

theorem Told.apply {filter} (told : filter.Told) (call : PatternCall) : (call.apply filter).Told := by
  obtain ⟨excludeAfter, includeAfter, exclude, includes, starts⟩ := told
  cases call with
  | addExcludeAfterPattern pattern => exact ⟨by simp [PatternCall.apply, addExcludeAfterPattern], includeAfter, exclude,
      includes, by simp [PatternCall.apply, addExcludeAfterPattern]⟩
  | addIncludeAfterPattern pattern => exact ⟨excludeAfter, by simp [PatternCall.apply, addIncludeAfterPattern], exclude,
      includes, by simp +contextual [PatternCall.apply, addIncludeAfterPattern]⟩
  | addExcludePattern pattern => exact ⟨excludeAfter, includeAfter, by simp [PatternCall.apply, addExcludePattern],
      includes, starts⟩
  | addIncludePattern pattern => exact ⟨excludeAfter, includeAfter, exclude,
      by simp [PatternCall.apply, addIncludePattern], starts⟩

theorem Told.extend {filter : Filter} (told : filter.Told) (calls : List PatternCall) : (filter.extend calls).Told := by
  induction calls generalizing filter with
  | nil => exact told
  | cons call calls ih => exact ih (told.apply call)

theorem told_extend (calls : List PatternCall) : (extend {} calls).Told :=
  Told.extend ⟨rfl, rfl, rfl, rfl, by simp⟩ calls

theorem Told.flagged {filter : Filter} (told : filter.Told) : filter.Flagged := by
  refine ⟨fun untold => ?_, fun untold => ?_⟩
  · simpa [told.excludeAfter] using untold
  · simpa [told.includeAfter] using untold

theorem Told.keeps_eq {filter : Filter} (told : filter.Told) (line : List UInt8) : filter.keeps line = filter.wants line := by
  rw [keeps, wants, told.includes, told.exclude]
  cases filter.excludePatterns <;> simp [isMatch]

theorem Told.loose_iff {filter : Filter} (told : filter.Told) :
    filter.loose = true ↔ filter.includeAfterPatterns ≠ [] ∧ filter.excludeAfterPatterns = [] := by
  rw [loose, told.excludeAfter]
  cases none : filter.excludeAfterPatterns with
  | nil => simp [told.starts none]
  | cons pattern patterns => simp

theorem extend_filterType {filter : Filter} {calls} (given : calls ≠ []) :
    (filter.extend calls).filterType = .applyFilters := by
  obtain ⟨-, last, rfl⟩ := eq_nil_or_concat calls |>.resolve_left given
  rw [extend, concat_eq_append, foldl_append]
  cases last <;> rfl

def stateAfter (filter : Filter) (lines : List (List UInt8)) : FilterState := lines.foldl filter.next filter.state

/-- Every line that the filter does not judge although the state includes would have been
wanted. Those are the ended lines, if there are include-after but no exclude-after patterns, and
a last line without a newline. -/
structure Unharmed (filter : Filter) (stream : List UInt8) : Prop where
  passed : filter.includeAfterPatterns ≠ [] → filter.excludeAfterPatterns = [] →
    ∀ before line after, (textLines [] stream).1 = before ++ line :: after →
      filter.stateAfter before = .stateInclude → filter.wants line = true
  left : filter.stateAfter (textLines [] stream).1 = .stateInclude → (textLines [] stream).2 ≠ [] →
    filter.wants (textLines [] stream).2 = true

theorem emits_reference_iff {filter : Filter} (told : filter.Told) (filtering : filter.filterType = .applyFilters)
    (stream : List UInt8) :
    (newFilterWriter filter).emits stream = filter.reference stream ↔ filter.Unharmed stream := by
  have lets_of_wants (line : List UInt8) (wanted : filter.wants line = true) : filter.lets line = true := by
    simp [lets, told.keeps_eq, wanted]
  rw [newFilterWriter, emits_shown filtering told.flagged, reference,
    shown_eq_iff lets_of_wants (fun _ _ => rfl)]
  constructor
  · rintro ⟨lines, last⟩
    refine ⟨fun some none before line after cut including => ?_, fun including text => last including text rfl⟩
    exact lines before line after cut including (by simp [lets, told.loose_iff.mpr ⟨some, none⟩])
  · rintro ⟨passed, left⟩
    refine ⟨fun before line after cut including let_ => ?_, fun including text _ => left including text⟩
    by_cases loose : filter.loose = true
    · obtain ⟨some, none⟩ := told.loose_iff.mp loose
      exact passed some none before line after cut including
    · simpa [lets, loose, told.keeps_eq] using let_

end Filter

/-- The output of a filter with any patterns is that of the reference exactly if it has a
pattern, or nothing is written, and no line it does not judge is unwanted. -/
theorem session_reference_iff (accepts : Accepts sink holds) (calls : List PatternCall) (writes : List (List UInt8))
    (output : σ) :
    holds (session sink (extend {} calls) writes output).2.2 =
        holds output ++ (extend {} calls).reference writes.flatten ↔
      (calls = [] → writes.flatten = []) ∧ (extend {} calls).Unharmed writes.flatten := by
  rw [session_emits accepts.delivers _ writes trivial, append_cancel_left_eq]
  by_cases given : calls = []
  · subst given
    have all (line : List UInt8) : wants {} line = true := rfl
    have whole : reference {} writes.flatten = writes.flatten := by
      rw [reference, shown_all (fun _ => rfl) all all, textLines_join]
      rfl
    have refused : emits (newFilterWriter {}) writes.flatten = [] := by
      rw [emits, feedAll_undefined _ rfl]
      rfl
    have unharmed : Unharmed {} writes.flatten := ⟨fun some => absurd rfl some, fun _ _ => all _⟩
    have same : extend {} [] = {} := rfl
    rw [same, whole, refused]
    exact ⟨fun nothing => ⟨fun _ => nothing.symm, unharmed⟩, fun both => (both.1 rfl).symm⟩
  · rw [emits_reference_iff (told_extend calls) (extend_filterType given)]
    simp [given]

/-- Lines behind `a` are included and those with an `x` excluded: `x` comes out, since nothing is
judged any more behind `a`. -/
theorem excluded_line_passes :
    (session plainSink
        (extend {} [.addIncludeAfterPattern (· == [97]), .addExcludePattern (·.contains 120)])
        [[97, 10, 120, 10]] []).2.2 = [120, 10] ∧
      (extend {} [.addIncludeAfterPattern (· == [97]), .addExcludePattern (·.contains 120)]).reference
        [97, 10, 120, 10] = [] := by decide

/-- Only lines without an `x`, and a last line that has none. -/
theorem session_reference_iff_judged :
    (session plainSink (extend {} [.addExcludePattern (·.contains 120)])
        [[98, 10, 120], [10, 99]] []).2.2 =
      [] ++ (extend {} [.addExcludePattern (·.contains 120)]).reference [98, 10, 120, 10, 99] :=
  (session_reference_iff accepts_plainSink _ [[98, 10, 120], [10, 99]] []).mpr
    ⟨by simp, fun some => absurd rfl some, fun _ _ => by decide⟩

end MycsCommon.Streams
