import MycsCommon.Proofs.ExpectRuns
import MycsCommon.Streams.StreamLoop

/-! A stream handler at the end of its input. The error that tells the end is overwritten by the
echo of nothing, so that the loop goes on. -/

namespace MycsCommon.Streams
open Utils (ReadError)

variable {σ ε : Type} {outlets : Outlets σ ε} {side : Side}

namespace Handling

variable {handling start : Handling σ ε} {reads : Nat → List UInt8 × Option (ReadError ε)} {turns : Nat}

def Echoes (outlets : Outlets σ ε) (side : Side) : Prop := ∀ data streams, ((outlets.echo side).write data streams).1.2 = none

def echo (outlets : Outlets σ ε) (side : Side) (handling : Handling σ ε) (buffer : List UInt8) : ExpectStream σ :=
  { handling.es with streams := ((outlets.echo side).write buffer handling.es.streams).2 }

/-- The expect handler fails on what is shown of a buffer: a command cannot be written. -/
def Refuses (outlets : Outlets σ ε) (side : Side) (handling : Handling σ ε) (buffer : List UInt8) : Prop :=
  (ExpectStream.handleFragments outlets side (fragments handling.lineBuffer false buffer).1 (handling.echo outlets side buffer)).1 ≠
    none

theorem showLines_err (shown : List (List UInt8 × Bool)) (calm : handling.err = none) :
    (showLines outlets side shown handling).err = (ExpectStream.handleFragments outlets side shown handling.es).1.map .failed ∧
      (showLines outlets side shown handling).es = (ExpectStream.handleFragments outlets side shown handling.es).2 ∧
      (showLines outlets side shown handling).echoed = handling.echoed ∧
      (showLines outlets side shown handling).lineBuffer = handling.lineBuffer := by
  induction shown generalizing handling with
  | nil => exact ⟨calm, rfl, rfl, rfl⟩
  | cons fragment shown ih =>
    obtain ⟨line, newLine⟩ := fragment
    rw [showLines, ExpectStream.handleFragments]
    obtain ⟨⟨err, es⟩, handled⟩ : ∃ result, ExpectStream.expectHandler outlets side line newLine handling.es = result := ⟨_, rfl⟩
    rw [handled]
    cases err with
    | some err => exact ⟨rfl, rfl, rfl, rfl⟩
    | none => exact @ih { handling with es, calls := handling.calls ++ [(line, newLine)] } calm

section

variable (echoes : Echoes outlets side) (buffer : List UInt8)
include echoes buffer

theorem pass_echoes :
    handling.pass outlets side buffer =
      showLines outlets side (fragments handling.lineBuffer false buffer).1
        { handling with
          es := handling.echo outlets side buffer, err := none
          lineBuffer := (fragments handling.lineBuffer false buffer).2, echoed := handling.echoed ++ buffer } := by
  have written := echoes buffer handling.es.streams
  rw [pass, echo]
  obtain ⟨⟨⟨count, failed⟩, streams⟩, wrote⟩ : ∃ result, (outlets.echo side).write buffer handling.es.streams = result := ⟨_, rfl⟩
  rw [wrote] at written ⊢
  obtain rfl : failed = none := written
  rfl

theorem pass_err_iff :
    (handling.pass outlets side buffer).err ≠ none ↔ handling.Refuses outlets side buffer := by
  rw [pass_echoes echoes, (showLines_err _ rfl).1, Refuses, ne_eq, Option.map_eq_none_iff]

theorem pass_echoed :
    (handling.pass outlets side buffer).echoed = handling.echoed ++ buffer := by
  rw [pass_echoes echoes, (showLines_err _ rfl).2.2.1]

end

theorem pass_nothing (echoes : Echoes outlets side) : (handling.pass outlets side []).err = none := by
  rw [pass_echoes echoes]
  rfl

/-! The turns. -/

theorem after_going (going : (after outlets side reads start turns).going = true) :
    after outlets side reads start (turns + 1) = (after outlets side reads start turns).turn outlets side (reads turns) := by
  rw [after]
  exact if_pos going

theorem after_ended (ended : (after outlets side reads start turns).going = false) (more : Nat) :
    after outlets side reads start (turns + more) = after outlets side reads start turns := by
  induction more with
  | zero => rfl
  | succ more ih =>
    rw [← Nat.add_assoc, after, ih]
    exact if_neg (by simp [ended])

theorem exists_last_turn (begins : start.going = true) (ended : (after outlets side reads start turns).going = false) :
    ∃ last < turns, (after outlets side reads start last).going = true ∧ (after outlets side reads start (last + 1)).going = false := by
  induction turns with
  | zero => rw [after, begins] at ended; cases ended
  | succ turns ih =>
    cases before : (after outlets side reads start turns).going with
    | true => exact ⟨turns, Nat.lt_succ_self turns, before, ended⟩
    | false =>
      obtain ⟨last, less, going, stops⟩ := ih before
      exact ⟨last, Nat.lt_succ_of_lt less, going, stops⟩

section Input

variable {chunks : List (List UInt8)}

theorem turn_delivers (chunks : List (List UInt8)) (call : Nat) :
    handling.turn outlets side (delivers chunks call) = handling.pass outlets side (chunks[call]?.getD []) := by
  rw [delivers]
  cases chunks[call]? <;> rfl

theorem after_echoed (echoes : Echoes outlets side) (fresh : start.echoed = [])
    (going : ∀ earlier < turns, (after outlets side (delivers chunks) start earlier).going = true) :
    (after outlets side (delivers chunks) start turns).echoed = (chunks.take turns).flatten := by
  induction turns with
  | zero => simpa [after] using fresh
  | succ turns ih =>
    rw [after_going (going turns (Nat.lt_succ_self turns)), turn_delivers, pass_echoed echoes,
      ih fun earlier less => going earlier (Nat.lt_succ_of_lt less), List.take_add_one, List.flatten_append]
    cases chunks[turns]? <;> simp

theorem going_before (going : (after outlets side reads start turns).going = true) (earlier : Nat) (less : earlier ≤ turns) :
    (after outlets side reads start earlier).going = true := by
  by_contra ended
  have same := after_ended (by simpa using ended) (turns - earlier)
  rw [Nat.add_sub_cancel' less] at same
  rw [same] at going
  exact ended going

theorem going_iff_err (running : (after outlets side reads start turns).es.running = true) :
    (after outlets side reads start turns).going = true ↔ (after outlets side reads start turns).err = none := by
  simp [going, running]

theorem refuses_of_last (echoes : Echoes outlets side)
    (running : (after outlets side (delivers chunks) start (turns + 1)).es.running = true)
    (going : (after outlets side (delivers chunks) start turns).going = true)
    (stops : (after outlets side (delivers chunks) start (turns + 1)).going = false) :
    ∃ chunk, chunks[turns]? = some chunk ∧ (after outlets side (delivers chunks) start turns).Refuses outlets side chunk := by
  have failed : (after outlets side (delivers chunks) start (turns + 1)).err ≠ none := by
    rw [ne_eq, ← going_iff_err running, stops]
    exact Bool.false_ne_true
  rw [after_going going, turn_delivers] at failed
  cases delivered : chunks[turns]? with
  | none =>
    rw [delivered] at failed
    exact absurd (pass_nothing echoes) failed
  | some chunk =>
    rw [delivered, Option.getD_some, pass_err_iff echoes] at failed
    exact ⟨chunk, rfl, failed⟩

theorem ended_of_refuses (echoes : Echoes outlets side) {chunk} (delivered : chunks[turns]? = some chunk)
    (going : (after outlets side (delivers chunks) start turns).going = true)
    (refuses : (after outlets side (delivers chunks) start turns).Refuses outlets side chunk) :
    (after outlets side (delivers chunks) start (turns + 1)).going = false := by
  have failed := (pass_err_iff echoes chunk).mpr refuses
  rw [after_going going, turn_delivers, delivered, Option.getD_some, Handling.going, Bool.and_eq_false_iff]
  exact .inl (by simpa [Option.isSome_iff_ne_none] using failed)

theorem echoed_iff (echoes : Echoes outlets side) (fresh : start.echoed = [])
    (going : (after outlets side (delivers chunks) start turns).going = true) :
    (after outlets side (delivers chunks) start (turns + 1)).echoed = chunks.flatten ↔ (chunks.drop (turns + 1)).flatten = [] := by
  have whole : chunks.flatten = (chunks.take (turns + 1)).flatten ++ (chunks.drop (turns + 1)).flatten := by
    rw [← List.flatten_append, List.take_append_drop]
  rw [after_echoed echoes fresh fun earlier less => going_before going earlier (Nat.le_of_lt_succ less), whole,
    List.self_eq_append_right]

end Input

end Handling

/-- With an echo that never fails and a session that goes on, the handler ends with all of its input
echoed exactly if a command cannot be written at a read after which only empty ones follow. -/
theorem streamLoop_ends_iff (outlets : Outlets σ ε) (side : Side) (es : ExpectStream σ) (chunks : List (List UInt8))
    (echoes : Handling.Echoes outlets side)
    (running : ∀ turns, (Handling.after outlets side (delivers chunks) { es } turns).es.running = true) :
    (∃ turns, (Handling.after outlets side (delivers chunks) { es } turns).going = false ∧
      (Handling.after outlets side (delivers chunks) { es } turns).echoed = chunks.flatten) ↔
    ∃ turns chunk, (Handling.after outlets side (delivers chunks) { es } turns).going = true ∧
      chunks[turns]? = some chunk ∧ (chunks.drop (turns + 1)).flatten = [] ∧
      (Handling.after outlets side (delivers chunks) { es } turns).Refuses outlets side chunk := by
  constructor
  · intro ends
    obtain ⟨turns, ended, echoed⟩ := ends
    have begins : ({ es } : Handling σ ε).going = true := by
      have first : es.running = true := running 0
      simp [Handling.going, first]
    obtain ⟨last, less, going, stops⟩ := Handling.exists_last_turn begins ended
    obtain ⟨chunk, delivered, refuses⟩ := Handling.refuses_of_last echoes (running _) going stops
    -- nothing is echoed behind the last turn
    have same := Handling.after_ended stops (turns - (last + 1))
    rw [Nat.add_sub_cancel' less] at same
    rw [same, Handling.echoed_iff echoes rfl going] at echoed
    exact ⟨last, chunk, going, delivered, echoed, refuses⟩
  · intro refused
    obtain ⟨turns, chunk, going, delivered, nothing, refuses⟩ := refused
    exact ⟨turns + 1, Handling.ended_of_refuses echoes delivered going refuses, (Handling.echoed_iff echoes rfl going).mpr nothing⟩

/-! A session without expects. -/

/-- The service's output is shown to no expect, and the session goes on. -/
structure Handling.Bare (handling : Handling σ ε) : Prop where
  calm : handling.err = none
  serial : handling.es.serialExpects = []
  triggers : handling.es.triggerOutExpects = []
  running : handling.es.running = true

theorem handleFragments_bare {es} (serial : es.serialExpects = []) (triggers : es.triggerOutExpects = [])
    (shown : List (List UInt8 × Bool)) : ExpectStream.handleFragments outlets .output shown es = (none, es) := by
  induction shown with
  | nil => rfl
  | cons fragment shown ih =>
    obtain ⟨line, newLine⟩ := fragment
    have nothing : ExpectStream.expectHandler outlets .output line newLine es = (none, es) := by
      simp [ExpectStream.expectHandler, ExpectStream.processOutExpects, ExpectStream.outRefs, triggers, ExpectStream.evaluateAll,
        ExpectStream.evaluate, ExpectStream.lookup, serial]
    rw [ExpectStream.handleFragments, nothing]
    exact ih

theorem Handling.Bare.pass {handling : Handling σ ε} (bare : handling.Bare) (echoes : Handling.Echoes outlets .output)
    (buffer : List UInt8) : (handling.pass outlets .output buffer).Bare := by
  rw [Handling.pass_echoes echoes]
  obtain ⟨err, es, -⟩ := @Handling.showLines_err _ _ outlets .output
    { handling with
      es := handling.echo outlets .output buffer, err := none
      lineBuffer := (fragments handling.lineBuffer false buffer).2, echoed := handling.echoed ++ buffer }
    (fragments handling.lineBuffer false buffer).1 rfl
  rw [@handleFragments_bare _ _ outlets (handling.echo outlets .output buffer) bare.serial bare.triggers] at err es
  exact ⟨err, by rw [es]; exact bare.serial, by rw [es]; exact bare.triggers, by rw [es]; exact bare.running⟩

theorem Handling.Bare.after {start : Handling σ ε} (bare : start.Bare) (echoes : Handling.Echoes outlets .output)
    (chunks : List (List UInt8)) (turns : Nat) : (Handling.after outlets .output (delivers chunks) start turns).Bare := by
  induction turns with
  | zero => exact bare
  | succ turns ih =>
    rw [Handling.after_going (by simp [Handling.going, ih.calm, ih.running]), Handling.turn_delivers]
    exact ih.pass echoes _

def bareSession : ExpectStream (List UInt8) := { running := true, streams := [] }

theorem bareSession_bare : ({ es := bareSession } : Handling (List UInt8) Unit).Bare := ⟨rfl, rfl, rfl, rfl⟩

theorem plainOutlets_echoes : Handling.Echoes ExpectStream.plainOutlets .output := fun _ _ => rfl

def refusingOutlets : Outlets (List UInt8) Unit :=
  { ExpectStream.plainOutlets with streamWriter := ⟨fun _ streams => ((0, some ()), streams)⟩ }

def askedSession : ExpectStream (List UInt8) :=
  { running := true, streams := [], triggerOutExpects := [{ startPattern := fun line => line == [97], command := [120] }] }

/-- The answer to a question that comes last cannot be written. -/
theorem streamLoop_ends_iff_refused :
    ∃ turns, (Handling.after refusingOutlets .output (delivers [[98, 10], [97]]) { es := askedSession } turns).going = false ∧
      (Handling.after refusingOutlets .output (delivers [[98, 10], [97]]) { es := askedSession } turns).echoed = [98, 10, 97] := by
  have running (turns) : (Handling.after refusingOutlets .output (delivers [[98, 10], [97]]) { es := askedSession } turns).es.running = true := by
    rcases turns with _ | _ | turns
    · rfl
    · rfl
    · rw [Nat.add_assoc, Nat.add_comm, Handling.after_ended rfl turns]
      rfl
  exact (streamLoop_ends_iff refusingOutlets .output askedSession [[98, 10], [97]] (fun _ _ => rfl) running).mpr
    ⟨1, [97], rfl, rfl, rfl, Option.some_ne_none ()⟩

theorem streamLoop_never_ends :
    ¬ ∃ turns, (Handling.after ExpectStream.plainOutlets .output (delivers [[97]]) { es := bareSession } turns).going = false := by
  intro ends
  obtain ⟨turns, ended⟩ := ends
  have bare := bareSession_bare.after plainOutlets_echoes [[97]] turns
  simp [Handling.going, bare.calm, bare.running] at ended

end MycsCommon.Streams
