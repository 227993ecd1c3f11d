import MycsCommon.Streams.WriteAtBuffer
import Mathlib.Order.Bounds.Defs
import Mathlib.Data.List.Pairwise
import Mathlib.Data.List.Perm.Basic

/-! Pieces of one byte string, written at their offsets in any order, leave the buffer in
the order of the string. The invariant says what the slots are: the pieces written so far
that start at or behind the output position. Between two calls none starts right at it. -/

namespace MycsCommon.Streams
open Library.SortedInsert List

abbrev Piece := Nat × List UInt8

namespace Piece

def stop (piece : Piece) : Nat := piece.1 + piece.2.length

def slot (piece : Piece) : BufferAt := ⟨piece.1, piece.2.length, piece.2⟩

def Apart (one other : Piece) : Prop := one.stop ≤ other.1 ∨ other.stop ≤ one.1

theorem Apart.symm {one other} (apart : Apart one other) : Apart other one := Or.symm apart

instance : Std.Symm Apart := ⟨fun _ _ => Apart.symm⟩

theorem lt_stop {piece : Piece} (filled : piece.2 ≠ []) : piece.1 < piece.stop := by
  have := length_pos_iff.mpr filled
  unfold stop
  omega

end Piece

def placed : Nat → List (List UInt8) → List Piece
  | _, [] => []
  | start, chunk :: chunks => (start, chunk) :: placed (start + chunk.length) chunks

def Covers (written : List Piece) (position : Nat) : Prop :=
  ∃ piece ∈ written, piece.1 ≤ position ∧ position < piece.stop

/-- Pieces of a string that do not overlap. -/
structure Fits (content : List UInt8) (pieces : List Piece) : Prop where
  inside : ∀ piece ∈ pieces, piece.stop ≤ content.length
  cut : ∀ piece ∈ pieces, (content.drop piece.1).take piece.2.length = piece.2
  apart : pieces.Pairwise Piece.Apart

theorem Fits.perm {content pieces others} (fits : Fits content pieces) (same : others.Perm pieces) :
    Fits content others where
  inside piece member := fits.inside piece (same.subset member)
  cut piece member := fits.cut piece (same.subset member)
  apart := (same.pairwise_iff Piece.Apart.symm).mpr fits.apart

theorem Fits.left {content pieces more} (fits : Fits content (pieces ++ more)) : Fits content pieces where
  inside piece member := fits.inside piece (mem_append_left _ member)
  cut piece member := fits.cut piece (mem_append_left _ member)
  apart := (pairwise_append.mp fits.apart).1

theorem Fits.last {content pieces} {new} (fits : Fits content (pieces ++ [new])) :
    ∀ piece ∈ pieces, Piece.Apart piece new :=
  fun piece member => (pairwise_append.mp fits.apart).2.2 piece member new (by simp)

theorem Fits.same_or_apart {content pieces} (fits : Fits content pieces) {one other} (first : one ∈ pieces)
    (second : other ∈ pieces) : one = other ∨ Piece.Apart one other := by
  by_cases same : one = other
  · exact .inl same
  · exact .inr (fits.apart.forall first second same)

theorem le_placed {start} {chunks} {piece} (member : piece ∈ placed start chunks) : start ≤ piece.1 := by
  induction chunks generalizing start with
  | nil => simp [placed] at member
  | cons chunk chunks ih =>
    rcases mem_cons.mp member with rfl | later
    · exact Nat.le_refl _
    · have := ih later
      omega

theorem placed_apart (start : Nat) (chunks : List (List UInt8)) : (placed start chunks).Pairwise Piece.Apart := by
  induction chunks generalizing start with
  | nil => exact List.Pairwise.nil
  | cons chunk chunks ih =>
    refine pairwise_cons.mpr ⟨?_, ih _⟩
    intro piece later
    exact .inl (le_placed later)

theorem placed_cut {front chunks} {piece} (member : piece ∈ placed front.length chunks) :
    piece.stop ≤ (front ++ chunks.flatten).length ∧
      ((front ++ chunks.flatten).drop piece.1).take piece.2.length = piece.2 := by
  induction chunks generalizing front with
  | nil => simp [placed] at member
  | cons chunk chunks ih =>
    rcases mem_cons.mp member with rfl | later
    · simp [Piece.stop]
    · rw [← length_append] at later
      simpa using ih later

theorem placed_fits (chunks : List (List UInt8)) : Fits chunks.flatten (placed 0 chunks) where
  inside piece member := (@placed_cut [] chunks piece member).1
  cut piece member := (@placed_cut [] chunks piece member).2
  apart := placed_apart 0 chunks

theorem placed_covers {start position} {chunks} (after : start ≤ position)
    (before : position < start + chunks.flatten.length) : Covers (placed start chunks) position := by
  induction chunks generalizing start with
  | nil =>
    simp only [flatten_nil, length_nil] at before
    omega
  | cons chunk chunks ih =>
    simp only [flatten_cons, length_append] at before
    by_cases here : position < start + chunk.length
    · exact ⟨(start, chunk), by simp [placed], after, here⟩
    · obtain ⟨piece, member, covered⟩ := ih (show start + chunk.length ≤ position by omega) (by omega)
      exact ⟨piece, mem_cons_of_mem _ member, covered⟩

variable {σ ε : Type} {writer : Writer σ ε} {holds : σ → List UInt8}
variable {content : List UInt8} {written : List Piece} {buffer : WriteAtBuffer σ} {reached : Nat}

/-- The bytes before a position have all been written, by pieces that end there or before, and are out. -/
structure Released (content : List UInt8) (written : List Piece) (out : List UInt8) (reached : Nat) : Prop where
  inside : reached ≤ content.length
  out : out = content.take reached
  covered : ∀ position < reached, Covers written position
  ended : ∀ piece ∈ written, piece.1 < reached → piece.stop ≤ reached

theorem Released.advance {all out} {piece} (released : Released content written out piece.1)
    (fits : Fits content all) (member : piece ∈ all) (more : ∀ other, other ∈ all ↔ other ∈ written ∨ other = piece) :
    Released content all (out ++ piece.2) piece.stop where
  inside := fits.inside piece member
  out := by rw [released.out, Piece.stop, take_add, fits.cut piece member]
  covered position before := by
    by_cases old : position < piece.1
    · obtain ⟨other, present, bounds⟩ := released.covered position old
      exact ⟨other, (more other).mpr (.inl present), bounds⟩
    · exact ⟨piece, member, by omega, before⟩
  ended other present before := by
    have start : piece.1 ≤ piece.stop := Nat.le_add_right _ _
    rcases fits.same_or_apart present member with rfl | apart | apart
    · exact Nat.le_refl _
    · omega
    · omega

/-- What holds whenever the loop over the slots looks at the next one. -/
structure Buffered (holds : σ → List UInt8) (content : List UInt8) (written : List Piece) (buffer : WriteAtBuffer σ)
    (reached : Nat) : Prop where
  outAt : buffer.outAt = reached
  released : Released content written (holds buffer.data) reached
  sorted : buffer.bufferSlot.Pairwise fun first last => first.pos < last.pos
  slots : ∀ slot, slot ∈ buffer.bufferSlot ↔ ∃ piece ∈ written, reached ≤ piece.1 ∧ piece.2 ≠ [] ∧ slot = piece.slot

/-- Between calls no slot is next: the byte at the output position is missing. -/
structure Waiting (holds : σ → List UInt8) (content : List UInt8) (written : List Piece) (buffer : WriteAtBuffer σ)
    (reached : Nat) : Prop extends Buffered holds content written buffer reached where
  missing : ∀ slot ∈ buffer.bufferSlot, buffer.outAt < slot.pos

theorem waiting_new (content : List UInt8) {sink : σ} (empty : holds sink = []) :
    Waiting holds content [] (newWriteAtBuffer sink) 0 where
  outAt := rfl
  released :=
    { inside := Nat.zero_le _
      out := by simpa [newWriteAtBuffer] using empty
      covered := fun position impossible => by omega
      ended := fun piece impossible => by simp at impossible }
  sorted := List.Pairwise.nil
  slots slot := by simp [newWriteAtBuffer]
  missing slot impossible := by simp [newWriteAtBuffer] at impossible

section

variable (accepts : Accepts writer holds) (fits : Fits content written)
include accepts fits

theorem Buffered.release {slot : BufferAt} {rest}
    (now : Buffered holds content written buffer reached) (split : buffer.bufferSlot = slot :: rest)
    (next : buffer.outAt = slot.pos) : ∃ after, Buffered holds content written
      { data := (writer.write slot.data buffer.data).2
        outAt := buffer.outAt + slot.data.length
        bufferSlot := rest } after := by
  obtain ⟨piece, member, -, filled, rfl⟩ := (now.slots slot).mp (by simp [split])
  have start := Int.ofNat_inj.mp (now.outAt.symm.trans next)
  subst start
  obtain ⟨first, sorted⟩ := pairwise_cons.mp (split ▸ now.sorted)
  refine ⟨piece.stop, ?_, ?_, sorted, ?_⟩
  · simp [now.outAt, Piece.stop, Piece.slot]
  · rw [accepts.keeps]
    exact now.released.advance fits member fun other => ⟨.inl, fun either => either.elim id fun same => same ▸ member⟩
  · intro other
    have old := now.slots other
    rw [split, mem_cons] at old
    constructor
    · intro later
      obtain ⟨source, present, after, full, rfl⟩ := old.mp (.inr later)
      have beyond := Int.ofNat_lt.mp (first _ later)
      refine ⟨source, present, ?_, full, rfl⟩
      have := Piece.lt_stop full
      rcases fits.same_or_apart present member with rfl | apart | apart <;> omega
    · rintro ⟨source, present, after, full, rfl⟩
      have := Piece.lt_stop filled
      rcases old.mpr ⟨source, present, by omega, full, rfl⟩ with same | later
      · have : source.1 = piece.1 := Int.ofNat_inj.mp (congrArg BufferAt.pos same)
        omega
      · exact later

theorem releaseSlots_waiting {slots}
    (all : buffer.bufferSlot = slots) (now : Buffered holds content written buffer reached) :
    (releaseSlots writer slots buffer).1 = none ∧
      ∃ after, Waiting holds content written (releaseSlots writer slots buffer).2 after := by
  induction slots generalizing buffer reached with
  | nil => exact ⟨rfl, reached, now, by simp [releaseSlots, all]⟩
  | cons slot rest ih =>
    have bound : buffer.outAt ≤ slot.pos := by
      obtain ⟨piece, -, after, -, rfl⟩ := (now.slots slot).mp (by simp [all])
      rw [now.outAt]
      exact Int.ofNat_le.mpr after
    rw [releaseSlots, if_neg (by omega)]
    by_cases later : buffer.outAt < slot.pos
    · rw [if_pos later]
      refine ⟨rfl, reached, now, ?_⟩
      intro other member
      rw [all] at member
      rcases mem_cons.mp member with rfl | behind
      · exact later
      · exact lt_trans later ((pairwise_cons.mp (all ▸ now.sorted)).1 other behind)
    · rw [if_neg later]
      obtain ⟨after, moved⟩ := now.release accepts fits all (by omega)
      have emptied : (if rest.isEmpty then [] else buffer.bufferSlot.drop 1) = rest := by
        cases rest <;> simp [all]
      have taken := accepts.whole slot.data buffer.data
      rcases written' : writer.write slot.data buffer.data with ⟨answer, sink⟩
      rw [written'] at taken moved
      subst taken
      simp only [emptied]
      exact ih rfl moved

theorem saveRest_waiting {left}
    (saved : Buffered holds content written (if 0 < left.outSize then saveSlot buffer ⟨left.offset, left.outSize, left.rest⟩ else buffer) reached) :
    (saveRest writer left buffer).1 = (left.retSize, none) ∧
      ∃ after, Waiting holds content written (saveRest writer left buffer).2 after := by
  obtain ⟨fine, waiting⟩ := releaseSlots_waiting accepts fits rfl saved
  exact ⟨congrArg (Prod.mk left.retSize) fine, waiting⟩

end

theorem saveSlot_slots (buffer : WriteAtBuffer σ) (slot : BufferAt) :
    saveSlot buffer slot = { buffer with
      bufferSlot := insertAt buffer.bufferSlot (placeOf BufferAt.pos slot.pos buffer.bufferSlot) slot } := by
  unfold saveSlot
  split
  · rfl
  case isFalse short =>
    have empty : buffer.bufferSlot = [] := length_eq_zero_iff.mp (by omega)
    simp [empty, insertAt]

section Step

variable {new : Piece} (fits : Fits content (written ++ [new])) (now : Waiting holds content written buffer reached)
include fits now

theorem Waiting.write (accepts : Accepts writer holds) (next : new.1 = reached) :
    Buffered holds content (written ++ [new])
      { buffer with data := (writer.write new.2 buffer.data).2, outAt := buffer.outAt + new.2.length } new.stop where
  outAt := by simp [now.outAt, Piece.stop, next]
  released := by
    rw [accepts.keeps]
    subst next
    exact now.released.advance fits (by simp) fun other => by simp
  sorted := now.sorted
  slots slot := by
    rw [now.slots]
    constructor
    · rintro ⟨piece, member, after, filled, rfl⟩
      have beyond := now.missing piece.slot ((now.slots _).mpr ⟨piece, member, after, filled, rfl⟩)
      rw [now.outAt] at beyond
      have : reached < piece.1 := Int.ofNat_lt.mp beyond
      refine ⟨piece, mem_append_left _ member, ?_, filled, rfl⟩
      have := Piece.lt_stop filled
      rcases fits.last piece member with apart | apart <;> omega
    · rintro ⟨piece, member, after, filled, rfl⟩
      have start : new.1 ≤ new.stop := Nat.le_add_right _ _
      rcases mem_append.mp member with old | added
      · exact ⟨piece, old, by omega, filled, rfl⟩
      · have := Piece.lt_stop filled
        obtain rfl := mem_singleton.mp added
        omega

theorem Waiting.skip (empty : new.2 = []) : Buffered holds content (written ++ [new]) buffer reached where
  outAt := now.outAt
  released :=
    { inside := now.released.inside
      out := now.released.out
      covered := fun position before =>
        have ⟨piece, member, bounds⟩ := now.released.covered position before
        ⟨piece, mem_append_left _ member, bounds⟩
      ended := fun piece member before => by
        rcases mem_append.mp member with old | added
        · exact now.released.ended piece old before
        · obtain rfl := mem_singleton.mp added
          simp only [Piece.stop, empty, length_nil]
          omega }
  sorted := now.sorted
  slots slot := by
    rw [now.slots]
    constructor
    · rintro ⟨piece, member, rest⟩
      exact ⟨piece, mem_append_left _ member, rest⟩
    · rintro ⟨piece, member, after, filled, same⟩
      rcases mem_append.mp member with old | added
      · exact ⟨piece, old, after, filled, same⟩
      · exact absurd (mem_singleton.mp added ▸ empty) filled

theorem Waiting.beyond (filled : new.2 ≠ []) : reached ≤ new.1 := by
  by_contra before
  obtain ⟨piece, member, start, stop⟩ := now.released.covered new.1 (by omega)
  have := Piece.lt_stop filled
  rcases fits.last piece member with apart | apart <;> omega

theorem Waiting.save (filled : new.2 ≠ []) : Buffered holds content (written ++ [new]) (saveSlot buffer new.slot) reached := by
  have beyond := now.beyond fits filled
  have fresh : ∀ other ∈ buffer.bufferSlot, other.pos ≠ new.slot.pos := by
    intro other member same
    obtain ⟨piece, present, -, full, rfl⟩ := (now.slots other).mp member
    have start := Int.ofNat_inj.mp same
    have := Piece.lt_stop filled
    have := Piece.lt_stop full
    rcases fits.last piece present with apart | apart <;> omega
  rw [saveSlot_slots]
  refine ⟨now.outAt, ⟨now.released.inside, now.released.out, ?_, ?_⟩, sorted_insertAt now.sorted fresh, ?_⟩
  · intro position before
    obtain ⟨piece, member, bounds⟩ := now.released.covered position before
    exact ⟨piece, mem_append_left _ member, bounds⟩
  · intro piece member before
    rcases mem_append.mp member with old | added
    · exact now.released.ended piece old before
    · obtain rfl := mem_singleton.mp added
      omega
  · intro slot
    rw [mem_insertAt, now.slots]
    constructor
    · rintro (rfl | ⟨piece, member, rest⟩)
      · exact ⟨new, by simp, beyond, filled, rfl⟩
      · exact ⟨piece, mem_append_left _ member, rest⟩
    · rintro ⟨piece, member, after, full, rfl⟩
      rcases mem_append.mp member with old | added
      · exact .inr ⟨piece, old, after, full, rfl⟩
      · exact .inl (congrArg Piece.slot (mem_singleton.mp added))

theorem writeAt_waiting (accepts : Accepts writer holds) :
    (writeAt writer new.2 new.1 buffer).1 = (new.2.length, none) ∧
      ∃ after, Waiting holds content (written ++ [new]) (writeAt writer new.2 new.1 buffer).2 after := by
  unfold writeAt
  by_cases next : (new.1 : Int) = buffer.outAt
  · rw [if_pos next]
    have start := Int.ofNat_inj.mp (next.trans now.outAt)
    have moved := now.write fits accepts start
    have taken := accepts.whole new.2 buffer.data
    rcases called : writer.write new.2 buffer.data with ⟨answer, sink⟩
    rw [called] at taken moved
    subst taken
    simp only [Nat.lt_irrefl, if_false]
    exact saveRest_waiting accepts fits (by simpa using moved)
  · rw [if_neg next]
    refine saveRest_waiting accepts fits (show Buffered _ _ _ _ reached from ?_)
    by_cases empty : new.2 = []
    · simpa [empty] using now.skip fits empty
    · rw [if_pos (length_pos_iff.mpr empty)]
      exact now.save fits empty

end Step

theorem writeAll_waiting (accepts : Accepts writer holds) {writes} (fits : Fits content (written ++ writes))
    (now : Waiting holds content written buffer reached) :
    (writeAll writer writes buffer).1 = writes.map (fun piece => (piece.2.length, none)) ∧
      ∃ after, Waiting holds content (written ++ writes) (writeAll writer writes buffer).2 after := by
  induction writes generalizing written buffer reached with
  | nil => exact ⟨rfl, reached, by simpa [writeAll] using now⟩
  | cons new writes ih =>
    have joined : written ++ new :: writes = written ++ [new] ++ writes := by simp
    rw [joined] at fits ⊢
    obtain ⟨result, middle, waiting⟩ := writeAt_waiting fits.left now accepts
    obtain ⟨results, final⟩ := ih fits waiting
    refine ⟨?_, final⟩
    rw [map_cons, ← results, ← result]
    rfl

/-- The state the buffer is in after writes: what the sink has, the output position, and the slots. -/
structure Reassembled (holds : σ → List UInt8) (content : List UInt8) (written : List Piece) (buffer : WriteAtBuffer σ)
    (reached : Nat) : Prop where
  longest : IsGreatest {length | length ≤ content.length ∧ ∀ position < length, Covers written position} reached
  outAt : buffer.outAt = reached
  out : holds buffer.data = content.take reached
  sorted : buffer.bufferSlot.Pairwise fun first last => first.pos < last.pos
  slots : ∀ slot, slot ∈ buffer.bufferSlot ↔ ∃ piece ∈ written, reached < piece.1 ∧ piece.2 ≠ [] ∧ slot = piece.slot

theorem Waiting.reassembled (now : Waiting holds content written buffer reached) :
    Reassembled holds content written buffer reached where
  longest := by
    refine ⟨⟨now.released.inside, now.released.covered⟩, ?_⟩
    rintro length ⟨-, covered⟩
    by_contra longer
    obtain ⟨piece, member, start, stop⟩ := covered reached (by omega)
    have filled : piece.2 ≠ [] := by
      intro empty
      simp only [Piece.stop, empty, length_nil] at stop
      omega
    by_cases before : piece.1 < reached
    · have := now.released.ended piece member before
      omega
    · have held := now.missing _ ((now.slots _).mpr ⟨piece, member, by omega, filled, rfl⟩)
      rw [now.outAt] at held
      have : reached < piece.1 := Int.ofNat_lt.mp held
      omega
  outAt := now.outAt
  out := now.released.out
  sorted := now.sorted
  slots slot := by
    constructor
    · intro member
      obtain ⟨piece, present, after, filled, rfl⟩ := (now.slots slot).mp member
      have beyond := now.missing _ member
      rw [now.outAt] at beyond
      exact ⟨piece, present, Int.ofNat_lt.mp beyond, filled, rfl⟩
    · rintro ⟨piece, present, after, rest⟩
      exact (now.slots slot).mpr ⟨piece, present, by omega, rest⟩

theorem close_eq_none {buffer : WriteAtBuffer σ} : (close buffer : Option (WriteError ε)) = none ↔ buffer.bufferSlot = [] := by
  simp [close]

theorem Reassembled.complete (now : Reassembled holds content written buffer reached) (fits : Fits content written)
    (all : ∀ position < content.length, Covers written position) :
    holds buffer.data = content ∧ buffer.bufferSlot = [] := by
  have done := Nat.le_antisymm now.longest.1.1 (now.longest.2 ⟨Nat.le_refl _, all⟩)
  refine ⟨by rw [now.out, done, take_length], ?_⟩
  apply eq_nil_iff_forall_not_mem.mpr
  intro slot member
  obtain ⟨piece, present, beyond, filled, -⟩ := (now.slots slot).mp member
  have := fits.inside piece present
  have := Piece.lt_stop filled
  omega

theorem Reassembled.close_iff (now : Reassembled holds content written buffer reached) :
    (close buffer : Option (WriteError ε)) ≠ none ↔ ∃ piece ∈ written, reached < piece.1 ∧ piece.2 ≠ [] := by
  rw [ne_eq, close_eq_none, eq_nil_iff_forall_not_mem]
  constructor
  · intro occupied
    obtain ⟨slot, member⟩ := not_forall_not.mp occupied
    obtain ⟨piece, present, beyond, filled, -⟩ := (now.slots slot).mp member
    exact ⟨piece, present, beyond, filled⟩
  · rintro ⟨piece, present, beyond, filled⟩ vacant
    exact vacant _ ((now.slots _).mpr ⟨piece, present, beyond, filled, rfl⟩)

theorem writeAt_reassembles (accepts : Accepts writer holds) {sink : σ} (empty : holds sink = [])
    (chunks : List (List UInt8)) (before after : List Piece) (permuted : (before ++ after).Perm (placed 0 chunks)) :
    let run := writeAll writer before (newWriteAtBuffer sink)
    run.1 = before.map (fun piece => (piece.2.length, none)) ∧
      ∃ reached, Reassembled holds chunks.flatten before run.2 reached ∧
        ((close run.2 : Option (WriteError ε)) ≠ none ↔ ∃ piece ∈ before, reached < piece.1 ∧ piece.2 ≠ []) ∧
        (after = [] → holds run.2.data = chunks.flatten ∧ (close run.2 : Option (WriteError ε)) = none) := by
  have fits := ((placed_fits chunks).perm permuted).left
  obtain ⟨results, reached, waiting⟩ :=
    writeAll_waiting accepts (show Fits _ ([] ++ before) from fits) (waiting_new chunks.flatten empty)
  have reassembled := waiting.reassembled
  refine ⟨results, reached, reassembled, reassembled.close_iff, ?_⟩
  rintro rfl
  rw [append_nil] at permuted
  obtain ⟨out, vacant⟩ := reassembled.complete fits fun position inside => by
    obtain ⟨piece, member, bounds⟩ := placed_covers (Nat.zero_le position) (by simpa using inside)
    exact ⟨piece, permuted.symm.subset member, bounds⟩
  exact ⟨out, close_eq_none.mpr vacant⟩

def bytesBuffer : Writer (List UInt8) Empty := ⟨fun data held => ((data.length, none), held ++ data)⟩

theorem writeAt_reassembles_backwards :
    ∃ reached, Reassembled id [1, 2, 3, 4] [(3, [4]), (0, [1, 2])]
      (writeAll bytesBuffer [(3, [4]), (0, [1, 2])] (newWriteAtBuffer [])).2 reached := by
  have accepts : Accepts bytesBuffer id := ⟨fun _ _ => rfl, fun _ _ => rfl⟩
  obtain ⟨-, reached, state, -⟩ :=
    writeAt_reassembles accepts rfl [[1, 2], [3], [4]] [(3, [4]), (0, [1, 2])] [(2, [3])] (by decide)
  exact ⟨reached, state⟩

end MycsCommon.Streams
