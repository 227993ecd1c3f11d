import MycsCommon.Proofs.Reassembly

/-! A buffer over a sink that may fail at any write, after taking a part of it, and work again.
The caller writes what a failed call did not take once more. The content stays in order unless
the sink takes a part of a slot: the slot keeps that part, and it is written again. -/

namespace MycsCommon.Streams
open Library.SortedInsert List Piece Stream

variable {σ ε : Type} {writer : Writer σ ε} {holds : σ → List UInt8}

/-- A sink that takes a part of what it is given, and all of it unless it fails. -/
structure TakesPart (writer : Writer σ ε) (holds : σ → List UInt8) : Prop where
  bounded : ∀ data sink, (writer.write data sink).1.1 ≤ data.length
  keeps : ∀ data sink, holds (writer.write data sink).2 = holds sink ++ data.take (writer.write data sink).1.1
  whole : ∀ data sink, (writer.write data sink).1.2 = none → (writer.write data sink).1.1 = data.length

theorem TakesPart.cases (law : TakesPart writer holds) (data : List UInt8) (sink : σ) :
    (∃ count err after, writer.write data sink = ((count, some err), after) ∧ count ≤ data.length ∧
      holds after = holds sink ++ data.take count) ∨
    ∃ after, writer.write data sink = ((data.length, none), after) ∧ holds after = holds sink ++ data := by
  have bounded := law.bounded data sink
  have keeps := law.keeps data sink
  have whole := law.whole data sink
  obtain ⟨⟨⟨count, err⟩, after⟩, written⟩ : ∃ result, writer.write data sink = result := ⟨_, rfl⟩
  rw [written] at bounded keeps whole
  cases err with
  | some err => exact .inl ⟨count, err, after, written, bounded, keeps⟩
  | none =>
    obtain rfl : count = data.length := whole rfl
    exact .inr ⟨after, written, by simpa using keeps⟩

/-- The pieces that are still to be written, against the content: what is out is a part of it,
and the output position is where that part ends, or it is short of everything to be written. -/
structure Stream (content : List UInt8) (left : List Piece) (out : List UInt8) (position reached : Nat) : Prop where
  fits : Fits content left
  out : out = content.take reached
  ahead : ∀ piece ∈ left, piece.2 ≠ [] → position ≤ piece.1
  exact : position = reached ∨ ∀ piece ∈ left, piece.2 ≠ [] → position < piece.1

theorem Fits.sublist {content pieces fewer} (fits : Fits content pieces) (part : fewer.Sublist pieces) :
    Fits content fewer where
  inside piece member := fits.inside piece (part.subset member)
  cut piece member := fits.cut piece (part.subset member)
  apart := fits.apart.sublist part

namespace Stream

variable {content out : List UInt8} {left other : List Piece} {piece : Piece} {position reached : Nat}

theorem perm (now : Stream content left out position reached) (same : other.Perm left) :
    Stream content other out position reached where
  fits := now.fits.perm same
  out := now.out
  ahead piece member := now.ahead piece (same.subset member)
  exact := now.exact.imp_right fun short piece member => short piece (same.subset member)

theorem sublist (now : Stream content left out position reached) (part : other.Sublist left) :
    Stream content other out position reached where
  fits := now.fits.sublist part
  out := now.out
  ahead piece member := now.ahead piece (part.subset member)
  exact := now.exact.imp_right fun short piece member => short piece (part.subset member)

def rest (piece : Piece) (count : Nat) : Piece := (piece.1 + count, piece.2.drop count)

theorem fits_rest (fits : Fits content (piece :: left)) {count} (bounded : count ≤ piece.2.length) :
    Fits content (rest piece count :: left) where
  inside := by
    have bound := fits.inside piece (by simp)
    intro found member
    obtain rfl | member := mem_cons.mp member
    · simp only [rest, stop, length_drop] at bound ⊢
      omega
    · exact fits.inside found (by simp [member])
  cut := by
    have cut := fits.cut piece (by simp)
    intro found member
    obtain rfl | member := mem_cons.mp member
    · have dropped := congrArg (List.drop count) cut
      rw [drop_take, drop_drop] at dropped
      simpa [rest, Nat.add_comm] using dropped
    · exact fits.cut found (by simp [member])
  apart := by
    obtain ⟨apart, others⟩ := pairwise_cons.mp fits.apart
    refine pairwise_cons.mpr ⟨fun found member => ?_, others⟩
    have := apart found member
    simp only [Apart, rest, stop, length_drop] at this ⊢
    omega

section

variable (now : Stream content (piece :: left) out piece.1 reached)
include now

theorem next (filled : piece.2 ≠ []) :
    piece.1 = reached ∧ ∀ found ∈ left, found.2 ≠ [] → piece.stop ≤ found.1 := by
  refine ⟨now.exact.resolve_right fun short => ?_, fun found member full => ?_⟩
  · exact Nat.lt_irrefl _ (short piece (by simp) filled)
  · have := now.ahead found (by simp [member]) full
    have := lt_stop full
    have := (pairwise_cons.mp now.fits.apart).1 found member
    unfold Apart at this
    omega

theorem part {count} (bounded : count ≤ piece.2.length) :
    ∃ after, Stream content (rest piece count :: left) (out ++ piece.2.take count) piece.1 after := by
  by_cases none : count = 0
  · subst none
    exact ⟨reached, by simpa [rest] using now⟩
  have filled : piece.2 ≠ [] := by
    rintro empty
    simp [empty] at bounded
    omega
  obtain ⟨here, behind⟩ := now.next filled
  have longer := lt_stop filled
  refine ⟨piece.1 + count, fits_rest now.fits bounded, ?_, ?_, .inr ?_⟩
  · have cut := congrArg (List.take count) (now.fits.cut piece (by simp))
    rw [take_take, Nat.min_eq_left bounded] at cut
    rw [now.out, ← here, take_add, cut]
  · intro found member full
    obtain rfl | member := mem_cons.mp member
    · simp [rest]
    · exact Nat.le_trans (Nat.le_of_lt longer) (behind found member full)
  · intro found member full
    obtain rfl | member := mem_cons.mp member
    · simp only [rest]
      omega
    · exact Nat.lt_of_lt_of_le longer (behind found member full)

theorem whole :
    ∃ after, Stream content left (out ++ piece.2) piece.stop after := by
  by_cases empty : piece.2 = []
  · refine ⟨reached, ?_⟩
    have same : piece.stop = piece.1 := by simp [stop, empty]
    rw [same, empty, append_nil]
    exact now.sublist (sublist_cons_self _ _)
  obtain ⟨here, behind⟩ := now.next empty
  refine ⟨piece.stop, now.fits.sublist (sublist_cons_self _ _), ?_, behind, .inl rfl⟩
  rw [now.out, ← here, stop, take_add, now.fits.cut piece (by simp)]

end

theorem addEmpty (now : Stream content left out position reached) (member : piece ∈ left) :
    Stream content ((piece.stop, []) :: left) out position reached where
  fits := by
    refine ⟨?_, ?_, ?_⟩
    · intro found among
      obtain rfl | among := mem_cons.mp among
      · simpa [stop] using now.fits.inside piece member
      · exact now.fits.inside found among
    · intro found among
      obtain rfl | among := mem_cons.mp among
      · simp
      · exact now.fits.cut found among
    · refine pairwise_cons.mpr ⟨fun found among => ?_, now.fits.apart⟩
      have start : piece.1 ≤ piece.stop := Nat.le_add_right _ _
      have := now.fits.same_or_apart member among
      simp only [Apart, stop, length_nil] at *
      obtain rfl | apart := this
      · exact .inr (Nat.le_refl _)
      · omega
  out := now.out
  ahead := by simpa using now.ahead
  exact := by simpa using now.exact

end Stream

/-- The buffer holds some of the pieces that are left in its slots, and others are to come. -/
structure Intact (holds : σ → List UInt8) (content : List UInt8) (held pending : List Piece) (buffer : WriteAtBuffer σ)
    (position reached : Nat) : Prop where
  outAt : buffer.outAt = position
  slots : buffer.bufferSlot = held.map slot
  filled : ∀ piece ∈ held, piece.2 ≠ []
  stream : Stream content (held ++ pending) (holds buffer.data) position reached

/-- Whenever the write of a slot fails in the loop over the slots, nothing of it was taken. -/
def cleanSlots (writer : Writer σ ε) : List BufferAt → WriteAtBuffer σ → Bool
  | [], _ => true
  | slot :: rest, buffer =>
    if slot.pos = buffer.outAt then
      match writer.write slot.data buffer.data with
      | ((count, some _), _) => count == 0
      | ((count, none), sink) =>
        cleanSlots writer rest
          { data := sink, outAt := buffer.outAt + count, bufferSlot := if rest.isEmpty then [] else buffer.bufferSlot.drop 1 }
    else true

/-- The same for a call: its data is written or gets a slot, then the slots are looked at. -/
def cleanCall (writer : Writer σ ε) (data : List UInt8) (offset : Int) (buffer : WriteAtBuffer σ) : Bool :=
  if offset = buffer.outAt then
    match writer.write data buffer.data with
    | ((_, some _), _) => true
    | ((count, none), sink) => cleanSlots writer buffer.bufferSlot { buffer with data := sink, outAt := buffer.outAt + count }
  else if data.isEmpty then cleanSlots writer buffer.bufferSlot buffer
  else cleanSlots writer (saveSlot buffer ⟨offset, data.length, data⟩).bufferSlot (saveSlot buffer ⟨offset, data.length, data⟩)

theorem Intact.perm {content held pending other buffer} {position reached}
    (now : Intact holds content held pending buffer position reached) (same : other.Perm pending) :
    Intact holds content held other buffer position reached :=
  ⟨now.outAt, now.slots, now.filled, now.stream.perm (same.append_left held)⟩

section
variable {content : List UInt8} {held pending : List Piece} {buffer : WriteAtBuffer σ} {position reached : Nat}
  (law : TakesPart writer holds)
include law

theorem releaseSlots_intact (now : Intact holds content held pending buffer position reached)
    (clean : cleanSlots writer buffer.bufferSlot buffer = true) :
    ∃ held position reached,
      Intact holds content held pending (releaseSlots writer buffer.bufferSlot buffer).2 position reached := by
  induction held generalizing buffer position reached with
  | nil =>
    rw [now.slots]
    exact ⟨[], position, reached, now⟩
  | cons piece held ih =>
    have filled := now.filled piece (by simp)
    have ahead := now.stream.ahead piece (by simp) filled
    have all : buffer.bufferSlot = piece.slot :: held.map slot := now.slots
    rw [all] at clean ⊢
    unfold releaseSlots
    have start : piece.slot.pos = (piece.1 : Int) := rfl
    rw [if_neg (by rw [start, now.outAt]; omega)]
    by_cases later : buffer.outAt < piece.slot.pos
    · rw [if_pos later]
      exact ⟨_, _, _, now⟩
    rw [if_neg later]
    have here : piece.1 = position := by
      rw [start, now.outAt] at later
      omega
    subst here
    rw [cleanSlots, if_pos (by rw [now.outAt, start])] at clean
    obtain ⟨count, err, sink, written, -, keeps⟩ | ⟨sink, written, keeps⟩ := law.cases piece.slot.data buffer.data
    · obtain rfl : count = 0 := by simpa [written] using clean
      simp only [written]
      refine ⟨piece :: held, piece.1, reached, now.outAt, now.slots, now.filled, ?_⟩
      simpa [keeps] using now.stream
    · have emptied : (if (held.map slot).isEmpty then [] else buffer.bufferSlot.drop 1) = held.map slot := by
        cases held <;> simp [all]
      obtain ⟨after, moved⟩ := now.stream.whole
      have next : Intact holds content held pending
          { data := sink, outAt := buffer.outAt + piece.2.length, bufferSlot := held.map slot } piece.stop after :=
        ⟨by simp [now.outAt, stop], rfl, fun found member => now.filled found (by simp [member]),
          by simpa [keeps, slot] using moved⟩
      simp only [written, emptied] at clean ⊢
      exact ih next clean

theorem releaseSlots_intact_rest {piece}
    (now : Intact holds content held ((piece.stop, []) :: pending) buffer position reached)
    (clean : cleanSlots writer buffer.bufferSlot buffer = true) : ∃ held position reached,
      Intact holds content held
        (if (releaseSlots writer buffer.bufferSlot buffer).1.isNone then pending
          else Stream.rest piece piece.2.length :: pending)
        (releaseSlots writer buffer.bufferSlot buffer).2 position reached := by
  obtain ⟨held, position, reached, released⟩ := releaseSlots_intact law now clean
  refine ⟨held, position, reached, released.outAt, released.slots, released.filled, ?_⟩
  have same : Stream.rest piece piece.2.length = (piece.stop, []) := by simp [Stream.rest, Piece.stop]
  rw [same]
  cases (releaseSlots writer buffer.bufferSlot buffer).1.isNone with
  | true => exact released.stream.sublist ((sublist_cons_self _ _).append_left _)
  | false => exact released.stream

omit law in
theorem Intact.save {piece} (now : Intact holds content held (piece :: pending) buffer position reached)
    (filled : piece.2 ≠ []) :
    Intact holds content (insertAt held (placeOf BufferAt.pos piece.slot.pos buffer.bufferSlot) piece)
      ((piece.stop, []) :: pending) (saveSlot buffer piece.slot) position reached := by
  rw [saveSlot_slots]
  refine ⟨now.outAt, ?_, ?_, ?_⟩
  · rw [map_insertAt, ← now.slots]
  · intro found member
    obtain rfl | member := mem_insertAt.mp member
    · exact filled
    · exact now.filled found member
  · have more := @Stream.addEmpty _ _ _ piece _ _ now.stream (by simp)
    refine more.perm ?_
    have inserted := (perm_insertAt held (placeOf BufferAt.pos piece.slot.pos buffer.bufferSlot) piece).append_right
      ((piece.stop, []) :: pending)
    refine inserted.trans ?_
    rw [cons_append]
    exact (perm_middle.cons piece).trans
      ((List.Perm.swap _ _ _).trans ((perm_middle.symm).cons _))

omit law in
theorem Intact.wrote {piece} {sink : σ} (now : Intact holds content held (piece :: pending) buffer piece.1 reached)
    (taken : holds sink = holds buffer.data ++ piece.2) :
    ∃ after, Intact holds content held ((piece.stop, []) :: pending)
      { buffer with data := sink, outAt := buffer.outAt + piece.2.length } piece.stop after := by
  have more := @Stream.addEmpty _ _ _ piece _ _ now.stream (by simp)
  have front : (piece :: ((piece.stop, []) :: (held ++ pending))).Perm ((piece.stop, []) :: (held ++ piece :: pending)) :=
    (List.Perm.swap _ _ _).trans ((perm_middle.symm).cons _)
  obtain ⟨after, moved⟩ := (more.perm front).whole
  refine ⟨after, by simp [now.outAt, stop], now.slots, now.filled, ?_⟩
  rw [taken]
  exact moved.perm perm_middle

theorem writeAt_intact {piece} (now : Intact holds content held (piece :: pending) buffer position reached)
    (clean : cleanCall writer piece.2 piece.1 buffer = true) :
    ∃ count err after, writeAt writer piece.2 piece.1 buffer = ((count, err), after) ∧
      ∃ held position reached,
        Intact holds content held (if err.isNone then pending else Stream.rest piece count :: pending)
          after position reached := by
  unfold cleanCall at clean
  unfold writeAt
  by_cases next : (piece.1 : Int) = buffer.outAt
  · have here := Int.ofNat_inj.mp (next.trans now.outAt)
    subst here
    rw [if_pos next] at clean ⊢
    obtain ⟨count, err, sink, written, bounded, keeps⟩ | ⟨sink, written, keeps⟩ := law.cases piece.2 buffer.data
    · rw [written]
      refine ⟨count, _, _, rfl, held, piece.1, ?_⟩
      obtain ⟨after, moved⟩ := (now.stream.perm perm_middle.symm).part bounded
      refine ⟨after, now.outAt, now.slots, now.filled, ?_⟩
      rw [keeps]
      exact moved.perm perm_middle
    · rw [written] at clean ⊢
      obtain ⟨after, wrote⟩ := now.wrote keeps
      refine ⟨piece.2.length, _, _, ?_, releaseSlots_intact_rest law wrote clean⟩
      simp [saveRest]
  · rw [if_neg next] at clean ⊢
    by_cases empty : piece.2 = []
    · rw [if_pos (by simp [empty])] at clean
      have same : (piece.stop, []) = piece := Prod.ext (by simp [stop, empty]) empty.symm
      have rested := releaseSlots_intact_rest law (same ▸ now) clean
      refine ⟨piece.2.length, _, _, ?_, rested⟩
      simp [saveRest, empty]
    · rw [if_neg (by simp [empty])] at clean
      have filled := length_pos_iff.mpr empty
      refine ⟨piece.2.length, _, _, ?_, releaseSlots_intact_rest law (now.save empty) clean⟩
      simp [saveRest, filled, slot]

end

/-- A caller with the pieces it has to write. -/
structure Transfer (σ : Type) where
  buffer : WriteAtBuffer σ
  pending : List Piece

namespace Transfer

/-- The caller writes one of its pieces; of a failed call it keeps what was not taken. -/
def call (writer : Writer σ ε) (transfer : Transfer σ) (index : Nat) : Transfer σ :=
  match transfer.pending[index]? with
  | none => transfer
  | some piece =>
    let ((count, err), buffer) := writeAt writer piece.2 piece.1 transfer.buffer
    { buffer
      pending := if err.isNone then transfer.pending.eraseIdx index
        else transfer.pending.set index (piece.1 + count, piece.2.drop count) }

def run (writer : Writer σ ε) (choices : List Nat) (transfer : Transfer σ) : Transfer σ := choices.foldl (call writer) transfer

/-- No call of the run has a slot taken in part. -/
def clean (writer : Writer σ ε) : List Nat → Transfer σ → Bool
  | [], _ => true
  | index :: choices, transfer =>
    transfer.pending[index]?.all (fun piece => cleanCall writer piece.2 piece.1 transfer.buffer) &&
      clean writer choices (transfer.call writer index)

/-- A caller that is about to write a content in chunks. -/
def new (chunks : List (List UInt8)) (sink : σ) : Transfer σ := ⟨newWriteAtBuffer sink, placed 0 chunks⟩

variable {content : List UInt8} {transfer : Transfer σ} {held : List Piece} {position reached : Nat}

theorem call_intact (law : TakesPart writer holds) (index : Nat)
    (now : Intact holds content held transfer.pending transfer.buffer position reached)
    (clean : transfer.pending[index]?.all (fun piece => cleanCall writer piece.2 piece.1 transfer.buffer) = true) :
    ∃ held position reached,
      Intact holds content held (transfer.call writer index).pending (transfer.call writer index).buffer position reached := by
  unfold call
  cases chosen : transfer.pending[index]? with
  | none => exact ⟨held, position, reached, now⟩
  | some piece =>
    obtain ⟨inside, rfl⟩ := List.getElem?_eq_some_iff.mp chosen
    have first := now.perm (getElem_cons_eraseIdx_perm inside)
    obtain ⟨count, err, after, called, held, position, reached, intact⟩ := writeAt_intact law first (by simpa [chosen] using clean)
    simp only [called]
    refine ⟨held, position, reached, intact.perm ?_⟩
    cases err with
    | none => exact List.Perm.refl _
    | some err => exact set_perm_cons_eraseIdx inside _

theorem run_intact (law : TakesPart writer holds) (choices : List Nat)
    (now : Intact holds content held transfer.pending transfer.buffer position reached)
    (unharmed : clean writer choices transfer = true) :
    ∃ held position reached,
      Intact holds content held (run writer choices transfer).pending (run writer choices transfer).buffer position reached := by
  induction choices generalizing transfer held position reached with
  | nil => exact ⟨held, position, reached, now⟩
  | cons index choices ih =>
    obtain ⟨first, others⟩ := Bool.and_eq_true_iff.mp unharmed
    obtain ⟨held, position, reached, next⟩ := call_intact law index now first
    exact ih next others

theorem new_intact (chunks : List (List UInt8)) {sink : σ} (empty : holds sink = []) :
    Intact holds chunks.flatten [] (new chunks sink).pending (new chunks sink).buffer 0 0 :=
  ⟨rfl, rfl, by simp, placed_fits chunks, by simpa [new, newWriteAtBuffer] using empty, fun _ _ _ => Nat.zero_le _, .inl rfl⟩

end Transfer

/-- In every run of calls, over a sink that may fail at any write and work again, in which no
slot is taken in part the sink holds a prefix of the content. -/
theorem failing_sink_prefix (law : TakesPart writer holds) {sink : σ} (empty : holds sink = [])
    (chunks : List (List UInt8)) (choices : List Nat) (clean : Transfer.clean writer choices (.new chunks sink) = true) :
    holds (Transfer.run writer choices (.new chunks sink)).buffer.data <+: chunks.flatten := by
  obtain ⟨held, position, reached, intact⟩ := Transfer.run_intact law choices (Transfer.new_intact chunks empty) clean
  rw [intact.stream.out]
  exact take_prefix reached chunks.flatten

def faultySink : Writer (List UInt8 × List (Option Nat)) Unit :=
  ⟨fun data (held, faults) =>
    match faults with
    | some count :: faults => ((min count data.length, some ()), (held ++ data.take count, faults))
    | none :: faults => ((data.length, none), (held ++ data, faults))
    | [] => ((data.length, none), (held ++ data, []))⟩

theorem takesPart_faultySink : TakesPart faultySink Prod.fst := by
  refine ⟨fun data (held, faults) => ?_, fun data (held, faults) => ?_, fun data (held, faults) => ?_⟩ <;>
    rcases faults with - | ⟨- | -, faults⟩ <;> simp [faultySink]

/-- The slot with 3 and 4 is taken up to the 3; the write of the 5 then writes it again. -/
theorem slot_written_again :
    (Transfer.run faultySink [1, 0, 1] (.new [[1, 2], [3, 4], [5]] ([], [none, some 1]))).buffer.data.1 =
      [1, 2, 3, 3, 4, 5] ∧ ¬ [1, 2, 3, 3, 4, 5] <+: [[1, 2], [3, 4], [5]].flatten := by decide +kernel

/-- The first write of 1 and 2 takes nothing, the slot with 3 and 4 is refused once. -/
theorem failing_sink_prefix_refused :
    (Transfer.run faultySink [1, 0, 0, 0] (.new [[1, 2], [3, 4]] ([], [some 0, none, some 0]))).buffer.data.1 <+:
      [[1, 2], [3, 4]].flatten :=
  failing_sink_prefix takesPart_faultySink rfl [[1, 2], [3, 4]] [1, 0, 0, 0] (by decide)

end MycsCommon.Streams
