import MycsCommon.Proofs.Reassembly

/-! Writes that start before the output position or overlap a slot. The data is given a slot
before it is looked at, and that slot, or the one it overlaps, can never leave again. -/

namespace MycsCommon.Streams
open Library.SortedInsert List

namespace BufferAt

def stop (slot : BufferAt) : Int := slot.pos + slot.data.length

def Overlaps (one other : BufferAt) : Prop := one.pos < other.stop ∧ other.pos < one.stop

end BufferAt

variable {σ ε : Type} {writer : Writer σ ε} {holds : σ → List UInt8} {buffer : WriteAtBuffer σ}

/-- A write that starts before the output position or overlaps a slot. -/
def Misplaced (buffer : WriteAtBuffer σ) (data : List UInt8) (offset : Int) : Prop :=
  offset < buffer.outAt ∨ ∃ slot ∈ buffer.bufferSlot, slot.Overlaps ⟨offset, data.length, data⟩

/-- No slot is behind the output position and no two overlap. -/
structure Sound (buffer : WriteAtBuffer σ) : Prop where
  ahead : ∀ slot ∈ buffer.bufferSlot, buffer.outAt ≤ slot.pos
  apart : buffer.bufferSlot.Pairwise fun one other => ¬ one.Overlaps other

/-- The loop over the slots keeps what writing out the next slot keeps, and stops when none is next. -/
theorem releaseSlots_keeps (accepts : Accepts writer holds) (keeps : WriteAtBuffer σ → Prop)
    (step : ∀ before slot rest, before.bufferSlot = slot :: rest → slot.pos = before.outAt → keeps before → keeps { data := (writer.write slot.data before.data).2, outAt := before.outAt + slot.data.length, bufferSlot := rest })
    {slots} (all : buffer.bufferSlot = slots) (now : keeps buffer) : keeps (releaseSlots writer slots buffer).2 ∧
      ∀ slot ∈ (releaseSlots writer slots buffer).2.bufferSlot.head?, slot.pos ≠ (releaseSlots writer slots buffer).2.outAt := by
  induction slots generalizing buffer with
  | nil => exact ⟨now, by simp [releaseSlots, all]⟩
  | cons slot rest ih =>
    unfold releaseSlots
    by_cases behind : slot.pos < buffer.outAt
    · rw [if_pos behind]
      exact ⟨now, by simp [all]; omega⟩
    · by_cases later : buffer.outAt < slot.pos
      · rw [if_neg behind, if_pos later]
        exact ⟨now, by simp [all]; omega⟩
      · rw [if_neg behind, if_neg later]
        have released := step buffer slot rest all (by omega) now
        have taken := accepts.whole slot.data buffer.data
        obtain ⟨⟨answer, sink⟩, written⟩ : ∃ result, writer.write slot.data buffer.data = result := ⟨_, rfl⟩
        rw [written] at taken released
        subst taken
        have emptied : (if rest.isEmpty then [] else buffer.bufferSlot.drop 1) = rest := by
          cases rest <;> simp [all]
        simp only [written, emptied]
        exact ih rfl released

theorem releaseSlots_idle (writer : Writer σ ε) (idle : ∀ slot ∈ buffer.bufferSlot.head?, slot.pos ≠ buffer.outAt) :
    ∃ err, releaseSlots writer buffer.bufferSlot buffer = (err, buffer) := by
  cases all : buffer.bufferSlot with
  | nil => exact ⟨none, rfl⟩
  | cons slot rest =>
    have apart := idle slot (by simp [all])
    unfold releaseSlots
    by_cases behind : slot.pos < buffer.outAt
    · exact ⟨_, by rw [if_pos behind]⟩
    · exact ⟨none, by rw [if_neg behind, if_pos (by omega)]⟩

theorem unsound_release {slot} {rest} {sink : σ} (all : buffer.bufferSlot = slot :: rest)
    (next : slot.pos = buffer.outAt) (unsound : ¬ Sound buffer) :
    ¬ Sound { data := sink, outAt := buffer.outAt + slot.data.length, bufferSlot := rest } := by
  rintro ⟨ahead, apart⟩
  refine unsound ⟨fun other member => ?_, ?_⟩
  · rw [all] at member
    obtain rfl | later := mem_cons.mp member
    · exact le_of_eq next.symm
    · have := ahead other later
      simp only at this
      omega
  · rw [all]
    refine pairwise_cons.mpr ⟨fun other later overlap => ?_, apart⟩
    have := ahead other later
    have := overlap.2
    simp only [BufferAt.stop] at *
    omega

/-- What the calls at any offsets leave: sorted slots of which the first is not next. -/
structure Settled (buffer : WriteAtBuffer σ) : Prop where
  sorted : buffer.bufferSlot.Pairwise fun first last => first.pos ≤ last.pos
  idle : ∀ slot ∈ buffer.bufferSlot.head?, slot.pos ≠ buffer.outAt

/-- The buffer when a call comes to the loop over the slots. -/
def placedIn (writer : Writer σ ε) (data : List UInt8) (offset : Int) (buffer : WriteAtBuffer σ) : WriteAtBuffer σ :=
  if offset = buffer.outAt then
    { buffer with data := (writer.write data buffer.data).2, outAt := buffer.outAt + data.length }
  else if data = [] then buffer
  else saveSlot buffer ⟨offset, data.length, data⟩

theorem writeAt_eq (accepts : Accepts writer holds) (data : List UInt8) (offset : Int) (buffer : WriteAtBuffer σ) :
    writeAt writer data offset buffer =
      let (err, after) := releaseSlots writer (placedIn writer data offset buffer).bufferSlot (placedIn writer data offset buffer)
      ((data.length, err), after) := by
  unfold writeAt placedIn
  by_cases next : offset = buffer.outAt
  · have taken := accepts.whole data buffer.data
    obtain ⟨⟨answer, sink⟩, written⟩ : ∃ result, writer.write data buffer.data = result := ⟨_, rfl⟩
    rw [written] at taken
    subst taken
    simp [next, written, saveRest]
  · by_cases empty : data = []
    · simp [next, empty, saveRest]
    · have filled := length_pos_iff.mpr empty
      simp [next, empty, saveRest, filled]

theorem placedIn_sorted (writer : Writer σ ε) (data : List UInt8) (offset : Int)
    (sorted : buffer.bufferSlot.Pairwise fun first last => first.pos ≤ last.pos) :
    (placedIn writer data offset buffer).bufferSlot.Pairwise fun first last => first.pos ≤ last.pos := by
  unfold placedIn
  split_ifs
  · exact sorted
  · exact sorted
  · rw [saveSlot_slots]
    exact @ordered_insertAt _ _ _ BufferAt.pos _ sorted ⟨offset, data.length, data⟩

theorem placedIn_unsound (writer : Writer σ ε) (data : List UInt8) (offset : Int) (unsound : ¬ Sound buffer) :
    ¬ Sound (placedIn writer data offset buffer) := by
  unfold placedIn
  split_ifs
  · rintro ⟨ahead, apart⟩
    refine unsound ⟨fun slot member => ?_, apart⟩
    have := ahead slot member
    simp only at this
    omega
  · exact unsound
  · rw [saveSlot_slots]
    rintro ⟨ahead, apart⟩
    exact unsound ⟨fun slot member => ahead slot (mem_insertAt.mpr (.inr member)), apart.sublist (sublist_insertAt _ _ _)⟩

theorem placedIn_misplaced (writer : Writer σ ε) {data} {offset} (filled : data ≠ [])
    (misplaced : Misplaced buffer data offset) : ¬ Sound (placedIn writer data offset buffer) := by
  unfold placedIn
  rintro ⟨ahead, apart⟩
  have long := length_pos_iff.mpr filled
  by_cases next : offset = buffer.outAt
  · rw [if_pos next] at ahead
    obtain before | ⟨slot, member, overlap⟩ := misplaced
    · omega
    · have := ahead slot member
      have := overlap.1
      simp only [BufferAt.stop] at *
      omega
  · rw [if_neg next, if_neg filled, saveSlot_slots] at ahead apart
    obtain before | ⟨slot, member, overlap⟩ := misplaced
    · have := ahead _ (mem_insertAt.mpr (.inl rfl))
      simp only at this
      omega
    · exact (forall_of_pairwise_insertAt apart slot member).elim (fun none => none overlap) (fun none => none ⟨overlap.2, overlap.1⟩)

section
variable (accepts : Accepts writer holds) (data : List UInt8) (offset : Int)
include accepts

theorem writeAt_settled (settled : Settled buffer) : Settled (writeAt writer data offset buffer).2 := by
  rw [writeAt_eq accepts]
  obtain ⟨sorted, idle⟩ := releaseSlots_keeps accepts
    (fun before => before.bufferSlot.Pairwise fun first last => first.pos ≤ last.pos)
    (fun _ _ _ all _ sorted => (pairwise_cons.mp (all ▸ sorted)).2) rfl
    (placedIn_sorted writer data offset settled.sorted)
  exact ⟨sorted, idle⟩

theorem releaseSlots_unsound (unsound : ¬ Sound buffer) : ¬ Sound (releaseSlots writer buffer.bufferSlot buffer).2 :=
  (releaseSlots_keeps accepts (fun before => ¬ Sound before)
    (fun _ _ _ all next unsound => unsound_release all next unsound) rfl unsound).1

theorem writeAt_unsound (unsound : ¬ Sound buffer) : ¬ Sound (writeAt writer data offset buffer).2 := by
  rw [writeAt_eq accepts]
  exact releaseSlots_unsound accepts (placedIn_unsound writer data offset unsound)

theorem writeAt_misplaced_unsound {data} {offset} (filled : data ≠ []) (misplaced : Misplaced buffer data offset) :
    ¬ Sound (writeAt writer data offset buffer).2 := by
  rw [writeAt_eq accepts]
  exact releaseSlots_unsound accepts (placedIn_misplaced writer filled misplaced)

end

/-- The calls at any offsets, one after the other. -/
def writeEach (writer : Writer σ ε) (calls : List (Int × List UInt8)) (buffer : WriteAtBuffer σ) : WriteAtBuffer σ :=
  calls.foldl (fun buffer (offset, data) => (writeAt writer data offset buffer).2) buffer

theorem writeEach_settled (accepts : Accepts writer holds) (calls : List (Int × List UInt8)) (settled : Settled buffer) :
    Settled (writeEach writer calls buffer) := by
  induction calls generalizing buffer with
  | nil => exact settled
  | cons call calls ih => exact ih (writeAt_settled accepts call.2 call.1 settled)

theorem settled_new (sink : σ) : Settled (newWriteAtBuffer sink) := ⟨List.Pairwise.nil, by simp [newWriteAtBuffer]⟩

/-- The output position, the slots and what the sink holds are as before. -/
structure Kept (holds : σ → List UInt8) (before after : WriteAtBuffer σ) : Prop where
  outAt : after.outAt = before.outAt
  slots : after.bufferSlot = before.bufferSlot
  out : holds after.data = holds before.data

/-- The call returned an error and changed nothing, or it succeeded and left a sound buffer, or
one that is as it was. -/
def Proper (holds : σ → List UInt8) (before : WriteAtBuffer σ) :
    (Nat × Option (WriteError ε)) × WriteAtBuffer σ → Prop
  | ((_, some _), after) => Kept holds before after
  | ((_, none), after) => Kept holds before after ∨ Sound after

theorem releaseSlots_outAt_le (accepts : Accepts writer holds) (buffer : WriteAtBuffer σ) :
    buffer.outAt ≤ (releaseSlots writer buffer.bufferSlot buffer).2.outAt :=
  (releaseSlots_keeps accepts (fun after => buffer.outAt ≤ after.outAt)
    (fun before slot rest _ _ grown => by dsimp only; omega) rfl (le_refl _)).1

theorem writeAt_nil_kept (accepts : Accepts writer holds) (offset : Int) (settled : Settled buffer) :
    Kept holds buffer (writeAt writer [] offset buffer).2 := by
  rw [writeAt_eq accepts]
  unfold placedIn
  by_cases next : offset = buffer.outAt
  · obtain ⟨err, same⟩ := @releaseSlots_idle _ _
      { buffer with data := (writer.write [] buffer.data).2, outAt := buffer.outAt + ([] : List UInt8).length } writer
      (by simpa using settled.idle)
    rw [if_pos next, same]
    exact ⟨by simp, rfl, by simp [accepts.keeps]⟩
  · obtain ⟨err, same⟩ := releaseSlots_idle writer settled.idle
    rw [if_neg next, if_pos rfl, same]
    exact ⟨rfl, rfl, rfl⟩

theorem saveSlot_idle (slot : BufferAt) (settled : Settled buffer) (apart : slot.pos ≠ buffer.outAt) :
    ∀ first ∈ (saveSlot buffer slot).bufferSlot.head?, first.pos ≠ (saveSlot buffer slot).outAt := by
  rw [saveSlot_slots]
  intro first head
  obtain rfl | head := mem_head_insertAt head
  · exact apart
  · exact settled.idle first head

theorem writeAt_not_kept (accepts : Accepts writer holds) {data} (offset : Int) (filled : data ≠ [])
    (settled : Settled buffer) : ¬ Kept holds buffer (writeAt writer data offset buffer).2 := by
  rw [writeAt_eq accepts]
  unfold placedIn
  have long := length_pos_iff.mpr filled
  by_cases next : offset = buffer.outAt
  · rw [if_pos next]
    have moved := releaseSlots_outAt_le accepts
      { buffer with data := (writer.write data buffer.data).2, outAt := buffer.outAt + data.length }
    intro kept
    have stayed := kept.outAt
    dsimp only at moved stayed
    omega
  · rw [if_neg next, if_neg filled]
    obtain ⟨err, same⟩ := releaseSlots_idle writer (saveSlot_idle ⟨offset, data.length, data⟩ settled next)
    rw [same]
    intro kept
    have lengths := congrArg List.length kept.slots
    rw [saveSlot_slots] at lengths
    simp [insertAt] at lengths
    omega

theorem proper_iff (accepts : Accepts writer holds) {data} {offset} (settled : Settled buffer)
    (misplaced : Misplaced buffer data offset) :
    Proper holds buffer (writeAt writer data offset buffer) ↔ data = [] := by
  obtain ⟨⟨⟨count, err⟩, after⟩, called⟩ : ∃ result, writeAt writer data offset buffer = result := ⟨_, rfl⟩
  constructor
  · intro proper
    by_contra filled
    have changed := writeAt_not_kept accepts offset filled settled
    have unsound := writeAt_misplaced_unsound accepts filled misplaced
    rw [called] at proper changed unsound
    cases err with
    | none => exact proper.elim changed unsound
    | some err => exact changed proper
  · rintro rfl
    have kept := writeAt_nil_kept accepts offset settled
    rw [called] at kept ⊢
    cases err with
    | none => exact .inl kept
    | some err => exact kept

theorem writeAll_unsound (accepts : Accepts writer holds) (pieces : List Piece) (unsound : ¬ Sound buffer) :
    ¬ Sound (writeAll writer pieces buffer).2 := by
  induction pieces generalizing buffer with
  | nil => exact unsound
  | cons piece pieces ih => exact ih (writeAt_unsound accepts piece.2 piece.1 unsound)

section
variable {content : List UInt8} {written : List Piece} {reached : Nat} {after : WriteAtBuffer σ}

theorem Waiting.settled (now : Waiting holds content written buffer reached) : Settled buffer :=
  ⟨now.sorted.imp fun less => le_of_lt less,
    fun slot head => (now.missing slot (mem_of_mem_head? head)).ne'⟩

theorem Waiting.kept (now : Waiting holds content written buffer reached) (kept : Kept holds buffer after) :
    Waiting holds content written after reached where
  outAt := kept.outAt.trans now.outAt
  released := kept.out ▸ now.released
  sorted := kept.slots ▸ now.sorted
  slots := kept.slots ▸ now.slots
  missing := by
    rw [kept.slots, kept.outAt]
    exact now.missing

end

/-- The writes of the pieces all succeed, and then the sink holds the content and the buffer can
be closed. -/
def Reassembles (writer : Writer σ ε) (holds : σ → List UInt8) (content : List UInt8) (pieces : List Piece)
    (buffer : WriteAtBuffer σ) : Prop :=
  let (results, final) := writeAll writer pieces buffer
  results = pieces.map (fun piece => (piece.2.length, none)) ∧ holds final.data = content ∧
    (close final : Option (WriteError ε)) = none

/-- A misplaced write leaves the buffer as it was, or sound, exactly if it writes nothing. The
same holds of what comes later: with some pieces of a content written and others to come, these
still reassemble the content exactly if the misplaced write in between wrote nothing. -/
theorem misplaced_iff (accepts : Accepts writer holds) (sink : σ) (data : List UInt8) (offset : Int) :
    (∀ calls, Misplaced (writeEach writer calls (newWriteAtBuffer sink)) data offset →
      (Proper holds (writeEach writer calls (newWriteAtBuffer sink))
        (writeAt writer data offset (writeEach writer calls (newWriteAtBuffer sink))) ↔ data = [])) ∧
    (holds sink = [] → ∀ chunks before later, (before ++ later).Perm (placed 0 chunks) →
      Misplaced (writeAll writer before (newWriteAtBuffer sink)).2 data offset →
      (Reassembles writer holds chunks.flatten later
        (writeAt writer data offset (writeAll writer before (newWriteAtBuffer sink)).2).2 ↔ data = [])) := by
  refine ⟨fun calls misplaced => ?_, fun empty chunks before later permuted misplaced => ?_⟩
  · exact proper_iff accepts (writeEach_settled accepts calls (settled_new sink)) misplaced
  have fits := (placed_fits chunks).perm permuted
  obtain ⟨-, reached, waiting⟩ :=
    writeAll_waiting accepts (show Fits _ ([] ++ before) from fits.left) (waiting_new chunks.flatten empty)
  constructor
  · intro reassembles
    by_contra filled
    have unsound := writeAll_unsound accepts later (writeAt_misplaced_unsound accepts filled misplaced)
    have vacant := close_eq_none.mp reassembles.2.2
    exact unsound ⟨by simp [vacant], by simp [vacant]⟩
  · rintro rfl
    have still := waiting.kept (writeAt_nil_kept accepts offset waiting.settled)
    obtain ⟨results, last, waiting⟩ := writeAll_waiting accepts (by simpa using fits) still
    obtain ⟨out, vacant⟩ := waiting.reassembled.complete (by simpa using fits) fun position inside => by
      obtain ⟨piece, member, bounds⟩ := placed_covers (Nat.zero_le position) (by simpa using inside)
      exact ⟨piece, by simpa using permuted.symm.subset member, bounds⟩
    exact ⟨results, out, close_eq_none.mpr vacant⟩

/-- A byte written where two have already left is refused and kept; the next piece of the
content then leaves, but its write fails and the buffer cannot be closed. -/
theorem rejected_data_stays :
    let refused := writeAt bytesBuffer [9] 0 (writeAll bytesBuffer [(0, [1, 2])] (newWriteAtBuffer [])).2
    refused = ((1, some (.behind 2 0)), ⟨[1, 2], 2, [⟨0, 1, [9]⟩]⟩) ∧
      writeAt bytesBuffer [3] 2 refused.2 = ((1, some (.behind 3 0)), ⟨[1, 2, 3], 3, [⟨0, 1, [9]⟩]⟩) := by decide

theorem misplaced_iff_nothing :
    Proper id (writeEach bytesBuffer [(0, [1, 2])] (newWriteAtBuffer []))
        (writeAt bytesBuffer [] 0 (writeEach bytesBuffer [(0, [1, 2])] (newWriteAtBuffer []))) ∧
      Reassembles bytesBuffer id [1, 2, 3] [(2, [3])]
        (writeAt bytesBuffer [] 0 (writeAll bytesBuffer [(0, [1, 2])] (newWriteAtBuffer [])).2).2 := by
  have accepts : Accepts bytesBuffer id := ⟨fun _ _ => rfl, fun _ _ => rfl⟩
  obtain ⟨proper, reassembles⟩ := misplaced_iff accepts [] [] 0
  exact ⟨(proper [(0, [1, 2])] (.inl (by decide))).mpr rfl,
    (reassembles rfl [[1, 2], [3]] [(0, [1, 2])] [(2, [3])] (by decide) (.inl (by decide))).mpr rfl⟩

end MycsCommon.Streams
