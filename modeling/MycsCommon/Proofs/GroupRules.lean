import MycsCommon.Network.Operations

/-! The rules a security group is turned into, as values. The source cuts the
expression lists of a group's rules from common backing arrays; what each rule holds
in the end depends on the room left in them. -/

namespace MycsCommon.Network
open Library List Build Network SecurityGroup Slices

namespace SecurityGroup

variable (sg : SecurityGroup)

/-- The expressions that match a packet's networks and outgoing interface. -/
def matchList (table : Family) : List Expr :=
  let offsets := ipHeaderOffsets table
  (if sg.srcNetwork.isValid then networkExprs offsets.srcOffset offsets.addrLen sg.srcNetwork else []) ++
    (if sg.oifname ≠ "" then ifnameExprs .oifname sg.oifname else []) ++
    (if sg.dstNetwork.isValid then networkExprs offsets.destOffset offsets.addrLen sg.dstNetwork else [])

/-- Whether each rule of the port groups is the ICMP rule or the vmap rule, in the
order they are first needed. -/
def kinds : List PortGroup → Bool → Bool → List Bool
  | [], _, _ => []
  | group :: groups, icmpAdded, opened =>
    if group.proto = .ICMP then (if icmpAdded then [] else [true]) ++ kinds groups true opened
    else (if opened then [] else [false]) ++ kinds groups icmpAdded true

/-- What follows the matches in the ICMP rule and in the vmap rule. -/
def tail (table : Family) (vmapName : String) (icmp : Bool) : List Expr :=
  if icmp then icmpExprs sg.verdict else portExprs (ipHeaderOffsets table).protoOffset vmapName

/-- The ends of a group's rules in one table; `got` says whether the vmap could be had. -/
def tails (table : Family) (vmapName : String) (got : Bool) : List (List Expr) :=
  if sg.ports.isEmpty then [[.verdict sg.verdict]]
  else ((kinds sg.ports false false).filter (· || got)).map (sg.tail table vmapName)

/-- The matches leave room for another three expressions in their array. -/
def shares (iifName : String) : Bool :=
  iifName = "" && sg.srcNetwork.isValid && sg.oifname ≠ "" && sg.dstNetwork.isValid

def target (iifName : String) (ctPos : Family → Nat) : Target :=
  if iifName ≠ "" then
    if sg.dstNetwork.isValid then ⟨"forward", ctPos, true, ifnameExprs .iifname iifName⟩
    else ⟨"inbound_" ++ iifName, fun _ => 0, false, []⟩
  else if sg.dstNetwork.isValid then ⟨"forward", ctPos, true, []⟩
  else ⟨"input", fun _ => 0, false, []⟩

end SecurityGroup

/-- Lists cut from an array with room for all of them end up reading the last one. -/
def settle (shared : Bool) (tails : List (List Expr)) : List (List Expr) :=
  if shared then tails.map fun _ => tails.getLast?.getD [] else tails

def SecurityGroup.compile (sg : SecurityGroup) (iifName : String) (vmapName : Family → String) (ctPos : Family → Nat)
    (got : Family → Bool) : List Rule :=
  let target := sg.target iifName ctPos
  families.flatMap fun table =>
    if sg.appliesTo table then
      (settle (sg.shares iifName) (sg.tails table (vmapName table) (got table))).map fun tail =>
        { table, chain := target.chain, position := target.position table
          exprs := target.pre ++ sg.matchList table ++ tail }
    else []

/-! The drafts of a build. -/

/-- What the drafted rules read, in the order they were drafted. -/
structure Build.Reads (build : Build) (expected : List (Family × List Expr)) : Prop where
  valid : ∀ draft ∈ build.drafts, Valid build.heap draft.exprs ∧ 0 < draft.exprs.cap
  reads : build.drafts.map (fun draft => (draft.table, read build.heap draft.exprs)) = expected

def draftAll (build : Build) (table : Family) (slice : Slice) (tails : List (List Expr)) : Build :=
  tails.foldl (fun build tail => build.draft table slice tail) build

variable {build : Build} {expected : List (Family × List Expr)} {slice : Slice} {table : Family}

theorem Build.draft_eq (exprs : List Expr) : build.draft table slice exprs =
    ⟨(append build.heap slice exprs).1, build.drafts ++ [⟨table, (append build.heap slice exprs).2⟩]⟩ := rfl

theorem Build.Reads.append (reads : build.Reads expected) (valid : Valid build.heap slice) {exprs}
    (apart : Full slice exprs.length ∨ ∀ draft ∈ build.drafts, draft.exprs.array ≠ slice.array) :
    Reads ⟨(append build.heap slice exprs).1, build.drafts⟩ expected := by
  refine ⟨fun draft member => ⟨valid_append_other valid (reads.valid draft member).1, (reads.valid draft member).2⟩, ?_⟩
  rw [← reads.reads]
  apply map_congr_left
  intro draft member
  rw [read_append_of_apart valid (reads.valid draft member).1]
  rcases apart with full | apart
  · exact .inl full
  · exact .inr (.inl (apart draft member))

theorem Build.Reads.draft (table : Family) (reads : build.Reads expected) (valid : Valid build.heap slice)
    {tail} (some : tail ≠ [])
    (apart : Full slice tail.length ∨ ∀ draft ∈ build.drafts, draft.exprs.array ≠ slice.array) :
    (build.draft table slice tail).Reads (expected ++ [(table, Slices.read build.heap slice ++ tail)]) := by
  have kept := reads.append valid apart
  have fits : Slices.Valid (Slices.append build.heap slice tail).1 (Slices.append build.heap slice tail).2 :=
    valid_append valid
  constructor
  · intro draft member
    rcases mem_append.mp member with old | new
    · exact kept.valid draft old
    · rw [mem_singleton.mp new]
      refine ⟨fits, Nat.lt_of_lt_of_le ?_ fits.bounded⟩
      rw [append_len]
      have := length_pos_iff.mpr some
      omega
  · have old := kept.reads
    simp only [Build.draft, map_append, map_cons, map_nil]
    rw [old, read_append valid]

/-- A slice that can be appended to without touching the drafts. -/
def Build.Clear (build : Build) (slice : Slice) : Prop :=
  slice.len = slice.cap ∨ ∀ draft ∈ build.drafts, draft.exprs.array ≠ slice.array

/-- A slice grown from `pre`, beside drafts that are done. -/
structure Stage (build : Build) (expected : List (Family × List Expr)) (pre : Slice) (first : List Expr)
    (slice : Slice) (exprs : List Expr) : Prop where
  reads : build.Reads expected
  preValid : Valid build.heap pre
  preHolds : read build.heap pre = first
  longer : pre.len ≤ slice.len
  valid : Valid build.heap slice
  holds : read build.heap slice = exprs
  clear : build.Clear slice

variable {pre : Slice} {first exprs : List Expr}

theorem Stage.apart (stage : Stage build expected pre first slice exprs) {more : List Expr} (some : more ≠ []) :
    Full slice more.length ∨ ∀ draft ∈ build.drafts, draft.exprs.array ≠ slice.array := by
  rcases stage.clear with full | apart
  · have := length_pos_iff.mpr some
    exact .inl (show slice.cap < slice.len + more.length by omega)
  · exact .inr apart

theorem Stage.appendIf (stage : Stage build expected pre first slice exprs) (wanted : Bool) {more : List Expr}
    (some : more ≠ []) : Stage ⟨(appendIf wanted build.heap slice more).1, build.drafts⟩ expected pre first
      (appendIf wanted build.heap slice more).2 (exprs ++ if wanted then more else []) := by
  cases wanted with
  | false => simpa [Network.appendIf] using stage
  | true =>
    have apart := stage.apart some
    refine ⟨stage.reads.append stage.valid apart, Slices.valid_append_other stage.valid stage.preValid, ?_, ?_,
      Slices.valid_append stage.valid, ?_, ?_⟩
    · exact (Slices.read_append_of_apart stage.valid stage.preValid (.inr (.inr stage.longer))).trans stage.preHolds
    · simp only [Network.appendIf, if_true, Slices.append_len]
      exact Nat.le_add_right_of_le stage.longer
    · simp only [Network.appendIf, if_true]
      rw [Slices.read_append stage.valid, stage.holds]
    · right
      intro draft member
      simp only [Network.appendIf, if_true]
      by_cases full : Slices.Full slice more.length
      · rw [Slices.append_full full]
        obtain ⟨valid, allocated⟩ := stage.reads.valid draft member
        exact Nat.ne_of_lt (valid.allocated allocated)
      · rw [Slices.append_spare full]
        exact apart.resolve_left full draft member

theorem Stage.matchSlice (stage : Stage build expected pre first pre exprs)
    (sg : SecurityGroup) (table : Family) : Stage ⟨(matchSlice sg table build.heap pre).1, build.drafts⟩ expected pre first
      (matchSlice sg table build.heap pre).2 (exprs ++ sg.matchList table) := by
  have network : ∀ offset length net, networkExprs offset length net ≠ [] := by simp [networkExprs]
  have interface : ∀ key name, ifnameExprs key name ≠ [] := by simp [ifnameExprs]
  have source := stage.appendIf sg.srcNetwork.isValid
    (network (ipHeaderOffsets table).srcOffset (ipHeaderOffsets table).addrLen sg.srcNetwork)
  have outgoing := source.appendIf (sg.oifname ≠ "") (interface .oifname sg.oifname)
  have dest := outgoing.appendIf sg.dstNetwork.isValid
    (network (ipHeaderOffsets table).destOffset (ipHeaderOffsets table).addrLen sg.dstNetwork)
  simpa [SecurityGroup.matchList, Network.matchSlice, append_assoc] using dest

theorem draftAll_pre (table : Family) (valid : Valid build.heap slice) (preValid : Valid build.heap pre)
    (longer : pre.len ≤ slice.len) (tails : List (List Expr)) :
    Valid (draftAll build table slice tails).heap pre ∧
      read (draftAll build table slice tails).heap pre = read build.heap pre := by
  induction tails generalizing build with
  | nil => exact ⟨preValid, rfl⟩
  | cons tail tails ih =>
    obtain ⟨kept, same⟩ := @ih (build.draft table slice tail) (valid_append_other valid valid)
      (valid_append_other valid preValid)
    exact ⟨kept, same.trans (read_append_of_apart valid preValid (.inr (.inr longer)))⟩

/-! Room left after the matches. -/

def grown (wanted : Bool) (count : Nat) (size : Nat × Nat) : Nat × Nat :=
  if wanted then
    (size.1 + count, if size.1 + count ≤ size.2 then size.2 else growCap size.2 (size.1 + count))
  else size

theorem appendIf_size (wanted : Bool) (heap : Heap Expr) (slice : Slice) (exprs : List Expr) :
    ((appendIf wanted heap slice exprs).2.len, (appendIf wanted heap slice exprs).2.cap) =
      grown wanted exprs.length (slice.len, slice.cap) := by
  cases wanted with
  | false => rfl
  | true => simp [appendIf, grown, append_len, append_cap]

theorem matchSlice_size (sg : SecurityGroup) (table : Family) (heap : Heap Expr) (pre : Slice) :
    ((matchSlice sg table heap pre).2.len, (matchSlice sg table heap pre).2.cap) =
      grown sg.dstNetwork.isValid 3 (grown (sg.oifname ≠ "") 2 (grown sg.srcNetwork.isValid 3 (pre.len, pre.cap))) := by
  simp only [matchSlice, appendIf_size]
  rfl

private theorem full_of_size {slice} {source outgoing dest iif}
    (size : (slice.len, slice.cap) = grown dest 3 (grown outgoing 2 (grown source 3 (if iif && dest then (2, 2) else (0, 0))))) :
    Full slice 3 ↔ ¬ (iif = false ∧ source = true ∧ outgoing = true ∧ dest = true) := by
  have len := congrArg Prod.fst size
  have cap := congrArg Prod.snd size
  simp only [] at len cap
  unfold Full
  rw [len, cap]
  clear size len cap
  revert source outgoing dest iif
  decide

theorem draftAll_full (table : Family) (reads : build.Reads expected) (valid : Valid build.heap slice)
    (holds : read build.heap slice = exprs) {tails} (full : ∀ tail ∈ tails, Full slice tail.length)
    (some : ∀ tail ∈ tails, tail ≠ []) :
    (draftAll build table slice tails).Reads (expected ++ tails.map fun tail => (table, exprs ++ tail)) := by
  induction tails generalizing build expected with
  | nil => simpa [draftAll] using reads
  | cons tail tails ih =>
    have room := full tail (by simp)
    have next := holds ▸ reads.draft table valid (some tail (by simp)) (.inl room)
    have rest := ih next (valid_append_other valid valid)
      ((read_append_of_apart valid valid (.inl room)).trans holds)
      (fun other member => full other (by simp [member])) fun other member => some other (by simp [member])
    simpa [draftAll, append_assoc] using rest

theorem draftAll_spare (table : Family) {count} (valid : Valid build.heap slice)
    (holds : read build.heap slice = exprs) (positive : 0 < count) (spare : ¬ Full slice count)
    (before : ∀ draft ∈ build.drafts, draft = ⟨table, { slice with len := slice.len + count }⟩) {tails}
    (some : tails ≠ []) (lengths : ∀ tail ∈ tails, tail.length = count) : (draftAll build table slice tails).Reads
      (List.replicate (build.drafts.length + tails.length) (table, exprs ++ tails.getLast some)) := by
  induction tails generalizing build with
  | nil => exact absurd rfl some
  | cons tail tails ih =>
    have length := lengths tail (by simp)
    have room : ¬ Full slice tail.length := by rwa [length]
    have shape : (append build.heap slice tail).2 = { slice with len := slice.len + count } := by
      rw [append_spare room, length]
    have next : ∀ draft ∈ (build.draft table slice tail).drafts, draft = ⟨table, { slice with len := slice.len + count }⟩ := by
      intro draft member
      rw [draft_eq] at member
      rcases mem_append.mp member with old | new
      · exact before draft old
      · rw [mem_singleton.mp new, shape]
    have longer : (build.draft table slice tail).drafts.length = build.drafts.length + 1 := by simp [draft]
    cases tails with
    | nil =>
      have read : ∀ draft ∈ (build.draft table slice tail).drafts,
          read (build.draft table slice tail).heap draft.exprs = exprs ++ tail := by
        intro draft member
        rw [next draft member, ← shape]
        exact (read_append valid).trans (by rw [holds])
      constructor
      · intro draft member
        have shared : draft.exprs = (append build.heap slice tail).2 := by
          rw [next draft member, shape]
        refine ⟨shared ▸ valid_append valid, ?_⟩
        rw [shared, shape]
        have : slice.len + count ≤ slice.cap := Nat.not_lt.mp spare
        simp only []
        omega
      · show (build.draft table slice tail).drafts.map _ = _
        rw [length_singleton, ← longer, eq_replicate_iff]
        refine ⟨by simp, ?_⟩
        intro entry member
        obtain ⟨draft, listed, rfl⟩ := mem_map.mp member
        exact Prod.ext (by rw [next draft listed]) (read draft listed)
    | cons second tails =>
      have rest := ih (valid_append_other valid valid)
        ((read_append_of_apart valid valid (.inr (.inr (Nat.le_refl _)))).trans holds) next (by simp)
        (fun other member => lengths other (by simp [member]))
      rw [longer] at rest
      simpa [draftAll, Nat.add_assoc, Nat.add_comm 1] using rest

theorem Build.Reads.rules (reads : build.Reads expected) (target : Target) :
    build.rules target = expected.map fun entry =>
      { table := entry.1, chain := target.chain, position := target.position entry.1, exprs := entry.2 } := by
  rw [← reads.reads, map_map]
  rfl

namespace SecurityGroup

variable (sg : SecurityGroup)

theorem kinds_opened {groups} {icmpAdded kind} (member : kind ∈ kinds groups icmpAdded true) : kind = true := by
  induction groups generalizing icmpAdded with
  | nil => simp [kinds] at member
  | cons group groups ih =>
    simp only [kinds] at member
    split at member
    · rcases mem_append.mp member with first | later
      · cases icmpAdded <;> simp_all
      · exact ih later
    · exact ih (by simpa using member)

theorem filter_kinds_opened (groups : List PortGroup) (icmpAdded got : Bool) :
    (kinds groups icmpAdded true).filter (· || got) = kinds groups icmpAdded true :=
  filter_eq_self.mpr fun kind member => by simp [kinds_opened member]

theorem tail_length (vmapName : String) (icmp : Bool) : (sg.tail table vmapName icmp).length = 3 := by
  cases icmp <;> rfl

theorem tails_of_empty (none : sg.ports = []) (vmapName : String) (got : Bool) :
    sg.tails table vmapName got = [[.verdict sg.verdict]] := by
  simp [tails, none]

theorem length_of_mem_tails (some : sg.ports ≠ []) {vmapName got} {tail}
    (member : tail ∈ sg.tails table vmapName got) : tail.length = 3 := by
  simp only [tails, isEmpty_eq_false_iff.mpr some, Bool.false_eq_true, if_false] at member
  obtain ⟨icmp, -, rfl⟩ := mem_map.mp member
  exact sg.tail_length vmapName icmp

end SecurityGroup

theorem settle_singleton (shared : Bool) (tail : List Expr) : settle shared [tail] = [tail] := by
  cases shared <;> rfl

theorem Stage.draftTable {sg iifName vmapName got} (stage : Stage build expected pre exprs pre exprs)
    (size : (pre.len, pre.cap) = if decide (iifName ≠ "") && sg.dstNetwork.isValid then (2, 2) else (0, 0))
    (alone : sg.shares iifName = true → build.drafts = []) :
    (draftAll ⟨(Network.matchSlice sg table build.heap pre).1, build.drafts⟩ table
      (Network.matchSlice sg table build.heap pre).2 (sg.tails table vmapName got)).Reads
      (expected ++ (settle (sg.shares iifName) (sg.tails table vmapName got)).map fun tail =>
        (table, exprs ++ sg.matchList table ++ tail)) := by
  have ready := stage.matchSlice sg table
  have room := full_of_size ((matchSlice_size sg table build.heap pre).trans (by rw [size]))
  generalize Network.matchSlice sg table build.heap pre = matched at ready room
  obtain ⟨heap, slice⟩ := matched
  by_cases ports : sg.ports = []
  · rw [sg.tails_of_empty ports, settle_singleton]
    have some : [Expr.verdict sg.verdict] ≠ [] := by simp
    have drafted := ready.reads.draft table ready.valid some (ready.apart some)
    rw [ready.holds] at drafted
    exact drafted
  · have lengths : ∀ tail ∈ sg.tails table vmapName got, tail.length = 3 := fun tail => sg.length_of_mem_tails ports
    by_cases shared : sg.shares iifName = true
    · have first := alone shared
      have expects : expected = [] := by rw [← stage.reads.reads, first]; rfl
      have spare : ¬ Full slice 3 := by
        rw [room]
        simpa [shares, and_assoc] using shared
      by_cases some : sg.tails table vmapName got = []
      · simpa [some, draftAll, settle] using ready.reads
      · have drafted := draftAll_spare table ready.valid ready.holds (by decide) spare (by simp [first]) some lengths
        simp only [first, length_nil, Nat.zero_add] at drafted
        simpa [expects, settle, shared, getLast?_eq_some_getLast some, first, Function.comp_def, map_const'] using drafted
    · have full : Full slice 3 := by
        rw [room]
        simpa [shares, and_assoc] using shared
      have drafted := draftAll_full table ready.reads ready.valid ready.holds
        (fun tail member => (lengths tail member).symm ▸ full)
        (fun tail member => ne_nil_of_length_pos (by rw [lengths tail member]; decide))
      simpa [settle, shared] using drafted

/-- What `buildTable` leaves when the vmap could be had or not. -/
def builtTable (sg : SecurityGroup) (vmapName : Family → String) (pre : Slice) (got : Bool) (build : Build)
    (table : Family) : Build :=
  if sg.appliesTo table then
    draftAll ⟨(matchSlice sg table build.heap pre).1, build.drafts⟩ table (matchSlice sg table build.heap pre).2
      (sg.tails table (vmapName table) got)
  else build

theorem SecurityGroup.appliesTo_one {sg : SecurityGroup} (same : sg.mixesFamilies = false)
    (source : sg.srcNetwork.isValid = true) (dest : sg.dstNetwork.isValid = true) :
    sg.appliesTo .ipv4 = false ∨ sg.appliesTo .ipv6 = false := by
  simp only [mixesFamilies, source, dest, Bool.and_self, Bool.true_and, bne_eq_false_iff_eq] at same
  have some := (sg.srcNetwork.fits (of_decide_eq_true source)).1
  have another := (sg.dstNetwork.fits (of_decide_eq_true dest)).1
  simp only [appliesTo, source, Bool.true_or, if_true]
  cases first : sg.srcNetwork.addr <;> cases second : sg.dstNetwork.addr <;>
    simp_all [Addr.is4, Addr.is6]

/-- What the drafts of one table add to those before it. -/
def SecurityGroup.expectedIn (sg : SecurityGroup) (iifName : String) (vmapName : Family → String) (pre : List Expr)
    (got : Bool) (table : Family) : List (Family × List Expr) :=
  if sg.appliesTo table then
    (settle (sg.shares iifName) (sg.tails table (vmapName table) got)).map fun tail =>
      (table, pre ++ sg.matchList table ++ tail)
  else []

theorem Stage.builtTable {sg} {iifName} {vmapName} {got} (stage : Stage build expected pre exprs pre exprs)
    (size : (pre.len, pre.cap) = if decide (iifName ≠ "") && sg.dstNetwork.isValid then (2, 2) else (0, 0))
    (alone : sg.shares iifName = true → sg.appliesTo table = true → build.drafts = []) :
    Stage (builtTable sg vmapName pre got build table) (expected ++ sg.expectedIn iifName vmapName exprs got table)
      pre exprs pre exprs := by
  have full : pre.len = pre.cap := by
    have := congrArg (fun pair => pair.1 = pair.2) size
    split at this <;> simpa using this
  unfold Network.builtTable SecurityGroup.expectedIn
  by_cases applies : sg.appliesTo table = true
  · rw [if_pos applies, if_pos applies]
    have ready := stage.matchSlice sg table
    obtain ⟨kept, same⟩ := draftAll_pre table ready.valid ready.preValid ready.longer
      (sg.tails table (vmapName table) got)
    exact ⟨stage.draftTable size fun shared => alone shared applies, kept, same.trans ready.preHolds, Nat.le_refl _, kept,
      same.trans ready.preHolds, .inl full⟩
  · rw [if_neg applies, if_neg applies, append_nil]
    exact stage

private theorem start_size (sg : SecurityGroup) (iifName : String) (ctPos : Family → Nat) :
    let target := sg.target iifName ctPos
    let start := appendIf (!target.pre.isEmpty) [] empty target.pre
    (start.2.len, start.2.cap) = if decide (iifName ≠ "") && sg.dstNetwork.isValid then (2, 2) else (0, 0) := by
  simp only [appendIf_size, target]
  by_cases named : iifName = "" <;> cases sg.dstNetwork.isValid <;>
    simp [named, ifnameExprs, grown, empty, growCap]

private theorem start_stage (pre : List Expr) :
    let start := appendIf (!pre.isEmpty) [] empty pre
    Stage ⟨start.1, []⟩ [] start.2 pre start.2 pre := by
  have reads : ∀ heap, Reads ⟨heap, []⟩ [] := fun heap => ⟨by simp, rfl⟩
  have empty : Valid ([] : Heap Expr) empty := valid_empty []
  cases pre with
  | nil => exact ⟨reads _, empty, rfl, Nat.le_refl _, empty, rfl, .inl rfl⟩
  | cons expr pre =>
    have valid : Slices.Valid (Slices.append [] Slices.empty (expr :: pre)).1
        (Slices.append [] Slices.empty (expr :: pre)).2 := Slices.valid_append empty
    have holds : Slices.read (Slices.append [] Slices.empty (expr :: pre)).1
        (Slices.append [] Slices.empty (expr :: pre)).2 = expr :: pre := Slices.read_append empty
    exact ⟨reads _, valid, holds, Nat.le_refl _, valid, holds, .inr (by simp)⟩

theorem builtTable_rules {sg : SecurityGroup} (iifName : String) (vmapName : Family → String) (ctPos : Family → Nat)
    (got : Family → Bool) (same : sg.mixesFamilies = false) :
    let target := sg.target iifName ctPos
    let start := appendIf (!target.pre.isEmpty) [] empty target.pre
    (builtTable sg vmapName start.2 (got .ipv6)
      (builtTable sg vmapName start.2 (got .ipv4) ⟨start.1, []⟩ .ipv4) .ipv6).rules target =
      sg.compile iifName vmapName ctPos got := by
  intro target start
  have size := start_size sg iifName ctPos
  have first : Stage (builtTable sg vmapName start.2 (got .ipv4) ⟨start.1, []⟩ .ipv4)
      ([] ++ sg.expectedIn iifName vmapName target.pre (got .ipv4) .ipv4) start.2 target.pre start.2 target.pre :=
    (start_stage target.pre).builtTable size fun _ _ => rfl
  have second : Stage (builtTable sg vmapName start.2 (got .ipv6)
      (builtTable sg vmapName start.2 (got .ipv4) ⟨start.1, []⟩ .ipv4) .ipv6)
      ([] ++ sg.expectedIn iifName vmapName target.pre (got .ipv4) .ipv4 ++
        sg.expectedIn iifName vmapName target.pre (got .ipv6) .ipv6) start.2 target.pre start.2 target.pre := by
    refine first.builtTable size ?_
    intro shared applies
    simp only [shares, Bool.and_eq_true] at shared
    have skipped := (appliesTo_one same shared.1.1.2 shared.2).resolve_right (by simp [applies])
    simp [builtTable, skipped]
  rw [second.reads.rules target]
  simp only [compile, families, flatMap_cons, flatMap_nil, append_nil, nil_append,
    map_append, expectedIn]
  congr 1
  · split
    · simp [target]
    · rfl
  · split
    · simp [target]
    · rfl

def PortGroup.Ends (group : PortGroup) : Prop :=
  group.proto ≠ .ICMP → (portRange group.fromPort group.toPort).isSome = true

/-- Setting a group up to the point where its rules are saved: the target and the rules. -/
def draftGroup (deps : Deps) (iifName : String) (sg : SecurityGroup) : RouterM (Option (Target × List Rule)) := do
  if sg.mixesFamilies then return none
  match ← targetChain sg iifName with
  | none => return none
  | some target =>
    let (heap, pre) := appendIf (!target.pre.isEmpty) [] empty target.pre
    let build ← buildTable sg (sg.pgVmapName deps.sum64 iifName) pre ⟨heap, []⟩ .ipv4
    let build ← buildTable sg (sg.pgVmapName deps.sum64 iifName) pre build .ipv6
    return some (target, build.rules target)

def saveDrafted (deps : Deps) (sgKey : String) : Option (Target × List Rule) → RouterM Unit
  | none => return ()
  | some (target, rules) => saveFilterRules deps.nft sgKey rules target.insert

theorem setSecurityGroup_eq (deps : Deps) (iifName : String) (sg : SecurityGroup) : setSecurityGroup deps iifName sg =
    draftGroup deps iifName sg >>= saveDrafted deps (sg.sgKey deps.sum64 iifName) := by
  unfold setSecurityGroup draftGroup
  cases sg.mixesFamilies with
  | true => rfl
  | false =>
    simp only [Bool.false_eq_true, if_false, createSecurityGroupKeys, bind_assoc]
    congr 1
    funext target
    cases target with
    | none => rfl
    | some target =>
      simp only [bind_assoc]
      rfl

end MycsCommon.Network
