import MycsCommon.Proofs.Bookkeeping
import MycsCommon.Proofs.SetContents

/-! The books over runs in which calls fail. Some failures leave the maps of the router
as they were, or are made up for; after the others they no longer describe what is
committed. -/

namespace MycsCommon.Network
open Library Program False Kernel Msg Network RefCount Router SecurityGroup World

/-- The maps describe the committed rules and vmaps. -/
structure Agrees (base : List Rule) (world : World) : Prop where
  counts : ∀ table handle, world.router.ruleRef.lookup (table.tableName ++ "_" ++ handle.repr) =
    if world.router.occurrences table handle = 0 then none else some ↑(world.router.occurrences table handle)
  reachable : ∀ rule ∈ world.kernel.rules, rule ∉ base → ∃ key, world.router.refers key rule
  standing : ∀ key, ∀ filed ∈ held world.router.ruleMap key,
    ∃ rule ∈ world.kernel.rules, rule ∉ base ∧ filed.table = rule.table ∧ filed.handle = rule.handle
  vmaps : ∀ name table, world.router.sgPortVmaps.lookup name = some table → (world.kernel.sets table name).isSome = true

/-- The key an operation gives up, for those that do nothing else. -/
def Op.gives : Op → Option String
  | .deleteFilter key => some key
  | .deleteForwardPort dstPort port forwardIP proto => some (forwardPortKey dstPort port .zero forwardIP proto)
  | .deleteForwardPortOnIP dstPort port dstIP forwardIP proto => some (forwardPortKey dstPort port dstIP forwardIP proto)
  | .deleteForwardTraffic srcItfName dstItfName srcNetwork dstNetwork =>
    some (forwardTrafficKey srcItfName dstItfName srcNetwork dstNetwork)
  | _ => none

/-- The names of the port vmaps an operation needs. -/
def Op.vmapNames (deps : Deps) (name : String) : Op → Prop
  | .setSecurityGroups sgs iifName => ∃ sg ∈ sgs, ∃ table, sg.appliesTo table = true ∧
      (∃ group ∈ sg.ports, group.proto ≠ .ICMP) ∧ name = sg.pgVmapName deps.sum64 iifName table
  | _ => False

def Op.Known (deps : Deps) (op : Op) (world : World) : Prop :=
  ∀ name, op.vmapNames deps name → world.router.sgPortVmaps.lookup name ≠ none

/-- The calls that may fail. While a vmap is registered that is not committed yet, and
once rules have been queued or committed that are not filed yet, a failed save is not
made up for; nor is a failed deletion, once a count has been changed or a rule is to go. -/
def Harmless (deps : Deps) (world : World) (op : Op) : Site × Nat → Prop
  | (.saveGetRules, index) => index = 0 ∧ op.Known deps world
  | (.saveFlush, _) => op.Known deps world
  | (.saveGetHandles, _) => False
  | (.deleteDelRule, index) => index = 0 ∧ ∃ key rule rules, op.gives = some key ∧
      world.router.ruleMap.lookup key = some (rule :: rules) ∧ world.router.refCount rule = 1
  | (.deleteFlush, _) => ∃ key rules, op.gives = some key ∧ world.router.ruleMap.lookup key = some rules ∧
      world.router.leaving key rules = []
  | _ => True

variable {deps : Deps} {nft : Nft} {base : List Rule} {ctPos : Family → Nat} {world : World} {kernel after : Kernel}
  {vmaps : AList (fun _ : String => Family)} {names : String → Prop}

/-! The vmaps. -/

/-- Whether a set is there once the message has taken effect. -/
def Msg.leaves (table : Family) (name : String) (there : Bool) : Msg → Bool
  | .addSet owner set _ => there || decide (owner = table ∧ set = name)
  | .delSet owner set => there && !decide (owner = table ∧ set = name)
  | .delTable owner => there && !decide (owner = table)
  | _ => there

private theorem apply_leaves {msg} (applied : kernel.apply nft msg = .ok after) (table : Family) (name : String) :
    (after.sets table name).isSome = msg.leaves table name (kernel.sets table name).isSome := by
  have stored {elements : Except Errno Elements} {owner : Family} {set : String}
      (stores : (elements >>= fun added => .ok (kernel.setSet owner set (some added))) = .ok after) :
      (after.sets table name).isSome = ((kernel.sets table name).isSome || decide (owner = table ∧ set = name)) := by
    cases elements with
    | error errno => cases stores
    | ok added =>
      cases stores
      by_cases same : table = owner ∧ name = set
      · simp [setSet, same]
      · rw [setSet_other _ _ same, decide_eq_false (by tauto), Bool.or_false]
  have present {owner : Family} {set : String} {elements : Elements} (known : kernel.sets owner set = some elements) :
      ((kernel.sets table name).isSome || decide (owner = table ∧ set = name)) = (kernel.sets table name).isSome := by
    by_cases same : owner = table ∧ set = name
    · obtain ⟨rfl, rfl⟩ := same
      simp [known]
    · simp [same]
  cases msg with
  | addTable owner =>
    cases applied
    rfl
  | delTable owner =>
    cases applied
    by_cases same : table = owner
    · simp [leaves, same]
    · simp [leaves, same, Ne.symm same]
  | addChain owner chain policy =>
    simp only [apply] at applied
    split at applied <;> cases applied <;> rfl
  | addSet owner set elements => exact stored applied
  | delSet owner set =>
    simp only [apply] at applied
    split at applied
    · cases applied
    · split at applied
      · cases applied
      · cases applied
        by_cases same : table = owner ∧ name = set
        · simp [setSet, leaves, same]
        · rw [setSet_other _ _ same]
          simp [leaves, decide_eq_false (show ¬ (owner = table ∧ set = name) by tauto)]
  | setAddElements owner set elements | setDeleteElements owner set elements =>
    simp only [apply] at applied
    split at applied
    · cases applied
    next known => exact (stored applied).trans (present known)
  | addRule rule =>
    obtain ⟨front, back, -, -, -, sets, -⟩ := apply_place
      (show kernel.apply nft (place false rule) = .ok after from applied)
    rw [sets]
    rfl
  | insertRule rule =>
    obtain ⟨front, back, -, -, -, sets, -⟩ := apply_place
      (show kernel.apply nft (place true rule) = .ok after from applied)
    rw [sets]
    rfl
  | delRule owner chain handle =>
    simp only [apply] at applied
    split at applied <;> cases applied
    rfl

theorem commit_leaves {queue} (committed : kernel.commit nft queue = .ok after) (table : Family) (name : String) :
    (after.sets table name).isSome = queue.foldl (leaves table name) (kernel.sets table name).isSome := by
  induction queue generalizing kernel with
  | nil =>
    cases committed
    rfl
  | cons msg queue ih =>
    obtain ⟨middle, applied, rest⟩ := commit_cons committed
    rw [ih rest, apply_leaves applied, List.foldl_cons]

/-- Every registered vmap is there once the queue is committed. -/
def Opening (world : World) : Prop :=
  ∀ name table, world.router.sgPortVmaps.lookup name = some table →
    world.queue.foldl (leaves table name) (world.kernel.sets table name).isSome = true

/-- Every registered vmap is committed, and nothing in the queue takes it away. -/
structure Settled (world : World) : Prop where
  vmaps : ∀ name table, world.router.sgPortVmaps.lookup name = some table → (world.kernel.sets table name).isSome = true
  opening : Opening world

def Msg.sparing : Msg → Bool
  | .delSet .. | .delTable _ => false
  | _ => true

theorem leaves_of_sparing {msg : Msg} (sparing : msg.sparing = true) (table : Family) (name : String) :
    msg.leaves table name true = true := by
  cases msg with
  | delSet | delTable => cases sparing
  | _ => simp [leaves]

private theorem sparing_of_minor {msg : Msg} (minor : msg.Minor) (stays : msg.dropsSet = false) : msg.sparing = true := by
  cases msg with
  | delSet => cases stays
  | delTable => cases minor.free
  | _ => rfl

theorem place_sparing (insert : Bool) (rule : Rule) : (place insert rule).sparing = true := by
  cases insert <;> rfl

theorem Opening.queued {more : List Msg} (opening : Opening world) (sparing : ∀ msg ∈ more, msg.sparing = true) :
    Opening { world with queue := world.queue ++ more } := by
  intro name table known
  rw [List.foldl_append, opening name table known]
  clear known
  induction more with
  | nil => rfl
  | cons msg more ih =>
    rw [List.foldl_cons, leaves_of_sparing (sparing msg (by simp))]
    exact ih fun other member => sparing other (by simp [member])

theorem Opening.queued_one {msg} (opening : Opening world) (sparing : msg.sparing = true) :
    Opening { world with queue := world.queue ++ [msg] } :=
  opening.queued (by simpa using sparing)

theorem Opening.registered (opening : Opening world) (name : String) (table : Family) :
    Opening { world with
      router := { world.router with sgPortVmaps := world.router.sgPortVmaps.insert name table }
      queue := world.queue ++ [.addSet table name []] } := by
  intro other owner known
  rw [List.foldl_append]
  by_cases same : other = name
  · subst same
    obtain rfl : table = owner := by simpa using known
    simp [leaves]
  · rw [AList.lookup_insert_ne same] at known
    simp [opening other owner known, leaves]

theorem Settled.unregistered (settled : Settled world) (name : String) (table : Family) :
    Settled { world with
      router := { world.router with sgPortVmaps := world.router.sgPortVmaps.erase name }
      queue := world.queue ++ [.delSet table name] } := by
  have fewer : ∀ other owner, (world.router.sgPortVmaps.erase name).lookup other = some owner →
      other ≠ name ∧ world.router.sgPortVmaps.lookup other = some owner := by
    intro other owner known
    by_cases same : other = name
    · subst same
      simp at known
    · exact ⟨same, by rwa [AList.lookup_erase_ne same] at known⟩
  refine ⟨fun other owner known => settled.vmaps other owner (fewer other owner known).2, ?_⟩
  intro other owner known
  obtain ⟨apart, known⟩ := fewer other owner known
  rw [List.foldl_append, settled.opening other owner known]
  simp [leaves, Ne.symm apart]

theorem Settled.dropped (settled : Settled world) : Settled { world with queue := [] } :=
  ⟨settled.vmaps, settled.vmaps⟩

theorem Opening.committed (opening : Opening world) (committed : world.kernel.commit nft world.queue = .ok after) :
    Settled { world with kernel := after, queue := [] } := by
  have there : ∀ name table, world.router.sgPortVmaps.lookup name = some table → (after.sets table name).isSome = true :=
    fun name table known => (commit_leaves committed table name).trans (opening name table known)
  exact ⟨there, there⟩

theorem settled_steady (nft : Nft) : Steady nft (fun msg => msg.sparing = true) (fun _ => True) Settled where
  counts _ _ settled := ⟨settled.vmaps, settled.opening⟩
  logs _ _ settled := ⟨settled.vmaps, settled.opening⟩
  queues _ _ sparing settled := ⟨settled.vmaps, settled.opening.queued_one sparing⟩
  sends _ _ committed settled := settled.opening.committed committed
  drops _ settled := settled.dropped
  refs _ _ settled := ⟨settled.vmaps, settled.opening⟩
  files _ _ _ _ settled := ⟨settled.vmaps, settled.opening⟩
  erases _ _ settled := ⟨settled.vmaps, settled.opening⟩

/-! One operation. -/

/-- Everything is in order unless a call failed that may not, and the vmaps of the given names are registered. -/
structure Upright (fine : Site × Nat → Prop) (names : String → Prop) (base : List Rule) (ctPos : Family → Nat)
    (world : World) : Prop where
  positions : world.router.forwardChainCtPos = ctPos
  known : ∀ name, names name → world.router.sgPortVmaps.lookup name ≠ none
  orderly : (∀ entry ∈ world.failed, fine entry) → Books base world ∧ Settled world

/-- Of the calls of a save and a deletion, only the first `GetRules` and the flush of a save may fail. -/
structure Strict (fine : Site × Nat → Prop) : Prop where
  first : ∀ index, fine (.saveGetRules, index) → index = 0
  handles : ∀ index, ¬ fine (.saveGetHandles, index)
  delRule : ∀ index, ¬ fine (.deleteDelRule, index)
  deleteFlush : ∀ index, ¬ fine (.deleteFlush, index)

variable {fine : Site × Nat → Prop}

private theorem registry_steady (nft : Nft) (vmaps : AList (fun _ : String => Family)) :
    Steady nft (fun _ => True) (fun _ => True) (fun world => world.router.sgPortVmaps = vmaps) where
  counts _ _ same := same
  logs _ _ same := same
  queues _ _ _ same := same
  sends _ _ _ same := same
  drops _ same := same
  refs _ _ same := same
  files _ _ _ _ same := same
  erases _ _ same := same

theorem Upright.of_final {program : RouterM Unit} (since : ∀ start, Keeps (Since start) program)
    (registry : ∀ vmaps, Keeps (fun world => world.router.sgPortVmaps = vmaps) program)
    (step : ∀ world, Books base world → Settled world → (∀ entry ∈ (final (program.run world)).failed, fine entry) →
      Books base (final (program.run world)) ∧ Settled (final (program.run world))) :
    Keeps (Upright fine names base ctPos) program := by
  apply Keeps.of_final
  intro world upright
  have later := (since world).final ⟨List.prefix_refl _, rfl⟩
  have same := (registry world.router.sgPortVmaps).final rfl
  refine ⟨later.positions.trans upright.positions, same ▸ upright.known, ?_⟩
  intro allowed
  obtain ⟨books, settled⟩ := upright.orderly fun entry member => allowed entry (later.logged.subset member)
  exact step world books settled allowed

theorem upright_flush (site : Site) : Keeps (Upright fine names base ctPos) (flush nft site) := by
  apply Upright.of_final (fun start => (since_steady nft start).flush site)
    (fun vmaps => (registry_steady nft vmaps).flush site)
  intro world books settled _
  refine ⟨?_, ((settled_steady nft).flush site).final settled⟩
  obtain ⟨router, kernel, queue, faults, calls, failed⟩ := world
  rcases @flush_cases nft router kernel queue faults calls failed site with
    ⟨after, calls', committed, -, ran⟩ | ⟨-, calls', ran⟩
  · rw [ran]
    exact books.congr rfl rfl (commit_ruleFree books.quiet committed).1 (by simp)
  · rw [ran]
    exact books.congr rfl rfl rfl (by simp)

private theorem last_allowed {log entry} (allowed : ∀ other ∈ log ++ [entry], fine other) :
    fine entry := allowed entry (by simp)

private theorem Books.save_final {key} {rules} {insert} (books : Books base world)
    (built : ∀ rule ∈ rules, rule.Built) (distinct : (rules.map Rule.content).Nodup) (strict : Strict fine)
    (allowed : ∀ entry ∈ (final ((saveFilterRules nft key rules insert).run world)).failed, fine entry) :
    Books base (final ((saveFilterRules nft key rules insert).run world)) := by
  have ready : Ready world rules := ⟨books.sound, books.quiet, fun rule member => (built rule member).toStandard, distinct⟩
  have outcome : SaveOutcome nft key rules insert world _ := saveFilterRules_outcome ready
  generalize (saveFilterRules nft key rules insert).run world = result at allowed outcome
  cases outcome with
  | @unread done rest calls parts more =>
    have early := strict.first _ (last_allowed allowed)
    obtain rfl : done = [] := List.length_eq_zero_iff.mp (by omega)
    exact books.congr rfl rfl rfl (by simpa [batch, missing] using books.quiet)
  | unsent => exact books.congr rfl rfl rfl (by simp)
  | unread_handles => exact absurd (last_allowed allowed) (strict.handles _)
  | saved committed =>
    have saved : Books base (world.saved key rules _) := books.saved built distinct committed
    exact saved.congr rfl rfl rfl saved.quiet

theorem upright_saveFilterRules {key rules insert} (built : ∀ rule ∈ rules, rule.Built)
    (distinct : (rules.map Rule.content).Nodup) (strict : Strict fine) :
    Keeps (Upright fine names base ctPos) (saveFilterRules nft key rules insert) := by
  apply Upright.of_final
    (fun start => (since_steady nft start).saveFilterRules (fun _ _ => trivial) fun _ _ _ _ _ _ => trivial)
    (fun vmaps => (registry_steady nft vmaps).saveFilterRules (fun _ _ => trivial) fun _ _ _ _ _ _ => trivial)
  intro world books settled allowed
  refine ⟨books.save_final built distinct strict allowed, ?_⟩
  exact ((settled_steady nft).saveFilterRules (fun rule _ => place_sparing insert rule)
    fun _ _ _ _ _ _ => trivial).final settled

private theorem settled_deleteFilter (nft : Nft) (key : String) : Keeps Settled (deleteFilter nft key) :=
  (settled_steady nft).deleteFilter fun _ _ _ _ _ => rfl

theorem upright_deleteFilter (strict : Strict fine) (key : String) :
    Keeps (Upright fine names base ctPos) (deleteFilter nft key) := by
  apply Upright.of_final (fun start => (since_steady nft start).deleteFilter fun _ _ _ _ _ => trivial)
    (fun vmaps => (registry_steady nft vmaps).deleteFilter fun _ _ _ _ _ => trivial)
  intro world books settled allowed
  refine ⟨?_, (settled_deleteFilter nft key).final settled⟩
  have outcome : DeleteOutcome nft key world _ := deleteFilter_outcome books.counted fun rule => books.handle_pos
  generalize (deleteFilter nft key).run world = result at allowed outcome
  cases outcome with
  | refused => exact absurd (last_allowed allowed) (strict.delRule _)
  | unsent => exact absurd (last_allowed allowed) (strict.deleteFlush _)
  | unknown absent => exact books
  | deleted held counted committed =>
    have removed := books.removed held counted (books.deleted committed)
    exact removed.congr rfl rfl rfl (by simp)

theorem Upright.congr {other} (upright : Upright fine names base ctPos world)
    (positions : other.router.forwardChainCtPos = world.router.forwardChainCtPos)
    (known : ∀ name, names name → other.router.sgPortVmaps.lookup name ≠ none)
    (logged : ∀ entry ∈ world.failed, entry ∈ other.failed) (maps : other.router.ruleMap = world.router.ruleMap)
    (refs : other.router.ruleRef = world.router.ruleRef) (rules : other.kernel.rules = world.kernel.rules)
    (quiet : Books base world → ∀ msg ∈ other.queue, msg.ruleFree = true) (settled : Settled world → Settled other) :
    Upright fine names base ctPos other := by
  refine ⟨positions.trans upright.positions, known, ?_⟩
  intro allowed
  obtain ⟨books, before⟩ := upright.orderly fun entry member => allowed entry (logged entry member)
  exact ⟨books.congr maps refs rules (quiet books), settled before⟩

private theorem quiet_append {msg} (books : Books base world) (free : msg.ruleFree = true) :
    ∀ other ∈ world.queue ++ [msg], other.ruleFree = true := by
  intro other member
  rcases List.mem_append.mp member with old | new
  · exact books.quiet other old
  · exact List.mem_singleton.mp new ▸ free

theorem upright_undisturbed : Undisturbed ctPos names (Upright fine names base ctPos) where
  positions _ upright := upright.positions
  counts _ _ upright := upright.congr rfl upright.known (fun _ => id) rfl rfl rfl (·.quiet) fun settled => ⟨settled.vmaps, settled.opening⟩
  logs _ _ upright := upright.congr rfl upright.known (fun _ member => List.mem_append_left _ member) rfl rfl rfl (·.quiet)
    fun settled => ⟨settled.vmaps, settled.opening⟩
  queues _ _ minor stays upright := upright.congr rfl upright.known (fun _ => id) rfl rfl rfl
    (fun books => quiet_append books minor.free) fun settled => ⟨settled.vmaps, settled.opening.queued_one (sparing_of_minor minor stays)⟩
  inbounds _ _ upright := upright.congr rfl upright.known (fun _ => id) rfl rfl rfl (·.quiet)
    fun settled => ⟨settled.vmaps, settled.opening⟩
  registers _ name _ named absent upright := absurd absent (upright.known name named)

theorem upright_maintained (strict : Strict fine) : Maintained nft ctPos (fun _ => False) (Upright fine (fun _ => False) base ctPos) where
  toUndisturbed := upright_undisturbed
  unregisters _ name table upright := upright.congr rfl (fun _ => elim) (fun _ => id) rfl rfl rfl
    (fun books => quiet_append books rfl) fun settled => settled.unregistered name table
  flushes := upright_flush
  deletes := upright_deleteFilter strict
  saves _ _ offered := upright_saveFilterRules offered.built offered.distinct strict

/-- While the vmaps of a group are being registered. -/
structure Underway (fine : Site × Nat → Prop) (base : List Rule) (ctPos : Family → Nat) (world : World) : Prop where
  positions : world.router.forwardChainCtPos = ctPos
  orderly : (∀ entry ∈ world.failed, fine entry) → Books base world ∧ Opening world

theorem Underway.congr {other} (underway : Underway fine base ctPos world)
    (positions : other.router.forwardChainCtPos = world.router.forwardChainCtPos)
    (logged : ∀ entry ∈ world.failed, entry ∈ other.failed) (maps : other.router.ruleMap = world.router.ruleMap)
    (refs : other.router.ruleRef = world.router.ruleRef) (rules : other.kernel.rules = world.kernel.rules)
    (quiet : Books base world → ∀ msg ∈ other.queue, msg.ruleFree = true) (opening : Opening world → Opening other) :
    Underway fine base ctPos other := by
  refine ⟨positions.trans underway.positions, ?_⟩
  intro allowed
  obtain ⟨books, before⟩ := underway.orderly fun entry member => allowed entry (logged entry member)
  exact ⟨books.congr maps refs rules (quiet books), opening before⟩

theorem underway_undisturbed : Undisturbed ctPos (fun _ => True) (Underway fine base ctPos) where
  positions _ underway := underway.positions
  counts _ _ underway := underway.congr rfl (fun _ => id) rfl rfl rfl (·.quiet) id
  logs _ _ underway := underway.congr rfl (fun _ member => List.mem_append_left _ member) rfl rfl rfl (·.quiet) id
  queues _ _ minor stays underway := underway.congr rfl (fun _ => id) rfl rfl rfl
    (fun books => quiet_append books minor.free) fun opening => opening.queued_one (sparing_of_minor minor stays)
  inbounds _ _ underway := underway.congr rfl (fun _ => id) rfl rfl rfl (·.quiet) id
  registers _ name table _ _ underway := underway.congr rfl (fun _ => id) rfl rfl rfl
    (fun books => quiet_append books rfl) fun opening => opening.registered name table

theorem underway_saveFilterRules {key} {rules} {insert} (built : ∀ rule ∈ rules, rule.Built)
    (distinct : (rules.map Rule.content).Nodup) (reads : ∀ index, ¬ fine (.saveGetRules, index))
    (flushes : ∀ index, ¬ fine (.saveFlush, index)) (handles : ∀ index, ¬ fine (.saveGetHandles, index)) :
    Triple (Underway fine base ctPos) (saveFilterRules nft key rules insert)
      (fun _ => Upright fine (fun _ => False) base ctPos) (fun _ => Upright fine (fun _ => False) base ctPos) := by
  apply Triple.of_final
  intro world underway
  have since : Keeps (Since world) (saveFilterRules nft key rules insert) :=
    (since_steady nft world).saveFilterRules (fun _ _ => trivial) fun _ _ _ _ _ _ => trivial
  have constant : Keeps (fun other => other.router.sgPortVmaps = world.router.sgPortVmaps)
      (saveFilterRules nft key rules insert) :=
    (registry_steady nft _).saveFilterRules (fun _ _ => trivial) fun _ _ _ _ _ _ => trivial
  have later := since.final ⟨List.prefix_refl _, rfl⟩
  refine ⟨later.positions.trans underway.positions, fun _ => elim, ?_⟩
  intro allowed
  obtain ⟨books, opening⟩ := underway.orderly fun entry member => allowed entry (later.logged.subset member)
  have registry := constant.final rfl
  have ready : Ready world rules := ⟨books.sound, books.quiet, fun rule member => (built rule member).toStandard, distinct⟩
  have outcome : SaveOutcome nft key rules insert world _ := saveFilterRules_outcome ready
  generalize (saveFilterRules nft key rules insert).run world = result at allowed outcome registry
  cases outcome with
  | unread => exact absurd (last_allowed allowed) (reads _)
  | unsent => exact absurd (last_allowed allowed) (flushes _)
  | unread_handles => exact absurd (last_allowed allowed) (handles _)
  | @saved calls after committed =>
    have saved : Books base (world.saved key rules after) := books.saved built distinct committed
    refine ⟨saved.congr rfl rfl rfl saved.quiet, ?_⟩
    have batched : Opening { world with queue := world.batch rules insert } := by
      apply opening.queued
      intro msg member
      obtain ⟨rule, -, rfl⟩ := List.mem_map.mp member
      exact place_sparing insert rule
    have known : ∀ name table, (world.saved key rules after).router.sgPortVmaps.lookup name = some table →
        (after.sets table name).isSome = true := by
      rw [show (world.saved key rules after).router.sgPortVmaps = world.router.sgPortVmaps from registry]
      exact (batched.committed committed).vmaps
    exact ⟨known, known⟩

theorem upright_setSecurityGroups {sgs} {iifName} (strict : Strict fine)
    (apart : ∀ sg ∈ sgs, sg.aliases iifName = false)
    (named : ∀ name, (Op.setSecurityGroups sgs iifName).vmapNames deps name → names name) :
    Keeps (Upright fine names base ctPos) (setSecurityGroups deps sgs iifName) := by
  apply Keeps.forM
  intro sg member
  refine (Undisturbed.setSecurityGroup (upright_undisturbed.fewer fun _ => elim) upright_undisturbed
    (fun _ => id) (fun table applies ports => named _ ⟨sg, member, table, applies, ports, rfl⟩) ?_).consequence
    (fun _ => id) (fun _ _ holds => holds) ?_
  · intro got same
    exact upright_saveFilterRules compile_built (compile_distinct same (apart sg member)) strict
  · rintro fault world (holds | ⟨-, holds⟩) <;> exact holds

theorem underway_setSecurityGroups {sgs} {iifName} (apart : ∀ sg ∈ sgs, sg.aliases iifName = false)
    (reads : ∀ index, ¬ fine (.saveGetRules, index)) (flushes : ∀ index, ¬ fine (.saveFlush, index))
    (handles : ∀ index, ¬ fine (.saveGetHandles, index)) :
    Triple (Upright fine (fun _ => False) base ctPos) (setSecurityGroups deps sgs iifName)
      (fun _ => Upright fine (fun _ => False) base ctPos)
      (fun fault world => fault = .hang ∨ Upright fine (fun _ => False) base ctPos world) := by
  apply Triple.forM
  intro sg member
  refine (Undisturbed.setSecurityGroup upright_undisturbed underway_undisturbed
    (fun _ holds => ⟨holds.positions, fun allowed => (holds.orderly allowed).imp_right Settled.opening⟩)
    (fun _ _ _ => trivial) ?_).consequence (fun _ => id) (fun _ _ holds => holds) ?_
  · intro got same
    exact underway_saveFilterRules compile_built (compile_distinct same (apart sg member))
      reads flushes handles
  · rintro fault world (holds | ⟨rfl, -⟩)
    · exact .inr holds
    · exact .inl rfl

/-! One step of a run. -/

def ended : EStateM.Result Fault World Unit → Bool
  | .error .hang _ => false
  | _ => true

theorem Op.exec_gives {op : Op} {key} (gives : op.gives = some key) :
    op.exec deps = Network.deleteFilter deps.nft key := by
  cases op <;> cases gives <;> rfl

private theorem Books.deleteFilter_failed {key} {op : Op} (books : Books base world) (gives : op.gives = some key)
    (harmless : ∀ entry ∈ (final ((Network.deleteFilter nft key).run world)).failed, Harmless deps world op entry) :
    Books base (final ((Network.deleteFilter nft key).run world)) := by
  have outcome : DeleteOutcome nft key world _ := deleteFilter_outcome books.counted fun rule => books.handle_pos
  generalize (Network.deleteFilter nft key).run world = result at harmless outcome
  cases outcome with
  | unknown absent => exact books
  | @refused rules done rest rule refs queue calls removed held parts first later =>
    obtain ⟨early, other, head, others, same, filed, last⟩ := last_allowed harmless
    cases gives.symm.trans same
    have whole := parts.symm.trans (Option.some.inj (held.symm.trans filed))
    have none : done = [] := by
      cases done with
      | nil => rfl
      | cons item items =>
        obtain rfl : item = head := (List.cons.inj whole).1
        have positive := later item rfl last
        omega
    obtain ⟨rfl, rfl⟩ := first none
    exact books.congr rfl rfl rfl books.quiet
  | unsent held counted =>
    obtain ⟨other, rules, same, filed, leaving⟩ := last_allowed harmless
    cases gives.symm.trans same
    have removed := books.removed filed counted (by simp [remaining, leaving] : world.kernel.rules = world.remaining key rules)
    exact removed.congr rfl rfl rfl (by simp)
  | deleted held counted committed =>
    have removed := books.removed held counted (books.deleted committed)
    exact removed.congr rfl rfl rfl (by simp)

theorem harmless_strict {op : Op} (keyless : op.gives = none) : Strict (Harmless deps world op) where
  first _ allowed := allowed.1
  handles _ := id
  delRule := by
    rintro index ⟨-, key, -, rules, gives, -⟩
    cases keyless.symm.trans gives
  deleteFlush := by
    rintro index ⟨key, rules, gives, -⟩
    cases keyless.symm.trans gives

private theorem set_orderly {step} {sgs} {iifName} (same : step.op = .setSecurityGroups sgs iifName)
    (apart : step.op.Apart) (ends : ended (world.run deps step) = true)
    (harmless : ∀ entry ∈ (world.next deps step).failed, Harmless deps world step.op entry)
    (strict : Strict (Harmless deps world step.op)) (started : Books base (world.begin step.faults))
    (begun : Settled (world.begin step.faults)) :
    Books base (world.next deps step) ∧ Settled (world.next deps step) := by
  have distinct : ∀ sg ∈ sgs, sg.aliases iifName = false := by
    rw [same] at apart
    exact apart
  have runs : step.op.exec deps = setSecurityGroups deps sgs iifName := by
    rw [same]
    rfl
  by_cases known : step.op.Known deps world
  · have initial : Upright (Harmless deps world step.op) (fun name => step.op.vmapNames deps name) base
        world.router.forwardChainCtPos (world.begin step.faults) := ⟨rfl, known, fun _ => ⟨started, begun⟩⟩
    have next : world.next deps step = final ((setSecurityGroups deps sgs iifName).run (world.begin step.faults)) := by
      rw [next, run, runs]
    rw [next] at harmless ⊢
    exact ((upright_setSecurityGroups strict distinct fun name named => same ▸ named).final initial).orderly harmless
  · -- with a vmap to register, no call of the save may fail
    have initial : Upright (Harmless deps world step.op) (fun _ => False) base world.router.forwardChainCtPos
        (world.begin step.faults) := ⟨rfl, fun _ => elim, fun _ => ⟨started, begun⟩⟩
    have reached := @underway_setSecurityGroups deps _ _ _ _ _ distinct (fun _ allowed => known allowed.2) (fun _ allowed => known allowed)
      strict.handles _ initial
    rw [← runs] at reached
    unfold next at harmless ⊢
    unfold run at ends harmless ⊢
    cases ran : (step.op.exec deps).run (world.begin step.faults) with
    | ok value after =>
      rw [ran] at reached harmless
      exact reached.orderly harmless
    | error fault after =>
      rw [ran] at reached harmless ends
      rcases reached with rfl | upright
      · cases ends
      · exact upright.orderly harmless

theorem step_orderly {step} (stands : step.op ≠ .clear) (apart : step.op.Apart)
    (ends : ended (world.run deps step) = true)
    (harmless : ∀ entry ∈ (world.next deps step).failed, Harmless deps world step.op entry)
    (books : Books base world) (settled : Settled world) :
    Books base (world.next deps step) ∧ Settled (world.next deps step) := by
  have started : Books base (world.begin step.faults) := books.congr rfl rfl rfl books.quiet
  have begun : Settled (world.begin step.faults) := ⟨settled.vmaps, settled.opening⟩
  cases gives : step.op.gives with
  | some key =>
    unfold next run at harmless ⊢
    rw [Op.exec_gives gives] at harmless ⊢
    exact ⟨started.deleteFilter_failed gives harmless, (settled_deleteFilter _ key).final begun⟩
  | none =>
    have strict : Strict (Harmless deps world step.op) := harmless_strict gives
    by_cases sets : ∃ sgs iifName, step.op = .setSecurityGroups sgs iifName
    · obtain ⟨sgs, iifName, same⟩ := sets
      exact set_orderly same apart ends harmless strict started begun
    · have initial : Upright (Harmless deps world step.op) (fun _ => False) base world.router.forwardChainCtPos
          (world.begin step.faults) := ⟨rfl, fun _ => elim, fun _ => ⟨started, begun⟩⟩
      exact (((upright_maintained strict).exec stands fun sgs iifName same =>
        absurd ⟨sgs, iifName, same⟩ sets).final initial).orderly harmless

/-! Whole runs. -/

theorem agrees_of_orderly (books : Books base world) (settled : Settled world) : Agrees base world := by
  have ordered := books.inOrder
  refine ⟨ordered.counts, ?_, ?_, settled.vmaps⟩
  · intro rule member added
    obtain ⟨key, filed, held, named⟩ := references_pos.mp ((books.owned rule member).resolve_left added)
    exact ⟨key, filed, held, same_refKey.mp named⟩
  · intro key filed held
    obtain ⟨rule, member, -, named⟩ := books.filed_ident held
    refine ⟨rule, member, ?_, same_refKey.mp named.symm⟩
    intro basic
    have unfiled := books.unfiled rule basic
    have referred := references_pos.mpr ⟨key, filed, held, named.symm⟩
    omega

theorem Fresh.settled {denyAll} (fresh : Fresh deps denyAll world) : Settled world := by
  obtain ⟨kernel, -, router, -⟩ := fresh.at
  have none : ∀ name table, world.router.sgPortVmaps.lookup name ≠ some table := by
    intro name table
    rw [router]
    simp [freshRouter, unset]
  exact ⟨fun name table known => absurd known (none name table), fun name table known => absurd known (none name table)⟩

/-- `GetRules` returns the rules of the operation as they were added. It returns a dnat expression with
`Specified` set, so that the rule of a forwarded port is not found again. -/
def Op.FoundAgain : Op → Prop
  | .forwardPort .. | .forwardPortOnIP .. => False
  | _ => True

/-- The steps of a run in which nothing but harmless calls fails. -/
def Mild (deps : Deps) (before : World) (step : Step) : Prop :=
  step.op ≠ .clear ∧ step.op.FoundAgain ∧ step.op.Apart ∧ ended (before.run deps step) = true ∧
    ∀ entry ∈ (before.next deps step).failed, Harmless deps before step.op entry

theorem Reaches.orderly {denyAll start} (fresh : Fresh deps denyAll start)
    (reached : Reaches deps (Mild deps) start world) : Books start.kernel.rules world ∧ Settled world := by
  induction reached with
  | refl => exact ⟨fresh.books.1, fresh.settled⟩
  | tail _ taken ih =>
    obtain ⟨step, ⟨stands, -, apart, ends, harmless⟩, rfl⟩ := taken
    exact step_orderly stands apart ends harmless ih.1 ih.2

private theorem Books.unsent_iff {key} {rules faults} (books : Books base world) (settled : Settled world)
    (held : world.router.ruleMap.lookup key = some rules)
    (failed : (world.next deps ⟨.deleteFilter key, faults⟩).failed = [(.deleteFlush, 0)]) :
    Agrees base (world.next deps ⟨.deleteFilter key, faults⟩) ↔ world.router.leaving key rules = [] := by
  have started : Books base (world.begin faults) := books.congr rfl rfl rfl books.quiet
  have outcome : DeleteOutcome deps.nft key (world.begin faults) _ :=
    deleteFilter_outcome started.counted fun rule => started.handle_pos
  change (final ((Network.deleteFilter deps.nft key).run (world.begin faults))).failed = _ at failed
  change Agrees base (final ((Network.deleteFilter deps.nft key).run (world.begin faults))) ↔ _
  generalize (Network.deleteFilter deps.nft key).run (world.begin faults) = result at failed outcome
  cases outcome with
  | unknown | deleted | refused => simp [World.begin] at failed
  | @unsent same refs calls filed counted =>
    cases held.symm.trans filed
    constructor
    · intro agrees
      rw [List.eq_nil_iff_forall_not_mem]
      intro rule leaving
      obtain ⟨listed, unheld⟩ := mem_lastHeld leaving
      have mine : rule ∈ RefCount.held (world.begin faults).router.ruleMap key := by simpa [RefCount.held, filed]
      obtain ⟨found, member, -, named⟩ := started.filed_ident mine
      have added : found ∉ base := by
        intro basic
        have unfiled := started.unfiled found basic
        have referred := references_pos.mpr ⟨key, rule, mine, named.symm⟩
        omega
      obtain ⟨other, again, still, equal⟩ := agrees.reachable found member added
      have referred := references_pos.mpr ⟨other, again, still, same_refKey.mpr equal⟩
      rw [named] at referred
      exact absurd unheld (Nat.pos_iff_ne_zero.mp referred)
    · intro empty
      have removed := started.removed filed counted
        (by simp [World.remaining, empty, World.begin] : world.kernel.rules = (world.begin faults).remaining key rules)
      refine agrees_of_orderly (removed.congr rfl rfl rfl (by simp)) ⟨settled.vmaps, settled.vmaps⟩

/-- In every run in which no call fails but harmless ones, the maps describe what is
committed, whether or not the operations reported errors. A `DeleteFilter` whose flush
fails leaves them so exactly if it had no rule to take away. -/
theorem run_agrees {denyAll : Bool} {start : World} (fresh : Fresh deps denyAll start)
    (reached : Reaches deps (Mild deps) start world) :
    Agrees start.kernel.rules world ∧ ∀ key rules faults, world.router.ruleMap.lookup key = some rules →
      (world.next deps ⟨.deleteFilter key, faults⟩).failed = [(.deleteFlush, 0)] →
        (Agrees start.kernel.rules (world.next deps ⟨.deleteFilter key, faults⟩) ↔ world.router.leaving key rules = []) := by
  obtain ⟨books, settled⟩ := reached.orderly fresh
  exact ⟨agrees_of_orderly books settled, fun key rules faults held failed => books.unsent_iff settled held failed⟩

/-- The flush of a `ForwardTraffic` fails, and the next one goes through. -/
theorem run_agrees_retried :
    let deps : Deps := ⟨.counting, id⟩
    let start := fresh deps true
    let forward : Op := .forwardTraffic "eth0" "eth1" (.of (.v4 0x0a000000) 8) prefixWorld4 false
    let first := start.next deps { op := forward, faults := fun site _ => site = .saveFlush }
    let second := first.next deps { op := forward }
    Fresh deps true start ∧ first.failed = [(.saveFlush, 0)] ∧ Agrees start.kernel.rules second := by
  intro deps start forward first second
  have fresh : Fresh deps true start := fresh_of_returned (by decide +kernel)
  have failed : first.failed = [(.saveFlush, 0)] := by decide +kernel
  have clean : second.failed = [] := by decide +kernel
  have known : forward.Known deps start := fun _ => elim
  have tried : Mild deps start { op := forward, faults := fun site _ => site = .saveFlush } := by
    refine ⟨by simp [forward], trivial, trivial, by decide +kernel, ?_⟩
    intro entry member
    obtain rfl : entry = (.saveFlush, 0) := List.mem_singleton.mp (failed ▸ member)
    exact known
  have retried : Mild deps first { op := forward } := by
    refine ⟨by simp [forward], trivial, trivial, by decide +kernel, ?_⟩
    intro entry member
    exact absurd (clean ▸ member) List.not_mem_nil
  exact ⟨fresh, failed, (run_agrees fresh ((Reaches.step .refl tried).step retried)).1⟩

/-- Traffic is no longer forwarded in the books, and still is in the kernel. -/
theorem unsent_deletion_not_agrees :
    let deps : Deps := ⟨.counting, id⟩
    let start := World.fresh deps true
    let world := start.next deps { op := .forwardTraffic "eth0" "eth1" (.of (.v4 0x0a000000) 8) prefixWorld4 false }
    let key := forwardTrafficKey "eth0" "eth1" (.of (.v4 0x0a000000) 8) prefixWorld4
    let after := world.next deps { op := .deleteFilter key, faults := fun site _ => site = .deleteFlush }
    Fresh deps true start ∧ world.failed = [] ∧ after.failed = [(.deleteFlush, 0)] ∧ ¬ Agrees start.kernel.rules after := by
  intro deps start world key after
  refine ⟨World.fresh_of_returned (by decide +kernel), by decide +kernel, by decide +kernel, ?_⟩
  have nobody : after.router.ruleMap.entries = [] := by decide +kernel
  have stands : ∃ rule ∈ after.kernel.rules, rule ∉ start.kernel.rules := by decide +kernel
  intro agrees
  obtain ⟨rule, member, added⟩ := stands
  obtain ⟨other, filed, held, -⟩ := agrees.reachable rule member added
  simp [RefCount.held, AList.lookup, nobody] at held

end MycsCommon.Network
