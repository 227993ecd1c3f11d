import MycsCommon.Proofs.BuiltRules
import MycsCommon.Proofs.FreshRouter
import MycsCommon.Proofs.RuleSteps

/-! The books over whole runs. As long as no nftables call fails and no two rules of a
group overwrite each other, every operation leaves the books in order. -/

namespace MycsCommon.Network
open Library Program List Kernel RefCount Router Rule World

/-- Nothing is taken out of the log, and the place of the security groups stays. -/
structure Since (start world : World) : Prop where
  logged : start.failed <+: world.failed
  positions : world.router.forwardChainCtPos = start.router.forwardChainCtPos

theorem since_steady (nft : Nft) (start : World) : Steady nft (fun _ => True) (fun _ => True) (Since start) where
  counts _ _ since := ⟨since.logged, since.positions⟩
  logs _ _ since := ⟨since.logged.trans (prefix_append _ _), since.positions⟩
  queues _ _ _ since := ⟨since.logged, since.positions⟩
  sends _ _ _ since := ⟨since.logged, since.positions⟩
  drops _ since := ⟨since.logged, since.positions⟩
  refs _ _ since := ⟨since.logged, since.positions⟩
  files _ _ _ _ since := ⟨since.logged, since.positions⟩
  erases _ _ since := ⟨since.logged, since.positions⟩

variable {deps : Deps} {nft : Nft} {base : List Rule} {ctPos : Family → Nat} {world : World}

theorem Books.congr {other} (books : Books base world) (maps : other.router.ruleMap = world.router.ruleMap)
    (refs : other.router.ruleRef = world.router.ruleRef) (rules : other.kernel.rules = world.kernel.rules)
    (quiet : ∀ msg ∈ other.queue, msg.ruleFree = true) : Books base other := by
  have references : other.router.references = world.router.references := by
    funext text
    simp [references, maps]
  refine ⟨books.sound.of_rules_eq rules, quiet, ?_, ?_, ?_, ?_, ?_⟩
  · unfold Counted
    rw [refs, references]
    exact books.counted
  · rw [maps, rules]
    exact books.filed
  · rw [rules]
    exact books.based
  · rw [references]
    exact books.unfiled
  · rw [rules, references]
    exact books.owned

theorem Books.begin (books : Books base world) (faults : Site → Nat → Bool) : Books base (world.begin faults) :=
  books.congr rfl rfl rfl books.quiet

/-- The books are in order unless something failed. -/
structure Kept (base : List Rule) (ctPos : Family → Nat) (world : World) : Prop where
  positions : world.router.forwardChainCtPos = ctPos
  books : world.failed = [] → Books base world

theorem Kept.of_final {α : Type} {program : RouterM α} (since : ∀ start, Keeps (Since start) program)
    (books : ∀ world, Books base world → (final (program.run world)).failed = [] → Books base (final (program.run world))) :
    Keeps (Kept base ctPos) program := by
  apply Keeps.of_final
  intro world kept
  have later := (since world).final ⟨prefix_refl _, rfl⟩
  refine ⟨later.positions.trans kept.positions, ?_⟩
  intro clean
  exact books world (kept.books (prefix_nil.mp (clean ▸ later.logged))) clean

theorem Kept.congr {other} (kept : Kept base ctPos world)
    (positions : other.router.forwardChainCtPos = world.router.forwardChainCtPos)
    (logged : other.failed = [] → world.failed = []) (maps : other.router.ruleMap = world.router.ruleMap)
    (refs : other.router.ruleRef = world.router.ruleRef) (rules : other.kernel.rules = world.kernel.rules)
    (quiet : world.failed = [] → ∀ msg ∈ other.queue, msg.ruleFree = true) : Kept base ctPos other :=
  ⟨positions.trans kept.positions, fun clean =>
    (kept.books (logged clean)).congr maps refs rules (quiet (logged clean))⟩

theorem kept_flush (site : Site) : Keeps (Kept base ctPos) (flush nft site) := by
  apply Kept.of_final fun start => (since_steady nft start).flush site
  intro ⟨router, kernel, queue, faults, calls, failed⟩ books clean
  rcases @flush_cases nft router kernel queue faults calls failed site with
    ⟨after, calls', committed, -, ran⟩ | ⟨-, calls', ran⟩
  · rw [ran]
    exact books.congr rfl rfl (commit_ruleFree books.quiet committed).1 (by simp)
  · simp [ran] at clean

theorem kept_saveFilterRules {key rules insert} (built : ∀ rule ∈ rules, rule.Built)
    (distinct : (rules.map content).Nodup) : Keeps (Kept base ctPos) (saveFilterRules nft key rules insert) := by
  apply Kept.of_final fun start => (since_steady nft start).saveFilterRules (fun _ _ => trivial)
    fun _ _ _ _ _ _ => trivial
  intro world books clean
  have ready : Ready world rules := ⟨books.sound, books.quiet, fun rule member => (built rule member).toStandard, distinct⟩
  have outcome : SaveOutcome nft key rules insert world _ := saveFilterRules_outcome ready
  generalize (saveFilterRules nft key rules insert).run world = result at clean outcome
  cases outcome with
  | unread | unsent | unread_handles => simp at clean
  | saved committed =>
    have saved : Books base (world.saved key rules _) := books.saved built distinct committed
    exact saved.congr rfl rfl rfl saved.quiet

theorem Books.deleted {key} {rules} {after} (books : Books base world)
    (committed : world.kernel.commit nft (world.queue ++ (world.router.leaving key rules).map remove) = .ok after) :
    after.rules = world.remaining key rules := by
  obtain ⟨middle, setup, rest⟩ := commit_append committed
  rw [commit_remove rest, remaining, (commit_ruleFree books.quiet setup).1]

theorem Books.handle_pos (books : Books base world) {key rule} (filed : rule ∈ held world.router.ruleMap key) :
    0 < rule.handle := by
  obtain ⟨found, member, -, same⟩ := books.filed key rule filed
  exact same ▸ books.sound.positive found member

theorem kept_deleteFilter (key : String) : Keeps (Kept base ctPos) (deleteFilter nft key) := by
  apply Kept.of_final fun start => (since_steady nft start).deleteFilter fun _ _ _ _ _ => trivial
  intro world books clean
  have outcome : DeleteOutcome nft key world _ := deleteFilter_outcome books.counted fun rule => books.handle_pos
  generalize (deleteFilter nft key).run world = result at clean outcome
  cases outcome with
  | refused | unsent => simp at clean
  | unknown absent => exact books
  | deleted held counted committed =>
    have removed := books.removed held counted (books.deleted committed)
    exact removed.congr rfl rfl rfl (by simp)

theorem kept_invariant : Invariant nft ctPos (Kept base ctPos) where
  positions _ kept := kept.positions
  counts _ _ kept := kept.congr rfl id rfl rfl rfl fun clean => (kept.books clean).quiet
  logs _ _ kept := kept.congr rfl (by simp) rfl rfl rfl fun clean => (kept.books clean).quiet
  queues world msg minor kept := kept.congr rfl id rfl rfl rfl fun clean other member => by
    rcases mem_append.mp member with old | new
    · exact (kept.books clean).quiet other old
    · rw [mem_singleton.mp new]
      exact minor.free
  names _ _ _ kept := kept.congr rfl id rfl rfl rfl fun clean => (kept.books clean).quiet
  flushes := kept_flush
  deletes := kept_deleteFilter
  saves _ _ offered := kept_saveFilterRules offered.built offered.distinct

/-- No group of the operation has two rules that overwrite each other. -/
def Op.Apart : Op → Prop
  | .setSecurityGroups sgs iifName => ∀ sg ∈ sgs, sg.aliases iifName = false
  | _ => True

theorem kept_exec {op : Op} (stands : op ≠ .clear) (apart : op.Apart) : Keeps (Kept base ctPos) (op.exec deps) := by
  apply kept_invariant.exec stands
  rintro sgs iifName rfl sg member got same
  exact kept_saveFilterRules SecurityGroup.compile_built (SecurityGroup.compile_distinct same (apart sg member))

theorem Fresh.books {denyAll} (fresh : Fresh deps denyAll world) :
    Books world.kernel.rules world ∧ world.failed = [] := by
  obtain ⟨kernel, committed, sameRouter, sameKernel, sameQueue, sameLog⟩ := fresh.at
  have basic : ∀ content ∈ baseContents, ∃ expr ∈ content.2.2, expr.basic = true := by decide
  refine ⟨⟨?_, ?_, ?_, ?_, ?_, ?_, ?_⟩, sameLog⟩
  · rw [sameKernel]
    exact fresh_sound committed
  · simp [sameQueue]
  · rw [sameRouter]
    intro text
    rfl
  · intro key rule filed
    rw [sameRouter] at filed
    simp [freshRouter, unset, held] at filed
  · intro rule member
    refine ⟨member, basic rule.content ?_⟩
    rw [← fresh_contents committed, ← sameKernel]
    exact mem_map.mpr ⟨rule, member, rfl⟩
  · intro rule member
    rw [sameRouter]
    rfl
  · exact fun rule member => .inl member

/-! What the books in order say. -/

/-- How often the lists of all keys hold the rule with this handle. -/
def Router.occurrences (router : Router) (table : Family) (handle : Nat) : Nat :=
  total router.ruleMap fun rule => rule.table = table ∧ rule.handle = handle

def Router.refers (router : Router) (key : String) (rule : Rule) : Prop :=
  ∃ filed ∈ held router.ruleMap key, filed.table = rule.table ∧ filed.handle = rule.handle

/-- The counts are right, the rules that were added since `base` are those that are
counted, and no chain has a rule twice. -/
structure InOrder (base : List Rule) (world : World) : Prop where
  counts : ∀ table handle, world.router.ruleRef.lookup (table.tableName ++ "_" ++ handle.repr) =
    if world.router.occurrences table handle = 0 then none else some ↑(world.router.occurrences table handle)
  committed : ∀ rule ∈ world.kernel.rules, rule ∉ base ↔ (world.router.ruleRef.lookup rule.refKey).isSome = true
  entries : ∀ text, (world.router.ruleRef.lookup text).isSome = true → ∃ rule ∈ world.kernel.rules, rule.refKey = text
  distinct : ∀ table chain, ((world.kernel.chainRules table chain).map exprs).Nodup

theorem same_refKey {rule other : Rule} :
    rule.refKey = other.refKey ↔ rule.table = other.table ∧ rule.handle = other.handle := by
  rw [refKey_inj, ident, ident, Prod.mk.injEq]

theorem Router.references_eq (router : Router) (table : Family) (handle : Nat) :
    router.references (table.tableName ++ "_" ++ handle.repr) = router.occurrences table handle := by
  have named : table.tableName ++ "_" ++ handle.repr = ({ table, chain := "", handle, exprs := [] } : Rule).refKey := rfl
  simp [references, occurrences, named, same_refKey]

theorem Books.counted_pos (books : Books base world) (text : String) :
    (world.router.ruleRef.lookup text).isSome = true ↔ 0 < world.router.references text := by
  rw [books.counted text]
  split <;> simp_all [Nat.pos_iff_ne_zero]

theorem Books.inOrder (books : Books base world) : InOrder base world := by
  refine ⟨?_, ?_, ?_, ?_⟩
  · intro table handle
    rw [books.counted, references_eq]
  · intro rule member
    rw [books.counted_pos]
    constructor
    · intro added
      exact (books.owned rule member).resolve_left added
    · intro counted basic
      have unfiled := books.unfiled rule basic
      omega
  · intro text counted
    obtain ⟨key, rule, filed, named⟩ := references_pos.mp ((books.counted_pos text).mp counted)
    obtain ⟨found, member, -, same⟩ := books.filed_ident filed
    exact ⟨found, member, same.trans named⟩
  · intro table chain
    have contents : (((world.kernel.chainRules table chain).map exprs).map fun exprs => (table, chain, exprs)).Nodup := by
      have same : ((world.kernel.chainRules table chain).map exprs).map (fun exprs => (table, chain, exprs)) =
          (world.kernel.chainRules table chain).map content := by
        rw [map_map]
        apply map_congr_left
        intro rule member
        have place := (mem_filter.mp member).2
        simp only [inChain, Bool.and_eq_true, beq_iff_eq] at place
        simp [content, place.1, place.2]
      rw [same]
      exact books.sound.contents.sublist (filter_sublist.map _)
    exact List.Nodup.of_map _ contents

theorem Router.unreferenced_iff (router : Router) (key : String) (refs : AList (fun _ : String => Int)) (rule : Rule) :
    (router.without key refs).references rule.refKey = 0 ↔ ∀ other, other ≠ key → ¬ router.refers other rule := by
  rw [references, total_eq_zero]
  constructor
  · rintro none other different ⟨filed, member, same⟩
    have absent := none other filed (by rwa [without, held_erase, if_neg different])
    exact of_decide_eq_false absent (same_refKey.mpr same)
  · intro none other filed member
    rw [without, held_erase] at member
    split at member
    · simp at member
    next different =>
      exact decide_eq_false fun same => none other different ⟨filed, member, same_refKey.mp same⟩

theorem Books.deleteFilter (books : Books base world) (key : String)
    (clean : (final ((deleteFilter nft key).run world)).failed = []) {rule : Rule} (standing : rule ∈ world.kernel.rules) :
    rule ∉ (final ((Network.deleteFilter nft key).run world)).kernel.rules ↔
      world.router.refers key rule ∧ ∀ other, other ≠ key → ¬ world.router.refers other rule := by
  have outcome : DeleteOutcome nft key world _ := deleteFilter_outcome books.counted fun rule => books.handle_pos
  generalize (Network.deleteFilter nft key).run world = result at clean outcome
  cases outcome with
  | refused | unsent => simp at clean
  | unknown absent => simp [standing, refers, held, absent]
  | @deleted rules refs _ _ held counted committed =>
    have left := books.deleted committed
    have mine : RefCount.held world.router.ruleMap key = rules := by simp [RefCount.held, held]
    simp only [final_ok]
    rw [left, books.remaining_iff held standing refs, not_not, unreferenced_iff, refers, mine]
    simp [same_refKey]

theorem Reaches.books {denyAll start} (fresh : Fresh deps denyAll start)
    (reached : Reaches deps (fun before step => step.op ≠ .clear ∧ (before.next deps step).failed = [] ∧ step.op.Apart) start world) :
    Books start.kernel.rules world ∧ world.failed = [] := by
  induction reached with
  | refl => exact fresh.books
  | tail _ taken ih =>
    obtain ⟨step, ⟨stands, clean, apart⟩, rfl⟩ := taken
    have begins : Kept start.kernel.rules _ (begin _ step.faults) :=
      ⟨rfl, fun _ => ih.1.begin step.faults⟩
    exact ⟨((kept_exec stands apart).final begins).books clean, clean⟩

/-- In every run without failed calls and without groups whose rules overwrite each
other, the books are in order, and a key that is given up takes along exactly the
rules that no other key refers to. The goroutines of a lookup run one after another. -/
theorem run_in_order {denyAll : Bool} {start : World} (fresh : Fresh deps denyAll start)
    (reached : Reaches deps (fun before step => step.op ≠ .clear ∧ (before.next deps step).failed = [] ∧ step.op.Apart)
      start world) :
    InOrder start.kernel.rules world ∧ ∀ key faults, (world.next deps ⟨.deleteFilter key, faults⟩).failed = [] →
      ∀ rule ∈ world.kernel.rules, rule ∉ (world.next deps ⟨.deleteFilter key, faults⟩).kernel.rules ↔
        world.router.refers key rule ∧ ∀ other, other ≠ key → ¬ world.router.refers other rule := by
  obtain ⟨books, -⟩ := reached.books fresh
  refine ⟨books.inOrder, ?_⟩
  intro key faults clean rule standing
  exact (books.begin faults).deleteFilter key clean standing

def overwrittenSums (bytes : Bytes) : Bytes :=
  if bytes = textBytes "_10.0.0.0/8_11.0.0.0/8" then [133, 94, 45, 171, 199, 38, 152, 98] else [117, 164, 242, 8, 234, 231, 35, 88]

def overwrittenGroup : SecurityGroup :=
  { srcNetwork := .of (.v4 0x0a000000) 8, dstNetwork := .of (.v4 0x0b000000) 8, oifname := "eth1"
    ports := [⟨.TCP, 80, 80⟩, ⟨.ICMP, 0, 0⟩] }

/-- The traffic of one network forwarded from two interfaces, which share their masquerading rule. -/
theorem run_in_order_forwarding :
    let deps : Deps := ⟨.counting, overwrittenSums⟩
    let start := fresh deps true
    let first := start.next deps { op := .forwardTraffic "wg0" "eth0" (.of (.v4 0x0a000000) 8) prefixWorld4 true }
    let second := first.next deps { op := .forwardTraffic "wg1" "eth0" (.of (.v4 0x0a000000) 8) prefixWorld4 true }
    Fresh deps true start ∧ first.failed = [] ∧ second.failed = [] ∧ InOrder start.kernel.rules second := by
  intro deps start first second
  have fresh : Fresh deps true start := fresh_of_returned (by decide +kernel)
  have firstClean : first.failed = [] := by decide +kernel
  have secondClean : second.failed = [] := by decide +kernel
  refine ⟨fresh, firstClean, secondClean, ?_⟩
  exact (run_in_order fresh ((Reaches.step .refl ⟨by simp, firstClean, trivial⟩).step ⟨by simp, secondClean, trivial⟩)).1

/-- The group's two rules both read what the second was meant to say, and the chain has it twice. -/
theorem overwritten_not_in_order :
    let deps : Deps := ⟨.counting, overwrittenSums⟩
    let start := fresh deps true
    let world := start.next deps { op := .setSecurityGroups [overwrittenGroup] "" }
    Fresh deps true start ∧ world.failed = [] ∧ ¬ InOrder start.kernel.rules world := by
  intro deps start world
  refine ⟨fresh_of_returned (by decide +kernel), by decide +kernel, ?_⟩
  intro ordered
  have twice : ¬ ((world.kernel.chainRules .ipv4 "forward").map exprs).Nodup := by decide +kernel
  exact twice (ordered.distinct .ipv4 "forward")

end MycsCommon.Network
