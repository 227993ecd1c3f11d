import MycsCommon.Proofs.BuiltRules
import MycsCommon.Proofs.FreshRouter
import MycsCommon.Proofs.RuleSteps

/-! The order of the forward chain. Security groups insert their rules before the
ct-state rule, by the handle it had at the start; forwarding rules are appended. The
order holds in every state of every run, whatever calls fail. -/

namespace MycsCommon.Network
open Library Program List EStateM Kernel Msg RefCount Rule SecurityGroup

/-- What some security group says in the forward chain. -/
def Rule.FromGroup (sum64 : Bytes → Bytes) (rule : Rule) : Prop :=
  ∃ (sg : SecurityGroup) (iifName : String) (ctPos : Family → Nat) (got : Family → Bool),
    ∃ built ∈ sg.compile iifName (sg.pgVmapName sum64 iifName) ctPos got, built.chain = "forward" ∧ built.content = rule.content

/-- What a forwarded port or forwarded traffic says in the forward chain. -/
inductive Rule.FromForwarding (rule : Rule) : Prop where
  | port (forwardIP : Addr) (chain : rule.chain = "forward")
      (exprs : rule.exprs = destExprs rule.table forwardIP ++ [.verdict .accept])
  | traffic (srcItfName dstItfName : String) (srcNetwork dstNetwork : Prefix) (chain : rule.chain = "forward")
      (exprs : rule.exprs = ifnameExprs .iifname srcItfName ++ ifnameExprs .oifname dstItfName ++
        (srcDstExprs rule.table srcNetwork dstNetwork ++ [.verdict .accept]))

theorem Offered.forwarding {rules} (offered : Offered rules) {rule} (member : rule ∈ rules)
    (forward : rule.chain = "forward") : rule.FromForwarding := by
  cases offered with
  | port family number dstPort forwardPort dstIP forwardIP =>
    simp only [forwardPortRules, mem_cons, not_mem_nil, or_false] at member
    rcases member with rfl | rfl | rfl
    · simp at forward
    · simp at forward
    · exact .port forwardIP rfl rfl
  | traffic family srcItfName dstItfName srcNetwork dstNetwork withNat =>
    rcases mem_cons.mp member with rfl | nat
    · exact .traffic srcItfName dstItfName srcNetwork dstNetwork rfl rfl
    · cases withNat with
      | false => cases nat
      | true =>
        obtain rfl := mem_singleton.mp nat
        simp at forward
  | denied | allowed =>
    have elsewhere : ∀ rule ∈ families.flatMap denyListRules ++ families.flatMap allowListRules, rule.chain ≠ "forward" := by
      decide
    exact absurd forward (elsewhere rule (by simp [member]))

theorem SecurityGroup.target_cases (sg : SecurityGroup) (iifName : String) (ctPos : Family → Nat) :
    ((sg.target iifName ctPos).chain = "forward" ∧ (sg.target iifName ctPos).insert = true ∧
      (sg.target iifName ctPos).position = ctPos ∧ sg.dstNetwork.isValid = true) ∨
    ((sg.target iifName ctPos).chain ≠ "forward" ∧ (sg.target iifName ctPos).insert = false) := by
  have inbound := beq_eq_false_iff_ne.mp (minor_inbound .ipv4 iifName none).aside
  unfold target
  split
  · cases sg.dstNetwork.isValid with
    | true => exact .inl ⟨rfl, rfl, rfl, rfl⟩
    | false => exact .inr ⟨inbound, rfl⟩
  · cases sg.dstNetwork.isValid with
    | true => exact .inl ⟨rfl, rfl, rfl, rfl⟩
    | false => exact .inr ⟨show "input" ≠ "forward" by decide, rfl⟩

theorem Rule.FromGroup.exprs {sum64} {rule : Rule} (group : rule.FromGroup sum64) :
    ∃ (sg : SecurityGroup) (pre tail : List Expr), sg.dstNetwork.isValid = true ∧
      (pre = [] ∨ ∃ iifName, pre = ifnameExprs .iifname iifName) ∧ rule.exprs = pre ++ sg.matchList rule.table ++ tail := by
  obtain ⟨sg, iifName, ctPos, got, built, member, forward, same⟩ := group
  obtain ⟨table, -, tail, -, rfl⟩ := mem_compile.mp member
  simp only [content, Prod.mk.injEq] at same
  obtain ⟨rfl, -, same⟩ := same
  rcases sg.target_cases iifName ctPos with ⟨-, -, -, valid⟩ | ⟨elsewhere, -⟩
  · refine ⟨sg, _, tail, valid, ?_, same.symm⟩
    unfold target
    rw [valid]
    split
    · exact .inr ⟨iifName, rfl⟩
    · exact .inl rfl
  · exact absurd forward elsewhere

private theorem offsets_ne (table : Family) : (ipHeaderOffsets table).srcOffset ≠ (ipHeaderOffsets table).destOffset := by
  cases table <;> decide

/-- A group masks the destination and names the source before the outgoing interface; forwarding does neither. -/
theorem Rule.FromGroup.not_forwarding {sum64} {rule : Rule} (group : rule.FromGroup sum64) : ¬rule.FromForwarding := by
  obtain ⟨sg, pre, tail, valid, first, exprs⟩ := group.exprs
  intro forwarding
  cases forwarding with
  | port forwardIP chain same =>
    have masked : Expr.bitwise 1 1 (ipHeaderOffsets rule.table).addrLen
        (cidrMask sg.dstNetwork.bits ((ipHeaderOffsets rule.table).addrLen * 8))
        (List.replicate (ipHeaderOffsets rule.table).addrLen 0) ∈ rule.exprs := by
      rw [exprs]
      simp [matchList, valid, networkExprs]
    simp [same, destExprs] at masked
  | traffic srcItfName dstItfName srcNetwork dstNetwork chain same =>
    rw [same] at exprs
    unfold matchList at exprs
    rcases first with rfl | ⟨iifName, rfl⟩
    · by_cases source : sg.srcNetwork.isValid = true <;> by_cases out : sg.oifname = "" <;>
        simp [ifnameExprs, networkExprs, valid, source, out] at exprs
    · by_cases source : sg.srcNetwork.isValid = true <;> by_cases out : sg.oifname = "" <;>
        simp [ifnameExprs, networkExprs, srcDstExprs, valid, source, out, offsets_ne] at exprs

theorem not_fromGroup_ctState (sum64 : Bytes → Bytes) {rule : Rule} (ctState : rule.exprs = ctstateExpr) :
    ¬rule.FromGroup sum64 ∧ ¬rule.FromForwarding := by
  constructor
  · intro group
    obtain ⟨sg, pre, tail, valid, first, exprs⟩ := group.exprs
    rw [ctState] at exprs
    unfold matchList at exprs
    rcases first with rfl | ⟨iifName, rfl⟩
    · by_cases source : sg.srcNetwork.isValid = true <;> by_cases out : sg.oifname = "" <;>
        simp [ctstateExpr, ifnameExprs, networkExprs, valid, source, out] at exprs
    · simp [ctstateExpr, ifnameExprs] at exprs
  · intro forwarding
    cases forwarding with
    | port forwardIP chain same => simp [ctState, ctstateExpr, destExprs] at same
    | traffic srcItfName dstItfName srcNetwork dstNetwork chain same => simp [ctState, ctstateExpr, ifnameExprs] at same

/-! The chain in the kernel. -/

/-- The rules of the groups, the ct-state rule and the forwarding rules, each part in
the order the kernel took its rules. -/
structure ForwardParts (sum64 : Bytes → Bytes) (kernel : Kernel) (table : Family) (groups : List Rule) (ct : Rule)
    (accepts : List Rule) : Prop where
  chain : kernel.chainRules table "forward" = groups ++ ct :: accepts
  ctState : ct.exprs = ctstateExpr
  grouped : ∀ rule ∈ groups, rule.FromGroup sum64
  forwarded : ∀ rule ∈ accepts, rule.FromForwarding
  inserted : groups.Pairwise fun first second => first.stamp < second.stamp
  added : accepts.Pairwise fun first second => first.stamp < second.stamp

structure Kernel.Ordered (sum64 : Bytes → Bytes) (ctPos : Family → Nat) (kernel : Kernel) : Prop where
  numbered : kernel.Numbered
  stamps : ∀ rule ∈ kernel.rules, rule.stamp < kernel.clock
  parts : ∀ table, ∃ groups ct accepts, ForwardParts sum64 kernel table groups ct accepts ∧ ct.handle = ctPos table

def Msg.Proper (sum64 : Bytes → Bytes) (ctPos : Family → Nat) : Msg → Prop
  | .addRule rule => rule.Standard ∧ (rule.chain = "forward" → rule.FromForwarding)
  | .insertRule rule =>
    rule.Standard ∧ rule.chain = "forward" ∧ rule.position = ctPos rule.table ∧ rule.FromGroup sum64
  | .delRule table _ handle => handle ≠ ctPos table
  | .delTable _ => False
  | _ => True

section Chain
variable {nft : Nft} {sum64 : Bytes → Bytes} {ctPos : Family → Nat} {kernel after : Kernel} {table : Family}
  {groups accepts : List Rule} {ct : Rule}

/-- Where the rules of a list come right before the first one that is `marked`, they come there in every part of the list. -/
private theorem filter_insert {chosen marked : Rule → Bool}
    (inside : ∀ rule, marked rule = true → chosen rule = true) {rules before rest : List Rule} {first new}
    (split : rules.filter chosen = before ++ first :: rest) (mark : marked first = true)
    (unmarked : ∀ rule ∈ before, marked rule = false) (wanted : chosen new = true) :
    (rules.takeWhile (!marked ·) ++ new :: rules.dropWhile (!marked ·)).filter chosen = before ++ new :: first :: rest := by
  induction rules generalizing before with
  | nil => simp at split
  | cons rule rules ih =>
    cases marks : marked rule with
    | true =>
      rw [filter_cons_of_pos (inside rule marks)] at split
      cases before with
      | nil =>
        obtain ⟨rfl, rfl⟩ := List.cons.inj split
        simp [marks, wanted, inside rule marks]
      | cons head before =>
        obtain ⟨rfl, -⟩ := List.cons.inj split
        exact absurd marks (by simp [unmarked rule])
    | false =>
      have step : (rule :: rules).takeWhile (!marked ·) ++ new :: (rule :: rules).dropWhile (!marked ·) =
          rule :: (rules.takeWhile (!marked ·) ++ new :: rules.dropWhile (!marked ·)) := by simp [marks]
      rw [step]
      cases picks : chosen rule with
      | true =>
        rw [filter_cons_of_pos picks] at split ⊢
        cases before with
        | nil =>
          obtain ⟨rfl, -⟩ := List.cons.inj split
          exact absurd mark (by simp [marks])
        | cons head before =>
          obtain ⟨rfl, later⟩ := List.cons.inj split
          rw [ih later fun other member => unmarked other (mem_cons_of_mem _ member), cons_append]
      | false =>
        rw [filter_cons_of_neg (by simp [picks])] at split ⊢
        exact ih split unmarked

theorem ForwardParts.ct_mem (parts : ForwardParts sum64 kernel table groups ct accepts) :
    ct ∈ kernel.rules ∧ ct.table = table := by
  have member : ct ∈ kernel.chainRules table "forward" := by rw [parts.chain]; simp
  have inside := mem_filter.mp member
  simp only [inChain, Bool.and_eq_true, beq_iff_eq] at inside
  exact ⟨inside.1, inside.2.1⟩

theorem ForwardParts.of_chainRules (parts : ForwardParts sum64 kernel table groups ct accepts)
    (same : after.chainRules table "forward" = kernel.chainRules table "forward") :
    ForwardParts sum64 after table groups ct accepts :=
  { parts with chain := same.trans parts.chain }

private theorem pairwise_enter {rules} {rule}
    (sorted : rules.Pairwise fun first second => first.stamp < second.stamp)
    (stamps : ∀ rule ∈ rules, rule.stamp < kernel.clock) :
    (rules ++ [kernel.enter nft rule]).Pairwise fun first second => first.stamp < second.stamp := by
  refine pairwise_append.mpr ⟨sorted, pairwise_singleton _ _, ?_⟩
  intro first member second new
  rw [mem_singleton.mp new]
  exact stamps first member

private theorem ForwardParts.stamps (parts : ForwardParts sum64 kernel table groups ct accepts)
    (stamps : ∀ rule ∈ kernel.rules, rule.stamp < kernel.clock) :
    (∀ rule ∈ groups, rule.stamp < kernel.clock) ∧ ∀ rule ∈ accepts, rule.stamp < kernel.clock := by
  have inside : ∀ rule ∈ groups ++ ct :: accepts, rule.stamp < kernel.clock := by
    intro rule member
    rw [← parts.chain] at member
    exact stamps rule (mem_filter.mp member).1
  exact ⟨fun rule member => inside rule (by simp [member]), fun rule member => inside rule (by simp [member])⟩

theorem ForwardParts.addRule {rule} (parts : ForwardParts sum64 kernel table groups ct accepts)
    (stamps : ∀ rule ∈ kernel.rules, rule.stamp < kernel.clock)
    (forwarding : rule.chain = "forward" → rule.FromForwarding)
    (rules : after.rules = kernel.rules ++ [kernel.enter nft rule]) :
    ∃ accepts, ForwardParts sum64 after table groups ct accepts := by
  have chain : after.chainRules table "forward" = kernel.chainRules table "forward" ++
      [kernel.enter nft rule].filter (inChain table "forward") := by
    rw [chainRules, rules, filter_append]
    rfl
  cases inside : inChain table "forward" (kernel.enter nft rule) with
  | false =>
    rw [filter_cons_of_neg (by simp [inside]), filter_nil, append_nil] at chain
    exact ⟨accepts, parts.of_chainRules chain⟩
  | true =>
    have forward : rule.chain = "forward" := by
      simp only [inChain, Bool.and_eq_true, beq_iff_eq] at inside
      exact inside.2
    have entered : (kernel.enter nft rule).FromForwarding := by
      cases forwarding forward with
      | port forwardIP chain exprs => exact .port forwardIP chain exprs
      | traffic srcItfName dstItfName srcNetwork dstNetwork chain exprs =>
        exact .traffic srcItfName dstItfName srcNetwork dstNetwork chain exprs
    rw [filter_cons_of_pos inside, filter_nil, parts.chain, append_assoc, cons_append] at chain
    refine ⟨accepts ++ [kernel.enter nft rule], { parts with chain, forwarded := ?_, added := ?_ }⟩
    · intro other member
      rcases mem_append.mp member with old | new
      · exact parts.forwarded other old
      · rwa [mem_singleton.mp new]
    · exact pairwise_enter parts.added (parts.stamps stamps).2

theorem chainRules_place {insert rule} (elsewhere : inChain table "forward" (kernel.enter nft rule) = false)
    (applied : kernel.apply nft (place insert rule) = .ok after) :
    after.chainRules table "forward" = kernel.chainRules table "forward" := by
  obtain ⟨front, back, before, placed, -⟩ := apply_place applied
  rw [chainRules, chainRules, before, placed, filter_append, filter_append,
    filter_cons_of_neg (by simp [elsewhere])]

theorem ForwardParts.insertRule {rule : Rule} (parts : ForwardParts sum64 kernel table groups ct accepts)
    (numbered : kernel.Numbered) (stamps : ∀ rule ∈ kernel.rules, rule.stamp < kernel.clock) (handle : ct.handle = ctPos table)
    (forward : rule.chain = "forward") (position : rule.position = ctPos rule.table) (group : rule.FromGroup sum64)
    (applied : kernel.apply nft (.insertRule rule) = .ok after) :
    ∃ groups, ForwardParts sum64 after table groups ct accepts := by
  by_cases mine : rule.table = table
  · obtain ⟨standing, ctTable⟩ := parts.ct_mem
    have placed : rule.position = ct.handle := by rw [position, mine, handle]
    have positive := numbered.positive ct standing
    have inside : inChain table "forward" (kernel.enter nft rule) = true := by
      simp [inChain, enter, mine, forward]
    simp only [apply] at applied
    split at applied
    · cases applied
    split at applied
    next => omega
    split at applied
    next =>
      cases applied
      refine ⟨groups ++ [kernel.enter nft rule], { parts with chain := ?_, grouped := ?_, inserted := ?_ }⟩
      · rw [chainRules, append_assoc, singleton_append]
        refine filter_insert ?_ parts.chain ?_ ?_ inside
        · intro other marked
          simp only [Bool.and_eq_true] at marked
          rw [← mine, ← forward]
          exact marked.1
        · have member : ct ∈ kernel.chainRules table "forward" := by rw [parts.chain]; simp
          rw [mine, forward, placed]
          simp [(mem_filter.mp member).2]
        · -- only the ct-state rule has the handle that is looked for
          intro other member
          by_contra marked
          simp only [Bool.not_eq_false, Bool.and_eq_true, inChain, beq_iff_eq] at marked
          have standing' : other ∈ kernel.chainRules table "forward" := by rw [parts.chain]; simp [member]
          have same : other = ct := numbered.eq_of_ident (mem_filter.mp standing').1 standing
            (by simp [ident, marked.1.1, mine, ctTable, marked.2, placed])
          exact (not_fromGroup_ctState sum64 parts.ctState).1 (same ▸ parts.grouped other member)
      · intro other member
        rcases mem_append.mp member with old | new
        · exact parts.grouped other old
        · rw [mem_singleton.mp new]
          exact group
      · exact pairwise_enter parts.inserted (parts.stamps stamps).1
    next => cases applied
  · have elsewhere : inChain table "forward" (kernel.enter nft rule) = false := by
      simp [inChain, enter, mine]
    exact ⟨groups, parts.of_chainRules (chainRules_place elsewhere (show kernel.apply nft (place true rule) = _ from applied))⟩

theorem ForwardParts.delRule {owner chain handle} (parts : ForwardParts sum64 kernel table groups ct accepts)
    (stays : ct.handle = ctPos table) (other : handle ≠ ctPos owner)
    (applied : kernel.apply nft (.delRule owner chain handle) = .ok after) :
    ∃ groups accepts, ForwardParts sum64 after table groups ct accepts := by
  simp only [apply] at applied
  split at applied
  next =>
    cases applied
    let left : Rule → Bool := fun present => !(present.inChain owner chain && present.handle == handle)
    have kept : left ct = true := by
      have ctTable := parts.ct_mem.2
      simp only [left, Bool.not_eq_true', Bool.and_eq_false_iff, inChain, beq_eq_false_iff_ne]
      by_cases same : ct.table = owner
      · refine .inr ?_
        rw [stays, ← ctTable, same]
        exact other.symm
      · exact .inl (.inl same)
    refine ⟨groups.filter left, accepts.filter left, ⟨?_, parts.ctState, ?_, ?_, ?_, ?_⟩⟩
    · have swapped : (kernel.rules.filter left).filter (inChain table "forward") =
          (kernel.chainRules table "forward").filter left := filter_comm _ _ _
      rw [parts.chain, filter_append, filter_cons_of_pos kept] at swapped
      exact swapped
    · exact fun rule member => parts.grouped rule (mem_filter.mp member).1
    · exact fun rule member => parts.forwarded rule (mem_filter.mp member).1
    · exact parts.inserted.sublist filter_sublist
    · exact parts.added.sublist filter_sublist
  next => cases applied

private theorem stamps_place {insert rule} (stamps : ∀ rule ∈ kernel.rules, rule.stamp < kernel.clock)
    (applied : kernel.apply nft (place insert rule) = .ok after) : ∀ rule ∈ after.rules, rule.stamp < after.clock := by
  obtain ⟨front, back, before, placed, -, -, clock⟩ := apply_place applied
  rw [before] at stamps
  rw [placed, clock]
  intro other member
  rcases mem_append.mp member with early | late
  · exact Nat.lt_succ_of_lt (stamps other (by simp [early]))
  · rcases mem_cons.mp late with rfl | later
    · exact Nat.lt_succ_self _
    · exact Nat.lt_succ_of_lt (stamps other (by simp [later]))

theorem Kernel.Ordered.apply {msg} (ordered : kernel.Ordered sum64 ctPos) (proper : msg.Proper sum64 ctPos)
    (applied : kernel.apply nft msg = .ok after) : after.Ordered sum64 ctPos := by
  by_cases free : msg.ruleFree = true
  · obtain ⟨rules, clock⟩ := apply_ruleFree free applied
    refine ⟨ordered.numbered.of_sublist (rules ▸ .refl _), by rw [rules, clock]; exact ordered.stamps, fun table => ?_⟩
    obtain ⟨groups, ct, accepts, parts, handle⟩ := ordered.parts table
    exact ⟨groups, ct, accepts, parts.of_chainRules (by rw [chainRules, chainRules, rules]), handle⟩
  · cases msg with
    | addRule rule =>
      obtain ⟨standard, forwarding⟩ := proper
      have placed : kernel.apply nft (place false rule) = .ok after := applied
      refine ⟨(ordered.numbered.place standard placed).1, stamps_place ordered.stamps placed, fun table => ?_⟩
      obtain ⟨groups, ct, accepts, parts, handle⟩ := ordered.parts table
      have rules : after.rules = kernel.rules ++ [kernel.enter nft rule] := by
        simp only [Kernel.apply] at applied
        split at applied <;> cases applied
        rfl
      obtain ⟨accepts, parts⟩ := parts.addRule ordered.stamps forwarding rules
      exact ⟨groups, ct, accepts, parts, handle⟩
    | insertRule rule =>
      obtain ⟨standard, forward, position, group⟩ := proper
      have placed : kernel.apply nft (place true rule) = .ok after := applied
      refine ⟨(ordered.numbered.place standard placed).1, stamps_place ordered.stamps placed, fun table => ?_⟩
      obtain ⟨groups, ct, accepts, parts, handle⟩ := ordered.parts table
      obtain ⟨groups, parts⟩ := parts.insertRule ordered.numbered ordered.stamps handle forward position group applied
      exact ⟨groups, ct, accepts, parts, handle⟩
    | delRule owner chain handle =>
      have standard : (Msg.delRule owner chain handle).Standard := trivial
      refine ⟨ordered.numbered.apply standard applied, ?_, fun table => ?_⟩
      · simp only [Kernel.apply] at applied
        split at applied <;> cases applied
        exact fun rule member => ordered.stamps rule (mem_filter.mp member).1
      · obtain ⟨groups, ct, accepts, parts, ctHandle⟩ := ordered.parts table
        obtain ⟨groups, accepts, parts⟩ := parts.delRule ctHandle proper applied
        exact ⟨groups, ct, accepts, parts, ctHandle⟩
    | delTable table => exact absurd proper id
    | addTable | addChain | addSet | delSet | setAddElements | setDeleteElements => exact absurd rfl free

theorem Kernel.Ordered.commit {queue} (ordered : kernel.Ordered sum64 ctPos)
    (proper : ∀ msg ∈ queue, msg.Proper sum64 ctPos) (committed : kernel.commit nft queue = .ok after) :
    after.Ordered sum64 ctPos :=
  commit_keeps (Ordered sum64 ctPos) (fun msg member _ _ held applied => held.apply (proper msg member) applied)
    ordered committed

end Chain

/-! The chain in the states of a run. -/

/-- The forward chains stand in order; nothing that is queued or filed disturbs them. -/
structure Ranked (sum64 : Bytes → Bytes) (ctPos : Family → Nat) (world : World) : Prop where
  positions : world.router.forwardChainCtPos = ctPos
  ordered : world.kernel.Ordered sum64 ctPos
  queued : ∀ msg ∈ world.queue, msg.Proper sum64 ctPos
  filed : ∀ key, ∀ rule ∈ held world.router.ruleMap key, rule.handle ≠ ctPos rule.table

/-- The forward chains are gone, and nothing that is queued opens them again. -/
structure Cleared (ctPos : Family → Nat) (world : World) : Prop where
  positions : world.router.forwardChainCtPos = ctPos
  closed : world.router.tables = false
  chains : ∀ table, world.kernel.chains table "forward" = none
  queued : ∀ msg ∈ world.queue, msg.opens "forward" = false

section Run
variable {deps : Deps} {nft : Nft} {sum64 : Bytes → Bytes} {ctPos : Family → Nat} {world : World}

private theorem queued_append {property : Msg → Prop} {queue msg} (all : ∀ msg ∈ queue, property msg)
    (new : property msg) : ∀ other ∈ queue ++ [msg], property other := by
  intro other member
  rcases mem_append.mp member with old | last
  · exact all other old
  · rwa [mem_singleton.mp last]

theorem ranked_steady (nft : Nft) :
    Steady nft (Proper sum64 ctPos) (fun rule => rule.handle ≠ ctPos rule.table) (Ranked sum64 ctPos) where
  counts _ _ ranked := ⟨ranked.positions, ranked.ordered, ranked.queued, ranked.filed⟩
  logs _ _ ranked := ⟨ranked.positions, ranked.ordered, ranked.queued, ranked.filed⟩
  queues _ _ proper ranked := ⟨ranked.positions, ranked.ordered, queued_append ranked.queued proper, ranked.filed⟩
  sends _ _ committed ranked := ⟨ranked.positions, ranked.ordered.commit ranked.queued committed, by simp, ranked.filed⟩
  drops _ ranked := ⟨ranked.positions, ranked.ordered, by simp, ranked.filed⟩
  refs _ _ ranked := ⟨ranked.positions, ranked.ordered, ranked.queued, ranked.filed⟩
  files _ key rules each ranked := by
    refine ⟨ranked.positions, ranked.ordered, ranked.queued, ?_⟩
    intro other rule member
    simp only [Router.file, held_insert] at member
    split at member
    next same =>
      rcases mem_append.mp member with old | new
      · exact ranked.filed key rule old
      · exact each rule new
    next => exact ranked.filed other rule member
  erases _ key ranked := by
    refine ⟨ranked.positions, ranked.ordered, ranked.queued, ?_⟩
    intro other rule member
    simp only [held_erase] at member
    split at member
    · cases member
    · exact ranked.filed other rule member

private theorem Ranked.captured (ranked : Ranked sum64 ctPos world) {rule found} (built : rule.Built)
    (looked : findRuleInList nft rule (world.kernel.chainRules rule.table rule.chain) = .ok (some found)) :
    found.handle ≠ ctPos rule.table := by
  rw [Kernel.findRuleInList_find ranked.ordered.numbered.standard built.toStandard] at looked
  obtain ⟨member, content⟩ := Kernel.find_some (Except.ok.inj looked)
  simp only [Rule.content, Prod.mk.injEq] at content
  obtain ⟨groups, ct, accepts, parts, handle⟩ := ranked.ordered.parts rule.table
  obtain ⟨standing, table⟩ := parts.ct_mem
  intro same
  have equal : found = ct := ranked.ordered.numbered.eq_of_ident member standing
    (by rw [Rule.ident, Rule.ident, content.1, table, same, handle])
  have basic := built.added (.lookup 1 "ctstate" true false) (by rw [← content.2.2, equal, parts.ctState]; decide)
  exact absurd basic (by decide)

private theorem ranked_saveFilterRules {key} {rules} {insert} (built : ∀ rule ∈ rules, rule.Built)
    (places : ∀ rule ∈ rules, (place insert rule).Proper sum64 ctPos) :
    Keeps (Ranked sum64 ctPos) (saveFilterRules nft key rules insert) :=
  (ranked_steady nft).saveFilterRules places fun _ ranked rule member _ => ranked.captured (built rule member)

theorem ranked_invariant : Invariant nft ctPos (Ranked sum64 ctPos) := by
  refine (ranked_steady nft).invariant (fun _ ranked => ranked.positions) ?_
    (fun _ _ _ ranked => ⟨ranked.positions, ranked.ordered, ranked.queued, ranked.filed⟩)
    (fun _ ranked key rule member _ => ranked.filed key rule member) ?_
  · intro msg minor
    cases msg with
    | delTable | addRule | insertRule | delRule => cases minor.free
    | addTable | addChain | addSet | delSet | setAddElements | setDeleteElements => trivial
  · intro key rules offered
    exact ranked_saveFilterRules offered.built fun rule member =>
      ⟨(offered.built rule member).toStandard, offered.forwarding member⟩

theorem cleared_steady (nft : Nft) : Steady nft (fun msg => msg.opens "forward" = false) (fun _ => True) (Cleared ctPos) where
  counts _ _ cleared := ⟨cleared.positions, cleared.closed, cleared.chains, cleared.queued⟩
  logs _ _ cleared := ⟨cleared.positions, cleared.closed, cleared.chains, cleared.queued⟩
  queues _ _ aside cleared := ⟨cleared.positions, cleared.closed, cleared.chains, queued_append cleared.queued aside⟩
  sends _ _ committed cleared := ⟨cleared.positions, cleared.closed, fun table =>
    commit_keeps (fun kernel => kernel.chains table "forward" = none)
      (fun msg member _ _ missing applied => apply_chains_none (cleared.queued msg member) missing applied)
      (cleared.chains table) committed, by simp⟩
  drops _ cleared := ⟨cleared.positions, cleared.closed, cleared.chains, by simp⟩
  refs _ _ cleared := ⟨cleared.positions, cleared.closed, cleared.chains, cleared.queued⟩
  files _ _ _ _ cleared := ⟨cleared.positions, cleared.closed, cleared.chains, cleared.queued⟩
  erases _ _ cleared := ⟨cleared.positions, cleared.closed, cleared.chains, cleared.queued⟩

private theorem cleared_saveFilterRules {key} {rules} {insert} :
    Keeps (Cleared ctPos) (saveFilterRules nft key rules insert) :=
  (cleared_steady nft).saveFilterRules (fun _ _ => by cases insert <;> rfl) fun _ _ _ _ _ _ => trivial

theorem cleared_invariant : Invariant nft ctPos (Cleared ctPos) :=
  (cleared_steady nft).invariant (fun _ cleared => cleared.positions) (fun _ minor => minor.aside)
    (fun _ _ _ cleared => ⟨cleared.positions, cleared.closed, cleared.chains, cleared.queued⟩) (fun _ _ _ _ _ _ => rfl)
    fun _ _ _ => cleared_saveFilterRules

theorem clear_closed (closed : world.router.tables = false) : (clear deps).run world = .ok () world := by
  unfold clear
  simp only [run_bind, run_get, closed]
  rfl

theorem clear_cases (deps : Deps) (world : World) (standing : world.router.tables = true) :
    (∃ after calls, world.kernel.commit deps.nft (world.queue ++ [.delTable .ipv4, .delTable .ipv6]) = .ok after ∧
      final ((clear deps).run world) =
        { world with router := { world.router with tables := false }, kernel := after, queue := [], calls }) ∨
    ∃ calls failed, final ((clear deps).run world) =
      { world with router := { world.router with tables := false }, queue := [], calls, failed } := by
  obtain ⟨router, kernel, queue, faults, calls, failed⟩ := world
  have tables : router.tables = true := standing
  unfold clear
  simp only [run_bind, run_get, tables, if_true, enqueue_run, attempt_run, append_assoc,
    cons_append, nil_append]
  rcases flush_cases .clearFlush with ⟨after, calls', committed, -, ran⟩ | ⟨-, calls', ran⟩
  · rw [ran]
    exact .inl ⟨after, calls', committed, rfl⟩
  · rw [ran]
    exact .inr ⟨calls', _, rfl⟩

theorem Ranked.clear (ranked : Ranked sum64 ctPos world) :
    Ranked sum64 ctPos (final ((clear deps).run world)) ∨ Cleared ctPos (final ((clear deps).run world)) := by
  cases tables : world.router.tables with
  | false =>
    rw [clear_closed tables]
    exact .inl ranked
  | true =>
    rcases clear_cases deps world tables with ⟨after, calls, committed, ran⟩ | ⟨calls, failed, ran⟩
    · rw [ran]
      obtain ⟨middle, -, dropped⟩ := commit_append committed
      cases dropped
      refine .inr ⟨ranked.positions, rfl, ?_, by simp⟩
      intro table
      cases table <;> rfl
    · rw [ran]
      exact .inl ⟨ranked.positions, ranked.ordered, by simp, ranked.filed⟩

/-- The rules a group saves keep the order: they are inserted before the ct-state rule or go to another chain. -/
theorem SecurityGroup.places_proper (sg : SecurityGroup) (iifName : String) (got : Family → Bool) :
    ∀ rule ∈ sg.compile iifName (sg.pgVmapName sum64 iifName) ctPos got,
      (place (sg.target iifName ctPos).insert rule).Proper sum64 ctPos := by
  intro rule member
  have standard := (compile_built rule member).toStandard
  obtain ⟨table, -, tail, -, built⟩ := mem_compile.mp member
  rcases sg.target_cases iifName ctPos with ⟨chain, insert, position, -⟩ | ⟨elsewhere, insert⟩
  · have forward : rule.chain = "forward" := by rw [← built]; exact chain
    rw [insert]
    refine ⟨standard, forward, ?_, sg, iifName, ctPos, got, rule, member, forward, rfl⟩
    rw [← built]
    exact congrFun position table
  · have other : rule.chain ≠ "forward" := by rw [← built]; exact elsewhere
    rw [insert]
    exact ⟨standard, fun forward => absurd forward other⟩

theorem ranked_exec {op : Op} (world : World) (holds : Ranked deps.sum64 ctPos world ∨ Cleared ctPos world) :
    Ranked deps.sum64 ctPos (final ((op.exec deps).run world)) ∨ Cleared ctPos (final ((op.exec deps).run world)) := by
  by_cases stands : op = .clear
  · subst stands
    rcases holds with ranked | cleared
    · exact ranked.clear
    · exact .inr ((congrArg (Cleared ctPos ∘ final) (clear_closed cleared.closed)).mpr cleared)
  · rcases holds with ranked | cleared
    · refine .inl ((ranked_invariant.exec stands ?_).final ranked)
      intro sgs iifName _ sg _ got _
      exact ranked_saveFilterRules compile_built (sg.places_proper iifName got)
    · exact .inr ((cleared_invariant.exec stands fun _ _ _ _ _ _ _ => cleared_saveFilterRules).final cleared)

theorem fresh_chain {denyAll kernel} (committed : Kernel.empty.commit nft (freshMsgs denyAll) = .ok kernel)
    (table : Family) : ∃ ct, kernel.chainRules table "forward" = [ct] ∧ ct.exprs = ctstateExpr := by
  have contents : (kernel.chainRules table "forward").map Rule.content = [(table, "forward", ctstateExpr)] := by
    have filtered := congrArg (List.filter fun content => content.1 == table && content.2.1 == "forward") (fresh_contents committed)
    rw [filter_map] at filtered
    refine filtered.trans ?_
    cases table <;> decide
  obtain ⟨ct, chain, content⟩ := map_eq_singleton_iff.mp contents
  simp only [Rule.content, Prod.mk.injEq] at content
  exact ⟨ct, chain, content.2.2⟩

theorem Fresh.ranked {denyAll} (fresh : Fresh deps denyAll world) :
    Ranked deps.sum64 world.router.forwardChainCtPos world := by
  obtain ⟨kernel, committed, ⟨router, rfl, queue, -⟩⟩ := fresh.at
  rw [router]
  refine ⟨by rw [router], ⟨(fresh_sound committed).toNumbered, ?_, ?_⟩, by simp [queue], ?_⟩
  · have same : empty.commit deps.nft (freshMsgs denyAll) = .ok _ := rfl
    rw [same] at committed
    have stamps : world.kernel.rules.map stamp = List.range world.kernel.clock := by
      rw [← Except.ok.inj committed]
      rfl
    intro rule member
    exact mem_range.mp (stamps ▸ mem_map_of_mem member)
  · intro table
    obtain ⟨ct, chain, ctState⟩ := fresh_chain committed table
    refine ⟨[], ct, [], ⟨chain, ctState, by simp, by simp, .nil, .nil⟩, ?_⟩
    simp [freshRouter, ctHandle, chain]
  · intro key rule member
    rw [router] at member
    simp [freshRouter, Router.unset, held] at member

theorem Reaches.ranked {denyAll start} (fresh : Fresh deps denyAll start)
    (reached : Reaches deps (fun _ _ => True) start world) :
    Ranked deps.sum64 start.router.forwardChainCtPos world ∨ Cleared start.router.forwardChainCtPos world := by
  induction reached with
  | refl => exact .inl fresh.ranked
  | tail _ taken ih =>
    obtain ⟨-, -, rfl⟩ := taken
    refine ranked_exec _ ?_
    rcases ih with ranked | cleared
    · exact .inl ⟨ranked.positions, ranked.ordered, ranked.queued, ranked.filed⟩
    · exact .inr ⟨cleared.positions, cleared.closed, cleared.chains, cleared.queued⟩

/-- In every state of every run the forward chain of each table is made of the rules of
the security groups as they were inserted, the ct-state rule, and the forwarding rules
as they were added; a group's rule never stands behind a forwarding rule. After `Clear`
there is no chain, unless the flush in it failed. -/
theorem forward_chain_in_order {denyAll : Bool} {start : World} (fresh : Fresh deps denyAll start)
    (reached : Reaches deps (fun _ _ => True) start world) (table : Family)
    (stands : world.router.tables = true ∨ (world.kernel.chains table "forward").isSome = true) :
    ∃ groups ct accepts, ForwardParts deps.sum64 world.kernel table groups ct accepts ∧
      (∀ rule ∈ groups, rule.exprs ≠ ctstateExpr ∧ ¬rule.FromForwarding) ∧
      ∀ rule ∈ accepts, rule.exprs ≠ ctstateExpr ∧ ¬rule.FromGroup deps.sum64 := by
  rcases reached.ranked fresh with ranked | cleared
  · obtain ⟨groups, ct, accepts, parts, -⟩ := ranked.ordered.parts table
    refine ⟨groups, ct, accepts, parts, ?_, ?_⟩
    · intro rule member
      have group := parts.grouped rule member
      exact ⟨fun ctState => (not_fromGroup_ctState deps.sum64 ctState).1 group, group.not_forwarding⟩
    · intro rule member
      have forwarding := parts.forwarded rule member
      exact ⟨fun ctState => (not_fromGroup_ctState deps.sum64 ctState).2 forwarding,
        fun group => group.not_forwarding forwarding⟩
  · rw [cleared.closed, cleared.chains table] at stands
    simp at stands

/-- Traffic to a network is forwarded, then a group denies the network: the group's rule comes first. -/
theorem forward_chain_in_order_denied :
    let deps : Deps := ⟨.counting, fun _ => [153, 68, 8, 233, 11, 163, 148, 13]⟩
    let start := World.fresh deps true
    let first := start.next deps { op := .forwardTraffic "wg0" "eth0" prefixWorld4 (.of (.v4 0x0b000000) 8) false }
    let second := first.next deps
      { op := .setSecurityGroups [{ deny := true, dstNetwork := .of (.v4 0x0b000000) 8 }] "" }
    Fresh deps true start ∧ second.failed = [] ∧ (second.kernel.chainRules .ipv4 "forward").length = 3 ∧
      ∃ groups ct accepts, ForwardParts deps.sum64 second.kernel .ipv4 groups ct accepts ∧
        (∀ rule ∈ groups, rule.exprs ≠ ctstateExpr ∧ ¬rule.FromForwarding) ∧
        ∀ rule ∈ accepts, rule.exprs ≠ ctstateExpr ∧ ¬rule.FromGroup deps.sum64 := by
  intro deps start first second
  have fresh : Fresh deps true start := World.fresh_of_returned (by decide +kernel)
  refine ⟨fresh, by decide +kernel, by decide +kernel, ?_⟩
  exact forward_chain_in_order fresh ((Reaches.step .refl trivial).step trivial) .ipv4 (.inl (by decide +kernel))

end Run

end MycsCommon.Network
