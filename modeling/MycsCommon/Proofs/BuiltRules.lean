import MycsCommon.Proofs.OperationRules
import MycsCommon.Proofs.RuleBooks

/-! The rules the operations save: what they end with, and when two of them say the
same. -/

namespace MycsCommon.Network
open List Network.Expr PortGroup Rule

theorem Expr.not_basic {expr : Expr} (continues : expr.terminal = false) : expr.basic = false := by
  unfold basic
  split
  · simp [terminal] at continues
  · rfl

/-- The expressions of a rule an operation may save. -/
structure Ended (exprs : List Expr) : Prop where
  terminated : Terminated exprs
  added : ∀ expr ∈ exprs, expr.basic = false

theorem Ended.append {first rest} (ended : Ended rest) (continues : ∀ expr ∈ first, expr.terminal = false) :
    Ended (first ++ rest) := by
  refine ⟨.append continues ended.terminated, ?_⟩
  intro expr member
  rcases mem_append.mp member with early | late
  · exact not_basic (continues expr early)
  · exact ended.added expr late

theorem Ended.single {expr} (ends : expr.terminal = true) (added : expr.basic = false) : Ended [expr] :=
  ⟨ends, by simpa using added⟩

theorem Ended.built {table chain position} {exprs} (ended : Ended exprs) :
    ({ table, chain, position, exprs } : Rule).Built :=
  ⟨⟨rfl, rfl, ended.terminated⟩, ended.added⟩

theorem ifnameExprs_continue (key : MetaKey) (name : String) : ∀ expr ∈ ifnameExprs key name, expr.terminal = false := by
  simp [ifnameExprs, terminal]

theorem networkExprs_continue (offset addrLen : Nat) (network : Prefix) :
    ∀ expr ∈ networkExprs offset addrLen network, expr.terminal = false := by
  simp [networkExprs, terminal]

theorem destExprs_continue (family : Family) (addr : Addr) : ∀ expr ∈ destExprs family addr, expr.terminal = false := by
  simp [destExprs, terminal]

theorem srcDstExprs_continue (family : Family) (srcNetwork dstNetwork : Prefix) :
    ∀ expr ∈ srcDstExprs family srcNetwork dstNetwork, expr.terminal = false := by
  intro expr member
  rcases mem_append.mp member with source | destination
  · exact networkExprs_continue _ _ _ expr source
  · split at destination
    · exact networkExprs_continue _ _ _ expr destination
    · simp at destination

theorem dnatExprs_ended (family : Family) (number : UInt8) (dstPort forwardPort : Int) (dstIP forwardIP : Addr) :
    Ended (dnatExprs family number dstPort forwardPort dstIP forwardIP) := by
  apply Ended.append
  · exact ⟨by simp [Terminated, terminal], by simp [basic]⟩
  · split
    · exact destExprs_continue family dstIP
    · simp

/-! The rules saved as they are. -/

theorem Offered.built {rules} (offered : Offered rules) : ∀ rule ∈ rules, rule.Built := by
  cases offered with
  | port family number dstPort forwardPort dstIP forwardIP =>
    simp only [forwardPortRules, mem_cons, not_mem_nil, or_false]
    rintro rule (rfl | rfl | rfl)
    · exact (dnatExprs_ended ..).built
    · exact ((Ended.single rfl rfl).append (destExprs_continue family forwardIP)).built
    · exact ((Ended.single rfl rfl).append (destExprs_continue family forwardIP)).built
  | traffic family srcItfName dstItfName srcNetwork dstNetwork withNat =>
    have ended : ∀ {expr : Expr}, expr.terminal = true → expr.basic = false →
        Ended (srcDstExprs family srcNetwork dstNetwork ++ [expr]) := fun ends added =>
      (Ended.single ends added).append (srcDstExprs_continue family srcNetwork dstNetwork)
    simp only [forwardTrafficRules, mem_cons]
    rintro rule (rfl | nat)
    · apply Ended.built
      apply Ended.append (ended rfl rfl)
      intro expr member
      rcases mem_append.mp member with source | destination
      · exact ifnameExprs_continue _ _ expr source
      · exact ifnameExprs_continue _ _ expr destination
    · cases withNat with
      | false => simp at nat
      | true =>
        rw [mem_singleton.mp nat]
        exact ((ended rfl rfl).append (ifnameExprs_continue _ _)).built
  | denied | allowed =>
    have standard : ∀ rule ∈ families.flatMap denyListRules ++ families.flatMap allowListRules,
        rule.Standard ∧ ∀ expr ∈ rule.exprs, expr.basic = false := by decide
    exact fun rule member => ⟨(standard rule (by simp [member])).1, (standard rule (by simp [member])).2⟩

theorem Offered.distinct {rules} (offered : Offered rules) : (rules.map content).Nodup := by
  cases offered with
  | port => simp [forwardPortRules, content]
  | traffic family srcItfName dstItfName srcNetwork dstNetwork withNat =>
    cases withNat <;> simp [forwardTrafficRules, content]
  | denied | allowed => decide

/-! The rules of a security group. -/

/-- The kind of a port group: each kind has one rule. -/
def PortGroup.icmp (group : PortGroup) : Bool := group.proto = .ICMP

namespace SecurityGroup

variable (sg : SecurityGroup)

theorem mem_kinds {groups} {icmpAdded opened kind} : kind ∈ kinds groups icmpAdded opened ↔
      (if kind then icmpAdded else opened) = false ∧ ∃ group ∈ groups, decide (group.proto = .ICMP) = kind := by
  induction groups generalizing icmpAdded opened with
  | nil => simp [kinds]
  | cons group groups ih =>
    by_cases icmp : group.proto = .ICMP
    · simp only [kinds, icmp, if_true, mem_append, ih, exists_mem_cons_iff]
      cases icmpAdded <;> cases kind <;> simp
    · simp only [kinds, icmp, if_false, mem_append, ih, exists_mem_cons_iff]
      cases opened <;> cases kind <;> simp

theorem kinds_done (groups : List PortGroup) : kinds groups true true = [] := by
  induction groups with
  | nil => rfl
  | cons group groups ih => simp [kinds, ih]

theorem kinds_icmp_first (groups : List PortGroup) :
    kinds groups true false = if groups.any (·.proto ≠ .ICMP) then [false] else [] := by
  induction groups with
  | nil => rfl
  | cons group groups ih =>
    by_cases icmp : group.proto = .ICMP
    · simp [kinds, icmp, ih]
    · simp [kinds, icmp, kinds_done]

theorem kinds_vmap_first (groups : List PortGroup) :
    kinds groups false true = if groups.any (·.proto = .ICMP) then [true] else [] := by
  induction groups with
  | nil => rfl
  | cons group groups ih =>
    by_cases icmp : group.proto = .ICMP
    · simp [kinds, icmp, kinds_done]
    · simp [kinds, icmp, ih]

theorem kinds_nodup (groups : List PortGroup) (icmpAdded opened : Bool) : (kinds groups icmpAdded opened).Nodup := by
  induction groups generalizing icmpAdded opened with
  | nil => simp [kinds]
  | cons group groups ih =>
    simp only [kinds]
    split
    · refine nodup_append.mpr ⟨by split <;> simp, ih true opened, ?_⟩
      rintro kind first other later rfl
      cases icmpAdded <;> simp at first
      simp [first, mem_kinds] at later
    · refine nodup_append.mpr ⟨by split <;> simp, ih icmpAdded true, ?_⟩
      rintro kind first other later rfl
      cases opened <;> simp at first
      simp [first, mem_kinds] at later

theorem tail_injective (table : Family) (vmapName : String) : Function.Injective (sg.tail table vmapName) := by
  intro first second same
  cases first <;> cases second <;> simp [tail, icmpExprs, portExprs] at same ⊢

theorem tails_nodup (table : Family) (vmapName : String) (got : Bool) : (sg.tails table vmapName got).Nodup := by
  unfold tails
  split
  · simp
  · exact ((kinds_nodup _ _ _).filter _).map (sg.tail_injective table vmapName)

theorem tail_ended (table : Family) (vmapName : String) (icmp : Bool) : Ended (sg.tail table vmapName icmp) := by
  cases icmp with
  | true => exact ⟨by simp [tail, icmpExprs, Terminated, terminal], by simp [tail, icmpExprs, basic]⟩
  | false => exact ⟨by simp [tail, portExprs, Terminated, terminal], by simp [tail, portExprs, basic]⟩

theorem tails_ended {table vmapName got} {tail} (member : tail ∈ sg.tails table vmapName got) : Ended tail := by
  unfold tails at member
  split at member
  · rw [mem_singleton.mp member]
    exact .single rfl rfl
  · obtain ⟨icmp, -, rfl⟩ := mem_map.mp member
    exact sg.tail_ended table vmapName icmp

theorem matchList_continue (table : Family) : ∀ expr ∈ sg.matchList table, expr.terminal = false := by
  intro expr member
  simp only [matchList, mem_append] at member
  rcases member with (source | out) | destination
  · split at source
    · exact networkExprs_continue _ _ _ expr source
    · simp at source
  · split at out
    · exact ifnameExprs_continue _ _ expr out
    · simp at out
  · split at destination
    · exact networkExprs_continue _ _ _ expr destination
    · simp at destination

theorem target_continue (iifName : String) (ctPos : Family → Nat) :
    ∀ expr ∈ (sg.target iifName ctPos).pre, expr.terminal = false := by
  unfold target
  split
  · split
    · exact ifnameExprs_continue _ _
    · simp
  · split <;> simp

theorem matches_setName (iifName : String) (ctPos : Family → Nat) (table : Family) :
    ∀ expr ∈ (sg.target iifName ctPos).pre ++ sg.matchList table, expr.setName? = none := by
  intro expr member
  rcases mem_append.mp member with early | late
  · unfold target at early
    split at early
    · split at early <;> simp [ifnameExprs] at early
      rcases early with rfl | rfl <;> rfl
    · split at early <;> simp at early
  · simp only [matchList, mem_append] at late
    rcases late with (source | outgoing) | dest
    · split at source <;> simp [networkExprs] at source
      rcases source with rfl | rfl | rfl <;> rfl
    · split at outgoing <;> simp [ifnameExprs] at outgoing
      rcases outgoing with rfl | rfl <;> rfl
    · split at dest <;> simp [networkExprs] at dest
      rcases dest with rfl | rfl | rfl <;> rfl

theorem exists_appliesTo : ∃ table, sg.appliesTo table = true := by
  unfold appliesTo
  split
  next given =>
    have some := (Bool.or_eq_true_iff.mp given).imp (fun valid => (sg.srcNetwork.fits (of_decide_eq_true valid)).1)
        fun valid => (sg.dstNetwork.fits (of_decide_eq_true valid)).1
    by_contra none
    have four := not_exists.mp none .ipv4
    have six := not_exists.mp none .ipv6
    cases first : sg.srcNetwork.addr <;> cases second : sg.dstNetwork.addr <;> simp_all [Addr.is4, Addr.is6]
  · exact ⟨.ipv4, rfl⟩

/-- Two rules of the group are cut from one array, so that the later overwrites the earlier. -/
def aliases (iifName : String) : Bool :=
  !sg.mixesFamilies && sg.shares iifName && sg.ports.any (·.proto = .ICMP) && sg.ports.any (·.proto ≠ .ICMP)

end SecurityGroup

theorem mem_settle {shared} {tails tail} (member : tail ∈ settle shared tails) : tail ∈ tails := by
  cases shared with
  | false => exact member
  | true =>
    obtain ⟨given, listed, rfl⟩ := mem_map.mp member
    rw [getLast?_eq_some_getLast (ne_nil_of_mem listed)]
    exact getLast_mem _

namespace SecurityGroup

variable {sg : SecurityGroup} {iifName : String} {vmapName : Family → String} {ctPos : Family → Nat} {got : Family → Bool}

theorem mem_compile {rule} : rule ∈ sg.compile iifName vmapName ctPos got ↔
    ∃ table, sg.appliesTo table = true ∧
      ∃ tail ∈ settle (sg.shares iifName) (sg.tails table (vmapName table) (got table)),
        { table, chain := (sg.target iifName ctPos).chain, position := (sg.target iifName ctPos).position table
          exprs := (sg.target iifName ctPos).pre ++ sg.matchList table ++ tail } = rule := by
  have both : ∀ table, table ∈ families := by
    intro table
    cases table <;> decide
  simp only [compile, mem_flatMap]
  constructor
  · rintro ⟨table, -, listed⟩
    split at listed
    next applies => exact ⟨table, applies, mem_map.mp listed⟩
    next => simp at listed
  · rintro ⟨table, applies, listed⟩
    refine ⟨table, both table, ?_⟩
    rw [if_pos applies]
    exact mem_map.mpr listed

theorem compile_built : ∀ rule ∈ sg.compile iifName vmapName ctPos got, rule.Built := by
  intro rule member
  obtain ⟨table, -, tail, settled, rfl⟩ := mem_compile.mp member
  apply Ended.built
  apply (sg.tails_ended (mem_settle settled)).append
  intro expr member
  rcases mem_append.mp member with early | late
  · exact sg.target_continue iifName ctPos expr early
  · exact sg.matchList_continue table expr late

theorem compile_setName {rule name} (compiled : rule ∈ sg.compile iifName vmapName ctPos got) {expr}
    (member : expr ∈ rule.exprs) (names : expr.setName? = some name) :
    sg.appliesTo rule.table = true ∧ sg.ports.any (·.proto ≠ .ICMP) = true ∧ name = vmapName rule.table := by
  obtain ⟨table, applies, tail, settled, rfl⟩ := mem_compile.mp compiled
  rcases mem_append.mp member with early | late
  · simp [sg.matches_setName iifName ctPos table expr early] at names
  · have listed := mem_settle settled
    unfold tails at listed
    split at listed
    · rw [mem_singleton.mp listed] at late
      rw [mem_singleton.mp late] at names
      cases names
    · obtain ⟨icmp, kind, rfl⟩ := mem_map.mp listed
      obtain ⟨-, group, given, same⟩ := mem_kinds.mp (mem_filter.mp kind).1
      cases icmp with
      | true =>
        simp [tail, icmpExprs] at late
        rcases late with rfl | rfl | rfl <;> cases names
      | false =>
        refine ⟨applies, any_eq_true.mpr ⟨group, given, by simpa using same⟩, ?_⟩
        simp [tail, portExprs] at late
        rcases late with rfl | rfl | rfl <;> simp_all [setName?]

theorem length_of_one_kind {drafted : List Bool} (nodup : drafted.Nodup) {only}
    (uniform : ∀ kind ∈ drafted, kind = only) : drafted.length ≤ 1 := by
  rw [eq_replicate_of_mem uniform] at nodup
  exact nodup_replicate.mp nodup

theorem kinds_length {groups : List PortGroup} {only} (one : ∀ group ∈ groups, decide (group.proto = .ICMP) = only) :
    (kinds groups false false).length ≤ 1 := by
  refine length_of_one_kind (kinds_nodup groups false false) (show ∀ kind ∈ _, kind = only from ?_)
  intro kind member
  obtain ⟨-, group, listed, same⟩ := mem_kinds.mp member
  exact same.symm.trans (one group listed)

theorem mem_settle_kinds (shared : Bool) (ports : List PortGroup) {tail} (injective : Function.Injective tail)
    (kind : Bool) : tail kind ∈ settle shared ((kinds ports false false).map tail) ↔
      ports.any (·.icmp == kind) = true ∧
        ¬ (shared = true ∧ ports.any (·.icmp != kind) = true ∧ ports.head?.any (·.icmp == kind) = true) := by
  have different : tail false ≠ tail true := fun same => Bool.false_ne_true (injective same)
  cases shared with
  | false =>
    rw [show settle false ((kinds ports false false).map tail) = (kinds ports false false).map tail from rfl,
      mem_map_of_injective injective, mem_kinds]
    simp [icmp]
  | true =>
    cases ports with
    | nil => simp [kinds, settle]
    | cons group groups =>
      by_cases icmp : group.proto = .ICMP
      · simp only [kinds, icmp, if_true, kinds_icmp_first]
        by_cases others : ∃ group ∈ groups, ¬ group.proto = .ICMP
        · cases kind <;> simp [others, icmp, settle, PortGroup.icmp, different.symm]
        · cases kind <;> simp [others, icmp, settle, PortGroup.icmp, different]
      · simp only [kinds, icmp, if_false, kinds_vmap_first]
        by_cases others : ∃ group ∈ groups, group.proto = .ICMP
        · cases kind <;> simp [others, icmp, settle, PortGroup.icmp, different]
        · cases kind <;> simp [others, icmp, settle, PortGroup.icmp, different.symm]

theorem settle_alone {shared} {tails} (alone : tails.length ≤ 1) : settle shared tails = tails := by
  cases shared with
  | false => rfl
  | true =>
    match tails, alone with
    | [], _ => rfl
    | [tail], _ => rfl

theorem settle_tails (same : sg.mixesFamilies = false) (apart : sg.aliases iifName = false) (table : Family)
    (vmapName : String) (got : Bool) :
    settle (sg.shares iifName) (sg.tails table vmapName got) = sg.tails table vmapName got := by
  cases shared : sg.shares iifName with
  | false => rfl
  | true =>
    apply settle_alone
    unfold tails
    split
    · simp
    · rw [length_map]
      apply Nat.le_trans (length_filter_le _ _)
      simp only [aliases, same, shared, Bool.not_false, Bool.true_and, Bool.and_eq_false_iff, any_eq_false,
        decide_eq_true_eq] at apart
      rcases apart with none | all
      · exact kinds_length fun group member => decide_eq_false (none group member)
      · exact kinds_length fun group member => decide_eq_true (Decidable.not_not.mp (all group member))

theorem settle_lost (shared : Bool) (table : Family) (vmapName : String) :
    settle shared (sg.tails table vmapName false) = sg.tails table vmapName false := by
  apply settle_alone
  unfold tails
  split
  · simp
  · rw [length_map]
    refine length_of_one_kind ((kinds_nodup _ _ _).filter _) (show ∀ kind ∈ _, kind = true from ?_)
    intro kind member
    simpa using (mem_filter.mp member).2

/-- The rules as they are meant: the matches of the table, and then what is the rule's own. -/
def ownRules (sg : SecurityGroup) (target : Target) (vmapName : Family → String) (got : Family → Bool) : List Rule :=
  families.flatMap fun table =>
    if sg.appliesTo table then
      (sg.tails table (vmapName table) (got table)).map fun tail =>
        { table, chain := target.chain, position := target.position table
          exprs := target.pre ++ sg.matchList table ++ tail }
    else []

theorem compile_own (same : sg.mixesFamilies = false) (apart : sg.aliases iifName = false) :
    sg.compile iifName vmapName ctPos got = sg.ownRules (sg.target iifName ctPos) vmapName got := by
  simp [compile, ownRules, settle_tails same apart]

theorem ownRules_distinct (target : Target) : ((sg.ownRules target vmapName got).map content).Nodup := by
  unfold ownRules
  rw [map_flatMap, nodup_flatMap]
  constructor
  · intro table _
    split
    · rw [map_map]
      refine (sg.tails_nodup table _ _).map ?_
      intro first second equal
      simpa [content] using equal
    · simp
  · have tables : ∀ first second, first ≠ second → Function.onFun List.Disjoint (fun table =>
        (if sg.appliesTo table then (sg.tails table (vmapName table) (got table)).map
          fun tail => ({ table, chain := target.chain, position := target.position table
                         exprs := target.pre ++ sg.matchList table ++ tail } : Rule)
        else []).map content) first second := by
      intro first second different content left right
      obtain ⟨rule, early, rfl⟩ := mem_map.mp left
      obtain ⟨other, late, equal⟩ := mem_map.mp right
      split at early
      · split at late
        · obtain ⟨tail, _, rfl⟩ := mem_map.mp early
          obtain ⟨otherTail, _, rfl⟩ := mem_map.mp late
          exact different (Prod.mk.inj equal).1.symm
        · simp at late
      · simp at early
    exact List.Pairwise.imp (fun different => tables _ _ different) (show families.Nodup by decide)

theorem compile_distinct (same : sg.mixesFamilies = false) (apart : sg.aliases iifName = false) :
    ((sg.compile iifName vmapName ctPos got).map content).Nodup :=
  compile_own same apart ▸ ownRules_distinct _

end SecurityGroup

/-! Looking a rule up among the router's own. -/

/-- A rule with the contents of one that an operation builds: a forwarded port or network, one of the lists' jumps, or
a rule that a security group's draft comes to. It may stand in any table and have any handle. -/
inductive Rule.FromRouter (rule : Rule) : Prop where
  | offered {rules built} (offered : Offered rules) (member : built ∈ rules) (same : rule.Same built)
  | group {sg : SecurityGroup} {iifName vmapName ctPos got built} (member : built ∈ sg.compile iifName vmapName ctPos got)
      (same : rule.Same built)

theorem Rule.FromRouter.standard {rule : Rule} (built : rule.FromRouter) : rule.Standard := by
  have carried : ∀ {other : Rule}, other.Built → rule.Same other → rule.Standard := by
    rintro other built ⟨flags, userData, exprs⟩
    exact ⟨flags.trans built.flags, userData.trans built.userData, exprs ▸ built.terminated⟩
  cases built with
  | offered offered member same => exact carried (offered.built _ member) same
  | group member same => exact carried (SecurityGroup.compile_built _ member) same

/-- The lookup is exact on the router's rules. A candidate's table may differ from the searched rule's if expressions
are marshalled alike for both. -/
theorem ownRule_lookup {nft : Nft} {rule : Rule} {rules : List Rule} (built : rule.FromRouter)
    (listed : ∀ candidate ∈ rules, candidate.FromRouter)
    (uniform : ∀ candidate ∈ rules, ∀ expr, nft.marshal candidate.table expr = nft.marshal rule.table expr) :
    Terminated rule.exprs ∧ ∃ found, findRuleInList nft rule rules = .ok found ∧
      (found = none ↔ ∀ candidate ∈ rules, ¬ candidate.Same rule) ∧ ∀ candidate ∈ found, candidate ∈ rules ∧ candidate.Same rule := by
  refine ⟨built.standard.terminated, _, findRuleInList_exact fun candidate member =>
    ⟨(listed candidate member).standard.distinct built.standard, uniform candidate member⟩, by simp, ?_⟩
  intro candidate found
  exact ⟨mem_of_find?_eq_some found, by simpa using find?_some found⟩

def maskedTraffic : List Rule := forwardTrafficRules .ipv4 "wg0" "eth0" (.of (.v4 0x0a000000) 8) prefixWorld4 true

theorem ownRule_lookup_traffic : ∃ found, findRuleInList .counting maskedTraffic[1] maskedTraffic = .ok (some found) := by
  have own : ∀ rule ∈ maskedTraffic, rule.FromRouter := fun rule member => .offered (.traffic _ _ _ _ _ _) member ⟨rfl, rfl, rfl⟩
  have second : maskedTraffic[1] ∈ maskedTraffic := getElem_mem _
  obtain ⟨-, found, looked, missing, -⟩ := @ownRule_lookup .counting _ _ (own _ second) own fun _ _ _ => rfl
  cases found with
  | none => exact absurd ⟨rfl, rfl, rfl⟩ (missing.mp rfl _ second)
  | some found => exact ⟨found, looked⟩

end MycsCommon.Network
