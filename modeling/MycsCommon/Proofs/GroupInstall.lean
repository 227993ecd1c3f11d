import MycsCommon.Proofs.GroupMessages
import MycsCommon.Proofs.SaveRules
import MycsCommon.Proofs.SetContents
import MycsCommon.Proofs.FreshRouter
import MycsCommon.Proofs.BuiltRules
import MycsCommon.Proofs.PacketVerdicts

/-! What is in the kernel after security groups were set one after another on a fresh
router, when no call fails. Setting a group only adds to what is there, so that the
state is described by the groups that were set. -/

namespace MycsCommon.Network
open Library Program List Except False Kernel Router Rule SecurityGroup

def Kernel.element (kernel : Kernel) (table : Family) (name : String) (key : Bytes) (data : Option Verdict) : Prop :=
  ∃ elements, kernel.sets table name = some elements ∧ elements.lookup key = some data

/-- Chains, sets and elements that come to those there are. -/
structure Growth where
  chain : Family → String → Prop := fun _ _ => False
  set : Family → String → Prop := fun _ _ => False
  element : Family → String → Bytes → Option Verdict → Prop := fun _ _ _ _ => False

def Growth.or (first second : Growth) : Growth where
  chain table name := first.chain table name ∨ second.chain table name
  set table name := first.set table name ∨ second.set table name
  element table name key data := first.element table name key data ∨ second.element table name key data

structure Grown (before : Kernel) (growth : Growth) (after : Kernel) : Prop where
  rules : after.rules = before.rules
  chains : ∀ table name policy, before.chains table name = some policy → after.chains table name = some policy
  opened : ∀ table name, growth.chain table name → (after.chains table name).isSome = true
  sets : ∀ table name, (before.sets table name).isSome = true → (after.sets table name).isSome = true
  made : ∀ table name, growth.set table name → (after.sets table name).isSome = true
  elements : ∀ table name key data, after.element table name key data ↔
    before.element table name key data ∨ growth.element table name key data

variable {deps : Deps} {nft : Nft} {kernel middle after : Kernel} {table : Family} {name : String}

section
variable {growth more : Growth}

namespace Grown

theorem trans (first : Grown kernel growth middle) (second : Grown middle more after) : Grown kernel (growth.or more) after where
  rules := second.rules.trans first.rules
  chains table name policy known := second.chains table name policy (first.chains table name policy known)
  opened := by
    rintro table name (early | late)
    · obtain ⟨policy, known⟩ := Option.isSome_iff_exists.mp (first.opened table name early)
      simp [second.chains table name policy known]
    · exact second.opened table name late
  sets table name known := second.sets table name (first.sets table name known)
  made := by
    rintro table name (early | late)
    · exact second.sets table name (first.made table name early)
    · exact second.made table name late
  elements table name key data := by
    rw [second.elements, first.elements, or_assoc]
    rfl

theorem of_known (opened : ∀ table name, growth.chain table name → (kernel.chains table name).isSome = true)
    (made : ∀ table name, growth.set table name → (kernel.sets table name).isSome = true)
    (elements : ∀ table name key data, growth.element table name key data → kernel.element table name key data) :
    Grown kernel growth kernel where
  rules := rfl
  chains _ _ _ known := known
  opened := opened
  sets _ _ known := known
  made := made
  elements table name key data := ⟨.inl, fun either => either.elim id (elements table name key data)⟩

theorem congr (grown : Grown kernel growth after) (chains : ∀ table name, more.chain table name → growth.chain table name)
    (sets : ∀ table name, more.set table name → growth.set table name)
    (elements : ∀ table name key data, growth.element table name key data ↔ more.element table name key data) :
    Grown kernel more after where
  rules := grown.rules
  chains := grown.chains
  opened table name opens := grown.opened table name (chains table name opens)
  sets := grown.sets
  made table name makes := grown.made table name (sets table name makes)
  elements table name key data := by rw [grown.elements, elements]

end Grown

def Adds (nft : Nft) (kernel : Kernel) (queue : List Msg) (growth : Growth) : Prop :=
  ∃ after, kernel.commit nft queue = .ok after ∧ Grown kernel growth after

theorem Adds.append {first rest} (adds : Adds nft kernel first growth)
    (later : ∀ middle, Grown kernel growth middle → Adds nft middle rest more) :
    Adds nft kernel (first ++ rest) (growth.or more) := by
  obtain ⟨middle, setup, grown⟩ := adds
  obtain ⟨after, committed, adds⟩ := later middle grown
  exact ⟨after, commit_append_ok setup committed, grown.trans adds⟩

theorem Adds.congr {queue} (adds : Adds nft kernel queue growth)
    (chains : ∀ table name, more.chain table name → growth.chain table name)
    (sets : ∀ table name, more.set table name → growth.set table name)
    (elements : ∀ table name key data, growth.element table name key data ↔ more.element table name key data) :
    Adds nft kernel queue more := by
  obtain ⟨after, committed, grown⟩ := adds
  exact ⟨after, committed, grown.congr chains sets elements⟩

end

theorem adds_chain (table : Family) (name : String) :
    Adds nft kernel [.addChain table name none] { chain := fun other chain => other = table ∧ chain = name } := by
  cases known : kernel.chains table name with
  | some policy =>
    refine ⟨kernel, by simp [Kernel.commit, Kernel.apply, known, bind, Except.bind, pure, Except.pure],
      Grown.of_known ?_ (fun _ _ => elim) fun _ _ _ _ => elim⟩
    rintro _ _ ⟨rfl, rfl⟩
    simp [known]
  | none =>
    refine ⟨_, by simp [commit, apply, known, bind, bind, pure, pure]; rfl, ?_⟩
    refine ⟨rfl, ?_, ?_, fun _ _ known => known, fun _ _ => elim,
      fun _ _ _ _ => ⟨.inl, fun either => either.elim id elim⟩⟩
    · intro other chain policy before
      have apart : ¬ (other = table ∧ chain = name) := by
        rintro ⟨rfl, rfl⟩
        simp [known] at before
      simpa [apart] using before
    · rintro _ _ ⟨rfl, rfl⟩
      simp

theorem adds_set (table : Family) (name : String) :
    Adds nft kernel [.addSet table name []] { set := fun other set => other = table ∧ set = name } := by
  refine ⟨kernel.setSet table name (some ((kernel.sets table name).getD ∅)), rfl, rfl, fun _ _ _ known => known, nofun, ?_, ?_, ?_⟩
  · intro other set known
    by_cases same : other = table ∧ set = name
    · obtain ⟨rfl, rfl⟩ := same
      simp [setSet_same]
    · rwa [setSet_other _ _ same]
  · rintro _ _ ⟨rfl, rfl⟩
    simp [setSet_same]
  · intro other set key data
    simp only [or_false, element]
    by_cases same : other = table ∧ set = name
    · obtain ⟨rfl, rfl⟩ := same
      rw [setSet_same]
      cases kernel.sets other set <;> simp
    · rw [setSet_other _ _ same]

theorem adds_key {key verdict} (known : (kernel.sets table name).isSome = true)
    (agree : ∀ data, kernel.element table name key data → data = some verdict) :
    Adds nft kernel [addKey table name verdict key]
      { element := fun other set entry data => other = table ∧ set = name ∧ entry = key ∧ data = some verdict } := by
  obtain ⟨present, known⟩ := Option.isSome_iff_exists.mp known
  have added : ∃ changed, [(⟨key, some verdict⟩ : SetElement)].foldlM addElement present = .ok changed := by
    simp only [foldlM_cons, foldlM_nil, addElement]
    cases found : present.lookup key with
    | none => exact ⟨_, rfl⟩
    | some data =>
      cases agree data ⟨present, known, found⟩
      exact ⟨present, by simp [bind, Except.bind, pure, Except.pure]⟩
  obtain ⟨changed, added⟩ := added
  refine ⟨kernel.setSet table name (some changed), commit_cons_ok (apply_setAddElements known added) rfl,
    rfl, fun _ _ _ known => known, nofun, ?_, nofun, ?_⟩
  · intro other set there
    by_cases same : other = table ∧ set = name
    · obtain ⟨rfl, rfl⟩ := same
      simp [setSet_same]
    · rwa [setSet_other _ _ same]
  · intro other set entry data
    simp only [element]
    by_cases same : other = table ∧ set = name
    · obtain ⟨rfl, rfl⟩ := same
      simp [setSet_same, known, addElements_lookup added]
    · rw [setSet_other _ _ same]
      have aside : ¬ (other = table ∧ set = name ∧ entry = key ∧ data = some verdict) := fun all => same ⟨all.1, all.2.1⟩
      simp [aside]

theorem adds_keys {keys : List Bytes} {verdict} (known : (kernel.sets table name).isSome = true)
    (agree : ∀ key ∈ keys, ∀ data, kernel.element table name key data → data = some verdict) :
    Adds nft kernel (keys.map (addKey table name verdict))
      { element := fun other set entry data => other = table ∧ set = name ∧ entry ∈ keys ∧ data = some verdict } := by
  induction keys generalizing kernel with
  | nil => exact ⟨kernel, rfl, Grown.of_known nofun nofun (by simp)⟩
  | cons key keys ih =>
    have first := @adds_key nft kernel table name key verdict known (agree key (by simp))
    have whole := first.append fun middle grown =>
      @ih middle (grown.sets table name known) (by
        intro other member data found
        rcases (grown.elements table name other data).mp found with old | ⟨-, -, -, same⟩
        · exact agree other (by simp [member]) data old
        · exact same)
    refine whole.congr nofun nofun fun other set entry data => ?_
    simp only [Growth.or, mem_cons]
    tauto

theorem adds_entry {set chain key verdict} (known : (kernel.sets table set).isSome = true)
    (agree : ∀ data, kernel.element table set key data → data = some verdict) :
    Adds nft kernel [.addChain table chain none, addKey table set verdict key]
      { chain := fun other name => other = table ∧ name = chain
        element := fun other name entry data => other = table ∧ name = set ∧ entry = key ∧ data = some verdict } := by
  have both := (@adds_chain nft kernel table chain).append fun middle grown =>
    @adds_key nft middle table set key verdict (grown.sets table set known) fun data found =>
      agree data (((grown.elements ..).mp found).resolve_right id)
  exact both.congr (fun _ _ => .inl) nofun fun _ _ _ _ => ⟨fun either => either.resolve_left id, .inr⟩

/-! One group. -/

/-- A group that is set for an interface. -/
structure Setting where
  group : SecurityGroup
  iifName : String

namespace Setting

def key (deps : Deps) (setting : Setting) : String := setting.group.sgKey deps.sum64 setting.iifName

def vmapName (deps : Deps) (setting : Setting) : Family → String := setting.group.pgVmapName deps.sum64 setting.iifName

def needsInbound (setting : Setting) : Bool := setting.group.needsInbound setting.iifName

def ports (setting : Setting) : List Bytes := portKeys setting.group.ports

def entry (setting : Setting) : Verdict := .jump (inboundChain setting.iifName)

def inboundGrowth (setting : Setting) : Growth where
  chain _ name := setting.needsInbound = true ∧ name = inboundChain setting.iifName
  element _ name key data := setting.needsInbound = true ∧ name = "inbound_ifname" ∧ key = paddedName setting.iifName ∧
    data = some setting.entry

def vmapGrowth (deps : Deps) (setting : Setting) (table : Family) : Growth where
  set other name := setting.group.needsVmap table = true ∧ other = table ∧ name = setting.vmapName deps table
  element other name key data := setting.group.needsVmap table = true ∧ other = table ∧ name = setting.vmapName deps table ∧
    key ∈ setting.ports ∧ data = some setting.group.verdict

def growth (deps : Deps) (setting : Setting) : Growth where
  chain := setting.inboundGrowth.chain
  set table name := setting.group.needsVmap table = true ∧ name = setting.vmapName deps table
  element table name key data := setting.inboundGrowth.element table name key data ∨
    setting.group.needsVmap table = true ∧ name = setting.vmapName deps table ∧ key ∈ setting.ports ∧
      data = some setting.group.verdict

theorem vmapName_eq (deps : Deps) (setting : Setting) (table : Family) : setting.vmapName deps table =
    hashString deps.sum64 (setting.group.vmapSignature setting.iifName) "sgs" ++ vmapSuffix table :=
  setting.group.pgVmapName_eq deps.sum64 setting.iifName table

theorem vmapName_table {setting other : Setting} {table owner}
    (same : setting.vmapName deps table = other.vmapName deps owner) : table = owner :=
  vmapSuffix_inj ((setting.vmapName_eq deps table).symm.trans (same.trans (other.vmapName_eq deps owner)))

theorem vmapName_head (deps : Deps) (setting : Setting) (table : Family) :
    (setting.vmapName deps table).toList.head? = some 's' := by
  rw [vmapName_eq, hashString]
  simp only [String.toList_append]
  rfl

theorem vmapName_not_base (deps : Deps) (setting : Setting) (table : Family) :
    setting.vmapName deps table ∉ ["ctstate", "ip_denylist", "ip_allowlist", "inbound_ifname"] := by
  intro base
  have head := setting.vmapName_head deps table
  simp only [mem_cons, not_mem_nil, or_false] at base
  rcases base with same | same | same | same <;> rw [same] at head <;> exact absurd head (by decide)

theorem vmapName_ne_ifname (deps : Deps) (setting : Setting) (table : Family) :
    setting.vmapName deps table ≠ "inbound_ifname" :=
  fun same => setting.vmapName_not_base deps table (by simp [same])

end Setting

theorem Router.lacksVmap_withInbound {router : Router} (sg : SecurityGroup) (iifName : String) :
    (router.withInbound sg iifName).lacksVmap name = router.lacksVmap name := by
  unfold withInbound
  split <;> rfl

theorem Router.lacksVmap_opened {router : Router} (sg : SecurityGroup) (table : Family) {other}
    (different : name ≠ other) : (router.opened sg other table).lacksVmap name = router.lacksVmap name := by
  unfold opened withVmap
  split
  · split
    · simp [lacksVmap, AList.lookup_insert_ne different]
    · rfl
  · rfl

/-- The kernel can take what the group adds. -/
structure Fits (deps : Deps) (router : Router) (kernel : Kernel) (setting : Setting) : Prop where
  entered : inboundChain setting.iifName ∈ router.inboundChains → ∀ table,
    (kernel.chains table (inboundChain setting.iifName)).isSome = true ∧
      kernel.element table "inbound_ifname" (paddedName setting.iifName) (some setting.entry)
  ifnames : ∀ table, (kernel.sets table "inbound_ifname").isSome = true
  entries : setting.needsInbound = true → ∀ table data,
    kernel.element table "inbound_ifname" (paddedName setting.iifName) data → data = some setting.entry
  vmaps : ∀ table, router.lacksVmap (setting.vmapName deps table) = false →
    (kernel.sets table (setting.vmapName deps table)).isSome = true
  ports : ∀ table, setting.group.needsVmap table = true → ∀ key ∈ setting.ports, ∀ data,
    kernel.element table (setting.vmapName deps table) key data → data = some setting.group.verdict

theorem adds_vmap {router : Router} {setting : Setting} {table}
    (known : router.lacksVmap (setting.vmapName deps table) = false → (kernel.sets table (setting.vmapName deps table)).isSome = true)
    (agree : setting.group.needsVmap table = true → ∀ key ∈ setting.ports, ∀ data, kernel.element table (setting.vmapName deps table) key data → data = some setting.group.verdict) :
    Adds nft kernel
    (router.portMsgs setting.group (setting.vmapName deps table) table) (setting.vmapGrowth deps table) := by
  unfold portMsgs
  cases needs : setting.group.needsVmap table with
  | false =>
    refine ⟨kernel, rfl, Grown.of_known nofun ?_ ?_⟩
    · intro other name makes
      simp [Setting.vmapGrowth, needs] at makes
    · intro other name key data adds
      simp [Setting.vmapGrowth, needs] at adds
  | true =>
    have opens : Adds nft kernel (router.openMsgs (setting.vmapName deps table) table)
        { set := fun other set => other = table ∧ set = setting.vmapName deps table } := by
      unfold openMsgs
      cases lacks : router.lacksVmap (setting.vmapName deps table) with
      | true => exact adds_set table _
      | false =>
        refine ⟨kernel, rfl, Grown.of_known nofun ?_ nofun⟩
        rintro _ _ ⟨rfl, rfl⟩
        exact known lacks
    have both := opens.append fun middle grown =>
      @adds_keys nft middle table (setting.vmapName deps table) setting.ports setting.group.verdict
        (grown.made table _ ⟨rfl, rfl⟩) fun key member data found =>
          agree needs key member data (((grown.elements ..).mp found).resolve_right id)
    exact both.congr nofun (fun _ _ makes => .inl makes.2) fun other set key data => by
      simp [Growth.or, Setting.vmapGrowth, needs]

namespace Fits

variable {router : Router} {setting : Setting} (fits : Fits deps router kernel setting)
include fits

theorem adds_inbound : Adds nft kernel
    (if router.lacksInbound setting.group setting.iifName then inboundMsgs setting.iifName else []) setting.inboundGrowth := by
  cases lacks : router.lacksInbound setting.group setting.iifName with
  | false =>
    have known : setting.needsInbound = true → inboundChain setting.iifName ∈ router.inboundChains := by
      intro needs
      simpa [lacksInbound, show setting.group.needsInbound setting.iifName = true from needs] using lacks
    refine ⟨kernel, rfl, Grown.of_known ?_ (fun _ _ => elim) ?_⟩
    · rintro table _ ⟨needs, rfl⟩
      exact (fits.entered (known needs) table).1
    · rintro table _ _ _ ⟨needs, rfl, rfl, rfl⟩
      exact (fits.entered (known needs) table).2
  | true =>
    have needs : setting.needsInbound = true := (Bool.and_eq_true_iff.mp lacks).1
    have both := (@adds_entry nft kernel .ipv4 _ (inboundChain setting.iifName) _ _ (fits.ifnames .ipv4)
      (fits.entries needs .ipv4)).append fun middle grown =>
        @adds_entry nft middle .ipv6 _ (inboundChain setting.iifName) _ _ (grown.sets .ipv6 _ (fits.ifnames .ipv6))
          fun data found => fits.entries needs .ipv6 data
            (((grown.elements ..).mp found).resolve_right fun other => by cases other.1)
    refine both.congr ?_ (fun _ _ => elim) ?_
    · rintro table name ⟨-, rfl⟩
      cases table
      · exact .inl ⟨rfl, rfl⟩
      · exact .inr ⟨rfl, rfl⟩
    · intro table name key data
      simp only [Growth.or, Setting.inboundGrowth, needs, true_and]
      cases table <;> simp

theorem adds : Adds nft kernel (router.groupMsgs setting.group setting.iifName (setting.vmapName deps)) (setting.growth deps) := by
  have different : setting.vmapName deps .ipv6 ≠ setting.vmapName deps .ipv4 := fun same => nomatch Setting.vmapName_table same
  have known4 := fits.vmaps .ipv4
  have known6 := fits.vmaps .ipv6
  rw [← lacksVmap_withInbound setting.group setting.iifName] at known4 known6
  rw [← lacksVmap_opened setting.group .ipv4 different] at known6
  have whole := fits.adds_inbound.append fun first entered =>
    (@adds_vmap deps nft first _ setting .ipv4 (fun known => entered.sets _ _ (known4 known))
      fun needs key member data found => fits.ports .ipv4 needs key member data
        (((entered.elements ..).mp found).resolve_right fun entry => setting.vmapName_ne_ifname deps .ipv4 entry.2.1)).append
    fun second opened =>
      @adds_vmap deps nft second _ setting .ipv6 (fun known => opened.sets _ _ (entered.sets _ _ (known6 known)))
        fun needs key member data found => fits.ports .ipv6 needs key member data
          (((entered.elements ..).mp (((opened.elements ..).mp found).resolve_right nofun)).resolve_right
            fun entry => setting.vmapName_ne_ifname deps .ipv6 entry.2.1)
  refine whole.congr (fun _ _ => .inl) ?_ ?_
  · rintro table name ⟨needs, same⟩
    cases table
    · exact .inr (.inl ⟨needs, rfl, same⟩)
    · exact .inr (.inr ⟨needs, rfl, same⟩)
  · intro table name key data
    cases table <;> simp [Growth.or, Setting.vmapGrowth, Setting.growth]

end Fits

/-! The groups that were set so far. -/

namespace Setting

def rules (deps : Deps) (ctPos : Family → Nat) (setting : Setting) : List Rule :=
  setting.group.compile setting.iifName (setting.vmapName deps) ctPos fun _ => true

/-- Setting the group comes to an end: its networks are of one family, its interface
can have the name and every range of ports ends. -/
structure Sane (setting : Setting) : Prop where
  same : setting.group.mixesFamilies = false
  interface : InterfaceName setting.iifName
  loopback : setting.iifName ≠ "lo"
  ends : ∀ group ∈ setting.group.ports, group.Ends

/-- Where two groups look the same port up in the same vmap, they say the same about it. -/
def Agrees (deps : Deps) (setting other : Setting) : Prop :=
  ∀ table, setting.group.needsVmap table = true → other.group.needsVmap table = true →
    setting.vmapName deps table = other.vmapName deps table →
    ∀ key ∈ setting.ports, key ∈ other.ports → other.group.verdict = setting.group.verdict

end Setting

structure Installed (deps : Deps) (start : World) (settings : List Setting) (world : World) : Prop where
  tables : world.router.tables = true
  positions : world.router.forwardChainCtPos = start.router.forwardChainCtPos
  queue : world.queue = []
  numbered : world.kernel.Numbered
  sane : ∀ setting ∈ settings, setting.Sane
  base : ∀ rule ∈ start.kernel.rules, rule ∈ world.kernel.rules
  chains : ∀ table name policy, start.kernel.chains table name = some policy → world.kernel.chains table name = some policy
  opened : ∀ setting ∈ settings, ∀ table name, (setting.growth deps).chain table name →
    (world.kernel.chains table name).isSome = true
  sets : ∀ table name, (start.kernel.sets table name).isSome = true → (world.kernel.sets table name).isSome = true
  made : ∀ setting ∈ settings, ∀ table name, (setting.growth deps).set table name →
    (world.kernel.sets table name).isSome = true
  inbounds : ∀ name ∈ world.router.inboundChains, ∃ setting ∈ settings, setting.needsInbound = true ∧
    name = inboundChain setting.iifName
  vmaps : ∀ name table, world.router.sgPortVmaps.lookup name = some table ↔
    ∃ setting ∈ settings, setting.group.needsVmap table = true ∧ name = setting.vmapName deps table
  elements : ∀ table name key data, world.kernel.element table name key data ↔
    start.kernel.element table name key data ∨ ∃ setting ∈ settings, (setting.growth deps).element table name key data
  contents : ∀ content, content ∈ world.kernel.rules.map Rule.content ↔ content ∈ start.kernel.rules.map Rule.content ∨
    ∃ setting ∈ settings, content ∈ (setting.rules deps start.router.forwardChainCtPos).map Rule.content
  filed : ∀ key content, content ∈ (RefCount.held world.router.ruleMap key).map Rule.content ↔
    ∃ setting ∈ settings, setting.key deps = key ∧
      content ∈ (setting.rules deps start.router.forwardChainCtPos).map Rule.content

variable {start world : World} {settings : List Setting} {setting : Setting} {denyAll : Bool}

theorem Fresh.installed (fresh : Fresh deps denyAll start) : Installed deps start [] start := by
  obtain ⟨-, committed, router, rfl, queue, -⟩ := fresh.at
  have sound := fresh_sound committed
  exact
    { tables := by rw [router]; rfl
      positions := rfl
      queue := queue
      numbered := sound.toNumbered
      sane := nofun
      base := fun _ member => member
      chains := fun _ _ _ known => known
      opened := nofun
      sets := fun _ _ known => known
      made := nofun
      inbounds := by simp [router, freshRouter, unset]
      vmaps := by simp [router, freshRouter, unset]
      elements := by simp
      contents := by simp
      filed := by simp [router, freshRouter, unset, RefCount.held] }

theorem Installed.begin (installed : Installed deps start settings world) (faults : Site → Nat → Bool) :
    Installed deps start settings (world.begin faults) :=
  ⟨installed.tables, installed.positions, installed.queue, installed.numbered, installed.sane, installed.base, installed.chains,
    installed.opened, installed.sets, installed.made, installed.inbounds, installed.vmaps, installed.elements, installed.contents,
    installed.filed⟩

theorem Installed.fits (installed : Installed deps start settings world) (fresh : Fresh deps denyAll start)
    (sane : setting.Sane) (agrees : ∀ other ∈ settings, setting.Agrees deps other) :
    Fits deps world.router world.kernel setting := by
  obtain ⟨kernel, committed, -, rfl, -⟩ := fresh.at
  have ifnames : ∀ table, ∃ elements, start.kernel.sets table "inbound_ifname" = some elements ∧
      elements.entries = [⟨paddedName "lo", some .accept⟩] := by
    intro table
    have entries := (fresh_sets committed table).2
    rw [Option.map_eq_some_iff, paddedName_lo] at entries
    exact entries
  constructor
  · intro known table
    obtain ⟨other, member, needs, same⟩ := installed.inbounds _ known
    have equal := (String.append_right_inj _).mp same
    refine ⟨installed.opened other member table _ ⟨needs, same⟩, ?_⟩
    refine (installed.elements ..).mpr (.inr ⟨other, member, .inl ⟨needs, rfl, by rw [equal], ?_⟩⟩)
    rw [Setting.entry, Setting.entry, equal]
  · intro table
    obtain ⟨elements, known, -⟩ := ifnames table
    exact installed.sets table _ (by simp [known])
  · intro needs table data found
    rcases (installed.elements ..).mp found with ⟨elements, known, found⟩ | ⟨other, member, entry | port⟩
    · obtain ⟨elements', known', entries⟩ := ifnames table
      cases known.symm.trans known'
      have member := AList.mem_lookup_iff.mp found
      rw [entries] at member
      simp only [mem_singleton, Sigma.mk.injEq] at member
      exact absurd (paddedName_injective sane.interface interfaceName_lo member.1) sane.loopback
    · obtain ⟨-, -, same, rfl⟩ := entry
      rw [Setting.entry, Setting.entry, paddedName_injective sane.interface (installed.sane other member).interface same]
    · exact absurd port.2.1.symm (other.vmapName_ne_ifname deps table)
  · intro table known
    have registered : (world.router.sgPortVmaps.lookup (setting.vmapName deps table)).isSome = true := by
      rw [← Option.not_isNone, show (world.router.sgPortVmaps.lookup (setting.vmapName deps table)).isNone = false from known]
      rfl
    obtain ⟨owner, found⟩ := Option.isSome_iff_exists.mp registered
    obtain ⟨other, member, needs, same⟩ := (installed.vmaps _ _).mp found
    cases Setting.vmapName_table same
    exact installed.made other member table _ ⟨needs, same⟩
  · intro table needs key member data found
    rcases (installed.elements ..).mp found with ⟨elements, known, -⟩ | ⟨other, listed, entry | port⟩
    · rw [fresh_sets_none committed table (setting.vmapName_not_base deps table)] at known
      cases known
    · exact absurd entry.2.1 (setting.vmapName_ne_ifname deps table)
    · obtain ⟨others, same, shared, rfl⟩ := port
      rw [agrees other listed table needs others same key member shared]

theorem SecurityGroup.target_chain (sg : SecurityGroup) (iifName : String) (ctPos : Family → Nat) :
    sg.needsInbound iifName = true ∧ (sg.target iifName ctPos).chain = inboundChain iifName ∨
      (sg.target iifName ctPos).chain = "input" ∨ (sg.target iifName ctPos).chain = "forward" := by
  unfold target needsInbound
  cases sg.dstNetwork.isValid <;> by_cases named : iifName = "" <;> simp [named, inboundChain]

theorem SecurityGroup.target_insert {sg : SecurityGroup} {iifName} {ctPos}
    (inserts : (sg.target iifName ctPos).insert = true) :
    (sg.target iifName ctPos).chain = "forward" ∧ (sg.target iifName ctPos).position = ctPos := by
  revert inserts
  unfold target
  cases sg.dstNetwork.isValid <;> by_cases named : iifName = "" <;> simp [named]

theorem Installed.accepts (installed : Installed deps start settings world) (fresh : Fresh deps denyAll start)
    (grown : Grown world.kernel (setting.growth deps) middle) (ctPos : Family → Nat) :
    ∀ rule ∈ setting.rules deps ctPos, middle.accepts rule = true := by
  obtain ⟨kernel, committed, -, rfl, -⟩ := fresh.at
  intro rule member
  have hooked : ∀ table chain, chain = "input" ∨ chain = "forward" → (middle.chains table chain).isSome = true := by
    intro table chain hooked
    rw [grown.chains _ _ _ (installed.chains _ _ _ (fresh_chains committed table hooked))]
    rfl
  have chain : (middle.chains rule.table rule.chain).isSome = true := by
    obtain ⟨table, -, -, -, rfl⟩ := mem_compile.mp member
    rcases setting.group.target_chain setting.iifName ctPos with ⟨needs, inbound⟩ | standing
    · exact grown.opened _ _ ⟨needs, inbound⟩
    · exact hooked _ _ standing
  simp only [Kernel.accepts, chain, Bool.true_and, all_eq_true]
  intro expr listed
  cases names : expr.setName? with
  | none => rfl
  | some name =>
    obtain ⟨applies, ports, rfl⟩ := compile_setName member listed names
    exact grown.made _ _ ⟨by rw [needsVmap, applies, ports]; rfl, rfl⟩

theorem Installed.stands (installed : Installed deps start settings world) (fresh : Fresh deps denyAll start)
    (inserts : (setting.group.target setting.iifName start.router.forwardChainCtPos).insert = true) :
    ∀ rule ∈ setting.rules deps start.router.forwardChainCtPos, ∃ present ∈ world.kernel.rules,
      present.inChain rule.table rule.chain = true ∧ present.handle = rule.position := by
  obtain ⟨kernel, committed, router, rfl, -⟩ := fresh.at
  intro rule member
  obtain ⟨table, -, -, -, rfl⟩ := mem_compile.mp member
  obtain ⟨chain, position⟩ := target_insert inserts
  obtain ⟨present, member, place, handle⟩ := fresh_ctHandle committed table
  refine ⟨present, installed.base present member, chain ▸ place, ?_⟩
  rw [handle, position, router]
  rfl

theorem mem_contents_saved {rules} {insert} (savable : Savable world rules)
    (committed : world.kernel.commit nft (world.batch rules insert) = .ok after)
    (content : Family × String × List Expr) : content ∈ after.rules.map Rule.content ↔
      content ∈ world.kernel.rules.map Rule.content ∨ content ∈ rules.map Rule.content := by
  obtain ⟨-, found, placed, contents, stands⟩ := savable.commit committed
  rw [(stands.map Rule.content).mem_iff, map_append, mem_append, contents]
  constructor
  · rintro (missing | old)
    · obtain ⟨rule, member, rfl⟩ := mem_map.mp missing
      exact .inr (mem_map_of_mem (mem_filter.mp member).1)
    · exact .inl old
  · rintro (old | new)
    · exact .inr old
    · obtain ⟨rule, member, rfl⟩ := mem_map.mp new
      have present := find_isSome.mp (found rule member)
      rwa [(stands.map content).mem_iff, map_append, mem_append, contents] at present

private theorem exists_mem_snoc {chosen : Setting → Prop} :
    (∃ other ∈ settings ++ [setting], chosen other) ↔ (∃ other ∈ settings, chosen other) ∨ chosen setting := by
  simp

private theorem forall_mem_snoc {chosen : Setting → Prop} (all : ∀ other ∈ settings, chosen other) (last : chosen setting) :
    ∀ other ∈ settings ++ [setting], chosen other := by
  intro other member
  rcases mem_append.mp member with early | late
  · exact all other early
  · rw [mem_singleton.mp late]
    exact last

section

variable (installed : Installed deps start settings world)
include installed

theorem Installed.owned : world.router.Owned := by
  intro name table found
  obtain ⟨other, -, -, rfl⟩ := (installed.vmaps name table).mp found
  exact ⟨_, other.vmapName_eq deps table⟩

theorem Installed.vmaps_prepared (name : String) (table : Family) :
    (world.router.prepared setting.group setting.iifName (setting.vmapName deps)).sgPortVmaps.lookup name = some table ↔
      ∃ other ∈ settings ++ [setting], other.group.needsVmap table = true ∧ name = other.vmapName deps table := by
  have same : (world.router.withInbound setting.group setting.iifName).sgPortVmaps = world.router.sgPortVmaps := by
    unfold withInbound
    split <;> rfl
  have owner : ∀ own other, world.router.sgPortVmaps.lookup (setting.vmapName deps own) = some other → other = own := by
    intro own other found
    obtain ⟨_, -, -, same⟩ := (installed.vmaps _ _).mp found
    exact (Setting.vmapName_table same).symm
  have first := (world.router.withInbound setting.group setting.iifName).lookup_opened setting.group
    (same ▸ owner .ipv4)
  rw [same] at first
  rw [prepared, lookup_opened setting.group, first, installed.vmaps, exists_mem_snoc, or_assoc]
  · refine or_congr_right ?_
    cases table <;> simp
  · intro other found
    rcases (first _ _).mp found with old | ⟨-, same, -⟩
    · exact owner .ipv6 other old
    · cases Setting.vmapName_table same

theorem Installed.grow (grown : Grown world.kernel (setting.growth deps) middle) :
    (∀ table name policy, start.kernel.chains table name = some policy → middle.chains table name = some policy) ∧
    (∀ other ∈ settings ++ [setting], ∀ table name, (other.growth deps).chain table name → (middle.chains table name).isSome = true) ∧
    (∀ table name, (start.kernel.sets table name).isSome = true → (middle.sets table name).isSome = true) ∧
    ∀ other ∈ settings ++ [setting], ∀ table name, (other.growth deps).set table name → (middle.sets table name).isSome = true := by
  refine ⟨?_, ?_, ?_, ?_⟩
  · intro table name policy known
    exact grown.chains _ _ _ (installed.chains _ _ _ known)
  · refine forall_mem_snoc (fun other member table name opens => ?_) grown.opened
    obtain ⟨policy, known⟩ := Option.isSome_iff_exists.mp (installed.opened other member table name opens)
    simp [grown.chains _ _ _ known]
  · intro table name known
    exact grown.sets _ _ (installed.sets _ _ known)
  · exact forall_mem_snoc (fun other member table name makes => grown.sets _ _ (installed.made other member table name makes))
      grown.made

theorem Installed.saved {ready calls} (sane : setting.Sane)
    (quiet : Quiet (world.router.prepared setting.group setting.iifName (setting.vmapName deps)) world.kernel (world.router.groupMsgs setting.group setting.iifName (setting.vmapName deps)) ready)
    (savable : Savable ready (setting.rules deps start.router.forwardChainCtPos))
    (grown : Grown world.kernel (setting.growth deps) middle) (chains : after.chains = middle.chains)
    (sets : after.sets = middle.sets) {insert}
    (committed : ready.kernel.commit nft (ready.batch (setting.rules deps start.router.forwardChainCtPos) insert) = .ok after) :
    Installed deps start (settings ++ [setting])
      { ready.saved (setting.key deps) (setting.rules deps start.router.forwardChainCtPos) after with calls } := by
  obtain ⟨refs, router⟩ := saved_fields ready (setting.key deps) (setting.rules deps start.router.forwardChainCtPos) after
  rw [quiet.router] at router
  obtain ⟨numbered, -, placed, -, stands⟩ := savable.commit committed
  have contents := mem_contents_saved savable committed
  rw [quiet.kernel] at stands contents
  obtain ⟨keptChains, opened, keptSets, made⟩ := installed.grow grown
  rw [← chains] at keptChains opened
  rw [← sets] at keptSets made
  exact
    { tables := by
        rw [show _ = _ from router, prepared_shape]
        exact installed.tables
      positions := by
        rw [show _ = _ from router, prepared_shape]
        exact installed.positions
      queue := rfl
      numbered := numbered
      sane := forall_mem_snoc installed.sane sane
      base := fun rule member => stands.mem_iff.mpr (mem_append_right _ (installed.base rule member))
      chains := keptChains
      opened := opened
      sets := keptSets
      made := made
      inbounds := by
        intro name member
        rw [show _ = _ from router, prepared_shape] at member
        rw [exists_mem_snoc]
        rcases mem_withInbound _ _ member with old | new
        · exact .inl (installed.inbounds name old)
        · exact .inr new
      vmaps := by
        intro name table
        rw [show _ = _ from router]
        exact installed.vmaps_prepared name table
      elements := by
        intro table name key data
        rw [exists_mem_snoc, ← or_assoc, ← installed.elements, ← grown.elements]
        show after.element table name key data ↔ _
        simp [element, sets]
      contents := by
        intro content
        rw [exists_mem_snoc, ← or_assoc, ← installed.contents]
        exact contents content
      filed := by
        intro key content
        rw [exists_mem_snoc, ← installed.filed]
        have filed := mem_filed_saved ready (setting.key deps) (setting.rules deps start.router.forwardChainCtPos) after key content
        rwa [quiet.router, prepared_shape] at filed }

theorem Installed.savable {router ready}
    (quiet : Quiet router world.kernel (world.router.groupMsgs setting.group setting.iifName (setting.vmapName deps)) ready) :
    Savable ready (setting.rules deps start.router.forwardChainCtPos) := by
  refine ⟨quiet.kernel ▸ installed.numbered, ?_, fun rule member => (compile_built rule member).toStandard⟩
  rw [quiet.queue]
  exact world.router.groupMsgs_ruleFree _ _ _

theorem Installed.set (fresh : Fresh deps denyAll start) (sane : setting.Sane)
    (agrees : ∀ other ∈ settings, setting.Agrees deps other) (calm : world.faults = fun _ _ => false) (clean : world.failed = []) :
    ∃ next, (setSecurityGroup deps setting.iifName setting.group).run world = .ok () next ∧
      Installed deps start (settings ++ [setting]) next ∧ next.faults = (fun _ _ => false) ∧ next.failed = [] ∧
      ((setting.group.target setting.iifName start.router.forwardChainCtPos).insert = false → ∃ placed,
        next.kernel.rules = world.kernel.rules ++ placed ∧ placed.map content =
          (world.kernel.missing (setting.rules deps start.router.forwardChainCtPos)).map Rule.content) := by
  obtain ⟨ready, quiet, ran⟩ := @setSecurityGroup_quiet deps _ _ _ _ setting.group setting.iifName sane.same installed.tables
    sane.interface.short sane.ends installed.owned ⟨rfl, rfl, installed.queue, calm, clean⟩
  rw [nil_append] at quiet
  rw [installed.positions] at ran
  obtain ⟨middle, setup, grown⟩ : Adds deps.nft world.kernel _ _ := (installed.fits fresh sane agrees).adds
  obtain ⟨after, placed⟩ := @commit_placing deps.nft middle
    (world.kernel.missing (setting.rules deps start.router.forwardChainCtPos))
    (setting.group.target setting.iifName start.router.forwardChainCtPos).insert
    (fun rule member => installed.accepts fresh grown _ rule (mem_filter.mp member).1)
    (fun inserts rule member => grown.rules ▸ installed.stands fresh inserts rule (mem_filter.mp member).1)
  obtain ⟨chains, sets⟩ := commit_places placed
  have savable := installed.savable quiet
  have committed : ready.kernel.commit deps.nft (ready.batch (setting.rules deps start.router.forwardChainCtPos)
      (setting.group.target setting.iifName start.router.forwardChainCtPos).insert) = .ok after := by
    rw [World.batch, quiet.queue, quiet.kernel]
    exact commit_append_ok setup placed
  obtain ⟨calls, saved⟩ := saveFilterRules_saved savable (by simp [Calm, quiet.calm]) committed
  refine ⟨_, ran.trans saved, installed.saved sane quiet savable grown chains sets committed, quiet.calm, quiet.clean, ?_⟩
  intro appends
  rw [appends] at placed
  obtain ⟨last, stands, contents⟩ := commit_appends placed
  exact ⟨last, grown.rules ▸ stands, contents⟩

end

end MycsCommon.Network
