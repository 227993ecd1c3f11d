import MycsCommon.Proofs.RuleLookup
import Mathlib.Data.List.Perm.Basic
import Mathlib.Data.List.Nodup

/-! What a committed batch does to the rules. A batch is a run of messages, so every
fact here is a fact about one message carried along the batch. -/

namespace MycsCommon.Network
open List Bool Msg Rule

/-- What a rule says and where, without the handle the kernel knows it by. -/
def Rule.content (rule : Rule) : Family × String × List Expr := (rule.table, rule.chain, rule.exprs)

def Rule.ident (rule : Rule) : Family × Nat := (rule.table, rule.handle)

def Msg.ruleFree : Msg → Bool
  | .addTable _ | .addChain .. | .addSet .. | .delSet .. | .setAddElements .. | .setDeleteElements .. => true
  | .delTable _ | .addRule _ | .insertRule _ | .delRule .. => false

def Msg.setsOnly : Msg → Bool
  | .addSet .. | .delSet .. | .setAddElements .. | .setDeleteElements .. => true
  | .addTable _ | .delTable _ | .addChain .. | .addRule _ | .insertRule _ | .delRule .. => false

def Msg.opens (chain : String) : Msg → Bool
  | .addChain _ name _ => name == chain
  | _ => false

/-- A rule the message brings in is one the lookup can compare. -/
def Msg.Standard : Msg → Prop
  | .addRule rule | .insertRule rule => rule.Standard
  | _ => True

instance : (msg : Msg) → Decidable msg.Standard
  | .addRule rule | .insertRule rule => inferInstanceAs (Decidable rule.Standard)
  | .addTable _ | .delTable _ | .addChain .. | .addSet .. | .delSet .. | .setAddElements .. | .setDeleteElements ..
  | .delRule .. => isTrue trivial

def Msg.place (insert : Bool) (rule : Rule) : Msg := if insert then .insertRule rule else .addRule rule

theorem foldlM_cons_ok {ε σ α : Type} {change : σ → α → Except ε σ} {item : α} {items} {start finish : σ}
    (ran : (item :: items).foldlM change start = .ok finish) :
    ∃ middle, change start item = .ok middle ∧ items.foldlM change middle = .ok finish := by
  rw [foldlM_cons] at ran
  cases first : change start item with
  | error error => simp [first, bind, Except.bind] at ran
  | ok middle => exact ⟨middle, rfl, by simpa [first, bind, Except.bind] using ran⟩

namespace Kernel

variable {nft : Nft} {kernel after : Kernel}

theorem commit_cons {msg : Msg} {queue} (committed : kernel.commit nft (msg :: queue) = .ok after) :
    ∃ middle, kernel.apply nft msg = .ok middle ∧ middle.commit nft queue = .ok after :=
  foldlM_cons_ok committed

theorem commit_append {first rest} (committed : kernel.commit nft (first ++ rest) = .ok after) :
    ∃ middle, kernel.commit nft first = .ok middle ∧ middle.commit nft rest = .ok after := by
  induction first generalizing kernel with
  | nil => exact ⟨kernel, rfl, committed⟩
  | cons msg first ih =>
    obtain ⟨next, applied, later⟩ := commit_cons committed
    obtain ⟨middle, setup, rest⟩ := ih later
    exact ⟨middle, by rwa [commit, foldlM_cons, applied], rest⟩

theorem commit_keeps (invariant : Kernel → Prop) {queue}
    (kept : ∀ msg ∈ queue, ∀ before next, invariant before → before.apply nft msg = .ok next → invariant next)
    (holds : invariant kernel) (committed : kernel.commit nft queue = .ok after) : invariant after := by
  induction queue generalizing kernel with
  | nil =>
    cases committed
    exact holds
  | cons msg queue ih =>
    obtain ⟨middle, applied, rest⟩ := commit_cons committed
    exact ih (fun other member => kept other (by simp [member])) (kept msg (by simp) kernel middle holds applied) rest

theorem apply_setsOnly {msg} (only : msg.setsOnly = true) (applied : kernel.apply nft msg = .ok after) :
    after = { kernel with sets := after.sets } := by
  have stored {elements : Except Errno Elements} {table : Family} {name : String}
      (stores : (elements >>= fun added => .ok (kernel.setSet table name (some added))) = .ok after) :
      after = { kernel with sets := after.sets } := by
    cases elements with
    | error errno => cases stores
    | ok added =>
      cases stores
      rfl
  cases msg with
  | addSet table name elements => exact stored applied
  | delSet table name =>
    simp only [apply] at applied
    split at applied
    · cases applied
    · split at applied
      · cases applied
      · cases applied
        rfl
  | setAddElements table name elements | setDeleteElements table name elements =>
    simp only [apply] at applied
    split at applied
    · cases applied
    · exact stored applied
  | addTable | delTable | addChain | addRule | insertRule | delRule => cases only

theorem apply_ruleFree {msg} (free : msg.ruleFree = true) (applied : kernel.apply nft msg = .ok after) :
    after.rules = kernel.rules ∧ after.clock = kernel.clock := by
  cases msg with
  | addTable table =>
    cases applied
    exact ⟨rfl, rfl⟩
  | addChain table name policy =>
    simp only [apply] at applied
    split at applied <;> cases applied <;> exact ⟨rfl, rfl⟩
  | addSet | delSet | setAddElements | setDeleteElements =>
    rw [apply_setsOnly rfl applied]
    exact ⟨rfl, rfl⟩
  | delTable | addRule | insertRule | delRule => cases free

theorem apply_chains_none {msg table chain} (aside : msg.opens chain = false)
    (missing : kernel.chains table chain = none) (applied : kernel.apply nft msg = .ok after) :
    after.chains table chain = none := by
  cases msg with
  | addTable owner =>
    cases applied
    exact missing
  | delTable owner =>
    cases applied
    simp [missing]
  | addChain owner name policy =>
    simp only [apply] at applied
    split at applied
    · cases applied
      exact missing
    · cases applied
      simp only [opens, beq_eq_false_iff_ne] at aside
      simp [missing, Ne.symm aside]
  | addSet | delSet | setAddElements | setDeleteElements =>
    rw [apply_setsOnly rfl applied]
    exact missing
  | addRule | delRule =>
    simp only [apply] at applied
    split at applied <;> cases applied
    exact missing
  | insertRule rule =>
    simp only [apply] at applied
    split at applied
    · cases applied
    · split at applied
      · cases applied
        exact missing
      · split at applied <;> cases applied
        exact missing

theorem commit_ruleFree {queue} (free : ∀ msg ∈ queue, msg.ruleFree = true)
    (committed : kernel.commit nft queue = .ok after) : after.rules = kernel.rules ∧ after.clock = kernel.clock := by
  apply commit_keeps (fun current => current.rules = kernel.rules ∧ current.clock = kernel.clock)
    _ ⟨rfl, rfl⟩ committed
  intro msg member before next same applied
  obtain ⟨rules, clock⟩ := apply_ruleFree (free msg member) applied
  exact ⟨rules.trans same.1, clock.trans same.2⟩

theorem apply_place {insert rule} (applied : kernel.apply nft (place insert rule) = .ok after) :
    ∃ front back, kernel.rules = front ++ back ∧ after.rules = front ++ kernel.enter nft rule :: back ∧
      after.chains = kernel.chains ∧ after.sets = kernel.sets ∧ after.clock = kernel.clock + 1 := by
  cases insert with
  | false =>
    simp only [place, false_eq_true, if_false, apply] at applied
    split at applied
    · cases applied
      exact ⟨kernel.rules, [], by simp, rfl, rfl, rfl, rfl⟩
    · cases applied
  | true =>
    simp only [place, if_true, apply] at applied
    split at applied
    · cases applied
    · split at applied
      · cases applied
        exact ⟨[], kernel.rules, rfl, rfl, rfl, rfl, rfl⟩
      · split at applied
        · cases applied
          exact ⟨_, _, (takeWhile_append_dropWhile).symm, rfl, rfl, rfl, rfl⟩
        · cases applied

/-- The committed rule that says what the given one says, in the same chain. -/
def find (kernel : Kernel) (rule : Rule) : Option Rule :=
  (kernel.chainRules rule.table rule.chain).find? fun found => found.exprs = rule.exprs

theorem find_some {rule found} (finds : kernel.find rule = some found) :
    found ∈ kernel.rules ∧ found.content = rule.content := by
  have same := find?_some finds
  have member := mem_filter.mp (mem_of_find?_eq_some finds)
  simp only [inChain, and_eq_true, beq_iff_eq, decide_eq_true_eq] at same member
  exact ⟨member.1, by simp [content, member.2.1, member.2.2, same]⟩

theorem find_isSome {rule} : (kernel.find rule).isSome = true ↔ rule.content ∈ kernel.rules.map content := by
  constructor
  · intro finds
    obtain ⟨found, finds⟩ := Option.isSome_iff_exists.mp finds
    obtain ⟨member, same⟩ := find_some finds
    exact mem_map.mpr ⟨found, member, same⟩
  · intro member
    obtain ⟨found, member, same⟩ := mem_map.mp member
    simp only [content, Prod.mk.injEq] at same
    simp only [find, find?_isSome, chainRules, mem_filter, inChain, and_eq_true, beq_iff_eq,
      decide_eq_true_eq]
    exact ⟨found, ⟨member, same.1, same.2.1⟩, same.2.2⟩

/-- The committed rules are told apart by their handles. -/
structure Numbered (kernel : Kernel) : Prop where
  standard : ∀ rule ∈ kernel.rules, rule.Standard
  positive : ∀ rule ∈ kernel.rules, 0 < rule.handle
  idents : (kernel.rules.map ident).Nodup

theorem Numbered.of_sublist (numbered : kernel.Numbered) (fewer : after.rules.Sublist kernel.rules) : after.Numbered where
  standard rule member := numbered.standard rule (fewer.subset member)
  positive rule member := numbered.positive rule (fewer.subset member)
  idents := numbered.idents.sublist (fewer.map _)

theorem Numbered.eq_of_ident (numbered : kernel.Numbered) {rule other} (member : rule ∈ kernel.rules)
    (another : other ∈ kernel.rules) (same : rule.ident = other.ident) : rule = other :=
  inj_on_of_nodup_map numbered.idents member another same

private theorem enter_ident_fresh (rule : Rule) : (kernel.enter nft rule).ident ∉ kernel.rules.map ident := by
  intro member
  obtain ⟨other, committed, same⟩ := mem_map.mp member
  simp only [ident, enter, Prod.mk.injEq] at same
  apply nft.handle_fresh kernel.clock (kernel.handles rule.table)
  rw [← same.2]
  exact mem_map.mpr ⟨other, mem_filter.mpr ⟨committed, by simp [same.1]⟩, rfl⟩

theorem Numbered.place (numbered : kernel.Numbered) {insert rule} (standard : rule.Standard)
    (applied : kernel.apply nft (place insert rule) = .ok after) :
    after.Numbered ∧ after.rules.Perm (kernel.enter nft rule :: kernel.rules) := by
  obtain ⟨front, back, before, placed, -⟩ := apply_place applied
  have moved : after.rules.Perm (kernel.enter nft rule :: kernel.rules) := by
    rw [placed, before]
    exact perm_middle
  refine ⟨⟨?_, ?_, ?_⟩, moved⟩
  · intro other member
    rcases mem_cons.mp (moved.mem_iff.mp member) with rfl | member
    · exact ⟨standard.flags, standard.userData, standard.terminated⟩
    · exact numbered.standard other member
  · intro other member
    rcases mem_cons.mp (moved.mem_iff.mp member) with rfl | member
    · exact nft.handle_pos _ _
    · exact numbered.positive other member
  · rw [(moved.map ident).nodup_iff]
    exact nodup_cons.mpr ⟨enter_ident_fresh rule, numbered.idents⟩

theorem Numbered.apply {msg} (numbered : kernel.Numbered) (standard : msg.Standard)
    (applied : kernel.apply nft msg = .ok after) : after.Numbered := by
  by_cases free : msg.ruleFree = true
  · exact numbered.of_sublist ((apply_ruleFree free applied).1 ▸ .refl _)
  · cases msg with
    | addRule rule =>
      exact (numbered.place standard (show kernel.apply nft (Msg.place false rule) = _ from applied)).1
    | insertRule rule =>
      exact (numbered.place standard (show kernel.apply nft (Msg.place true rule) = _ from applied)).1
    | delTable table =>
      cases applied
      exact numbered.of_sublist filter_sublist
    | delRule table chain handle =>
      simp only [Kernel.apply] at applied
      split at applied
      · cases applied
        exact numbered.of_sublist filter_sublist
      · cases applied
    | addTable | addChain | addSet | delSet | setAddElements | setDeleteElements => exact absurd rfl free

theorem Numbered.commit {queue} (numbered : kernel.Numbered) (standard : ∀ msg ∈ queue, msg.Standard)
    (committed : kernel.commit nft queue = .ok after) : after.Numbered :=
  commit_keeps Numbered (fun msg member _ _ held applied => held.apply (standard msg member) applied) numbered committed

/-- Handles and contents both tell the committed rules apart. -/
structure Sound (kernel : Kernel) : Prop extends kernel.Numbered where
  contents : (kernel.rules.map content).Nodup

theorem Sound.of_sublist (sound : kernel.Sound) (fewer : after.rules.Sublist kernel.rules) : after.Sound where
  toNumbered := sound.toNumbered.of_sublist fewer
  contents := sound.contents.sublist (fewer.map _)

theorem Sound.of_rules_eq (sound : kernel.Sound) (same : after.rules = kernel.rules) : after.Sound :=
  sound.of_sublist (same ▸ .refl _)

theorem findRuleInList_find {rule} (standard : ∀ rule ∈ kernel.rules, rule.Standard) (built : rule.Standard) :
    findRuleInList nft rule (kernel.chainRules rule.table rule.chain) = .ok (kernel.find rule) := by
  apply findRuleInList_eq built
  intro candidate member
  obtain ⟨committed, placed⟩ := mem_filter.mp member
  simp only [inChain, and_eq_true, beq_iff_eq] at placed
  exact ⟨standard candidate committed, placed.1⟩

theorem Sound.eq_of_content (sound : kernel.Sound) {rule other} (member : rule ∈ kernel.rules)
    (another : other ∈ kernel.rules) (same : rule.content = other.content) : rule = other :=
  inj_on_of_nodup_map sound.contents member another same

theorem Numbered.place_all (numbered : kernel.Numbered) {insert} {rules : List Rule}
    (standard : ∀ rule ∈ rules, rule.Standard)
    (committed : kernel.commit nft (rules.map (Msg.place insert)) = .ok after) :
    after.Numbered ∧ after.chains = kernel.chains ∧ after.sets = kernel.sets ∧
      ∃ placed, placed.map content = rules.map content ∧ after.rules.Perm (placed ++ kernel.rules) := by
  induction rules generalizing kernel with
  | nil =>
    cases committed
    exact ⟨numbered, rfl, rfl, [], rfl, .refl _⟩
  | cons rule rules ih =>
    obtain ⟨middle, applied, rest⟩ := commit_cons committed
    obtain ⟨middleNumbered, moved⟩ := numbered.place (standard rule (by simp)) applied
    obtain ⟨-, -, -, -, chains, sets, -⟩ := apply_place applied
    obtain ⟨afterNumbered, sameChains, sameSets, placed, contents, stands⟩ :=
      ih middleNumbered (fun other member => standard other (by simp [member])) rest
    refine ⟨afterNumbered, sameChains.trans chains, sameSets.trans sets, kernel.enter nft rule :: placed, ?_, ?_⟩
    · simp only [map_cons, contents]
      rfl
    · exact stands.trans ((moved.append_left placed).trans perm_middle)

def remove (rule : Rule) : Msg := .delRule rule.table rule.chain rule.handle

/-- The committed rule is not the one that was asked to go. -/
def outlives (present rule : Rule) : Bool := !(present.inChain rule.table rule.chain && present.handle == rule.handle)

private theorem apply_remove {rule} (applied : kernel.apply nft (remove rule) = .ok after) :
    after = { kernel with rules := kernel.rules.filter (outlives · rule) } := by
  simp only [remove, apply] at applied
  split at applied
  · cases applied
    rfl
  · cases applied

theorem commit_remove {gone : List Rule} (committed : kernel.commit nft (gone.map remove) = .ok after) :
    after = { kernel with rules := kernel.rules.filter fun present => gone.all (outlives present) } := by
  induction gone generalizing kernel with
  | nil =>
    cases committed
    simp
  | cons rule gone ih =>
    obtain ⟨middle, applied, rest⟩ := commit_cons committed
    rw [ih rest, apply_remove applied]
    simp only [filter_filter, all_cons, Bool.and_comm]

end Kernel

end MycsCommon.Network
