import MycsCommon.Proofs.DeleteRules

/-! The books of the router. Its two maps, the counts and the lists of rules filed
under the keys, describe the committed rules it has added: every such rule is filed
under some key and every filed rule is committed. -/

namespace MycsCommon.Network
open Library List Kernel Prod RefCount Router Rule

/-- A verdict map lookup on register 1: only the rules of `NewFilterRouter` have one. -/
def Expr.basic : Expr → Bool
  | .lookup 1 _ true _ => true
  | _ => false

/-- A rule an operation may save. -/
structure Rule.Built (rule : Rule) : Prop extends rule.Standard where
  added : ∀ expr ∈ rule.exprs, expr.basic = false

theorem Rule.refKey_inj {rule other : Rule} : rule.refKey = other.refKey ↔ rule.ident = other.ident := by
  unfold refKey ident
  constructor
  · intro same
    have tables : rule.table = other.table := by
      have lists := congrArg String.toList same
      simp only [String.toList_append] at lists
      cases first : rule.table <;> cases second : other.table <;>
        simp [first, second, Family.tableName] at lists ⊢
    rw [tables] at same
    have digits := congrArg String.toList ((String.append_right_inj _).mp same)
    simp only [Nat.toList_repr] at digits
    have handles := congrArg (fun digits => Nat.ofDigitChars 10 digits 0) digits
    rw [tables, show rule.handle = other.handle by simpa using handles]
  · intro same
    simp only [Prod.mk.injEq] at same
    rw [same.1, same.2]

structure Books (base : List Rule) (world : World) : Prop where
  sound : world.kernel.Sound
  quiet : ∀ msg ∈ world.queue, msg.ruleFree = true
  counted : world.router.Counted
  filed : ∀ key, ∀ rule ∈ held world.router.ruleMap key,
    ∃ found ∈ world.kernel.rules, found.content = rule.content ∧ found.handle = rule.handle
  based : ∀ rule ∈ base, rule ∈ world.kernel.rules ∧ ∃ expr ∈ rule.exprs, expr.basic = true
  unfiled : ∀ rule ∈ base, world.router.references rule.refKey = 0
  owned : ∀ rule ∈ world.kernel.rules, rule ∈ base ∨ 0 < world.router.references rule.refKey

variable {nft : Nft} {base : List Rule} {world : World} {rules : List Rule} {key : String} {insert : Bool} {after : Kernel}

theorem Router.references_pos {router : Router} {text} :
    0 < router.references text ↔ ∃ key, ∃ rule ∈ held router.ruleMap key, rule.refKey = text := by
  unfold references
  rw [total_pos]
  simp

theorem acquire_all (rules : List Rule) {router} {count} (exact : Exact router.ruleRef count) :
    ∃ refs, rules.foldl acquire router = { router with ruleRef := refs } ∧
      Exact refs fun text => count text + rules.countP (·.refKey = text) := by
  induction rules generalizing router count with
  | nil => exact ⟨router.ruleRef, rfl, by simpa using exact⟩
  | cons rule rules ih =>
    have more : Exact (router.acquire rule).ruleRef _ := exact.acquire rule.refKey
    obtain ⟨refs, acquired, counted⟩ := ih more
    refine ⟨refs, acquired, ?_⟩
    intro text
    have sum : count text + (rule :: rules).countP (·.refKey = text) =
        count text + (if text = rule.refKey then 1 else 0) + rules.countP (·.refKey = text) := by
      rw [countP_cons]
      simp only [decide_eq_true_eq, @eq_comm _ rule.refKey]
      omega
    simp [counted text, sum]

theorem Books.filed_ident (books : Books base world) {rule : Rule} (filed : rule ∈ held world.router.ruleMap key) :
    ∃ found ∈ world.kernel.rules, found.content = rule.content ∧ found.refKey = rule.refKey := by
  obtain ⟨found, member, same, handle⟩ := books.filed key rule filed
  refine ⟨found, member, same, refKey_inj.mpr ?_⟩
  simp only [Rule.content, Prod.mk.injEq] at same
  simp only [Rule.ident, same.1, handle]

theorem captured_found {kernel : Kernel} {rule} (found : (kernel.find rule).isSome = true) :
    ∃ committed ∈ kernel.rules, committed.content = rule.content ∧ (kernel.captured rule).content = rule.content ∧
      (kernel.captured rule).handle = committed.handle ∧ (kernel.captured rule).refKey = committed.refKey := by
  obtain ⟨committed, finds⟩ := Option.isSome_iff_exists.mp found
  obtain ⟨member, same⟩ := find_some finds
  have handle : (kernel.captured rule).handle = committed.handle := by simp [captured, finds]
  refine ⟨committed, member, same, rfl, handle, refKey_inj.mpr ?_⟩
  simp only [Rule.content, Prod.mk.injEq] at same
  simp only [Rule.ident, handle, same.1]
  rfl

theorem Router.references_file {router : Router} (text : String) :
    (router.file key rules).references text = router.references text + rules.countP (·.refKey = text) :=
  total_append _ _ _ _

theorem saved_shape (counted : world.router.Counted) (some : rules ≠ []) :
    ∃ refs, (world.saved key rules after).router =
        ({ world.router with ruleRef := refs } : Router).file key (rules.map after.captured) ∧
      Exact refs fun text => world.router.references text + (rules.map after.captured).countP (·.refKey = text) := by
  obtain ⟨refs, acquired, exact⟩ := acquire_all (rules.map after.captured) counted
  refine ⟨refs, ?_, exact⟩
  rw [← acquired]
  exact if_neg some

theorem saved_router (counted : world.router.Counted) (rules : List Rule) :
    (world.saved key rules after).router.Counted ∧
      (∀ text, (world.saved key rules after).router.references text =
        world.router.references text + (rules.map after.captured).countP (·.refKey = text)) ∧
      ∀ other, ∀ rule ∈ held (world.saved key rules after).router.ruleMap other,
        rule ∈ held world.router.ruleMap other ∨ rule ∈ rules.map after.captured := by
  cases rules with
  | nil => exact ⟨counted, fun text => rfl, fun other rule member => .inl member⟩
  | cons rule rules =>
    obtain ⟨refs, shape, exact⟩ := @saved_shape world (rule :: rules) key after counted (by simp)
    have references : ∀ text, (world.saved key (rule :: rules) after).router.references text =
        world.router.references text + ((rule :: rules).map after.captured).countP (·.refKey = text) := by
      intro text
      rw [shape]
      exact references_file text
    refine ⟨?_, references, ?_⟩
    · intro text
      rw [references]
      exact (congrArg (fun router => router.ruleRef.lookup text) shape).trans (exact text)
    · intro other held member
      rw [shape] at member
      simp only [file, held_insert] at member
      split at member
      next same =>
        subst same
        exact mem_append.mp member
      next => exact .inl member

theorem Books.saved (books : Books base world) (built : ∀ rule ∈ rules, rule.Built)
    (distinct : (rules.map content).Nodup)
    (committed : world.kernel.commit nft (world.batch rules insert) = .ok after) :
    Books base (world.saved key rules after) := by
  have ready : Ready world rules := ⟨books.sound, books.quiet, fun rule member => (built rule member).toStandard, distinct⟩
  obtain ⟨sound, found, placed, contents, stands⟩ := ready.commit committed
  obtain ⟨counted, references, held⟩ := saved_router books.counted rules
  have kept : ∀ rule ∈ world.kernel.rules, rule ∈ after.rules :=
    fun rule member => stands.mem_iff.mpr (mem_append_right _ member)
  refine ⟨sound, by simp [World.saved], counted, ?_, ?_, ?_, ?_⟩
  · intro other rule member
    rcases held other rule member with old | new
    · obtain ⟨present, member, same⟩ := books.filed other rule old
      exact ⟨present, kept present member, same⟩
    · obtain ⟨given, listed, rfl⟩ := mem_map.mp new
      obtain ⟨present, member, same, content, handle, -⟩ := captured_found (found given listed)
      exact ⟨present, member, same.trans content.symm, handle.symm⟩
  · exact fun rule member => ⟨kept rule (books.based rule member).1, (books.based rule member).2⟩
  · intro rule member
    obtain ⟨standing, expr, listed, basic⟩ := books.based rule member
    rw [references, books.unfiled rule member, Nat.zero_add, countP_eq_zero]
    intro captured filed same
    -- the base rule would have to say what a built rule says
    obtain ⟨given, saved, rfl⟩ := mem_map.mp filed
    obtain ⟨present, committed, content, -, -, named⟩ := captured_found (found given saved)
    have equal := sound.eq_of_ident committed (kept rule standing)
      (refKey_inj.mp (named.symm.trans (of_decide_eq_true same)))
    subst equal
    simp only [Rule.content, Prod.mk.injEq] at content
    simp [(built given saved).added expr (content.2.2 ▸ listed)] at basic
  · intro rule member
    rw [references]
    rcases mem_append.mp (stands.mem_iff.mp member) with new | old
    · have brought := contents ▸ mem_map.mpr ⟨rule, new, rfl⟩
      obtain ⟨given, missing, content⟩ := mem_map.mp brought
      have listed := (mem_filter.mp missing).1
      obtain ⟨present, committed, same, -, -, named⟩ := captured_found (found given listed)
      have equal := sound.eq_of_content committed member (same.trans content)
      have counts : 0 < (rules.map after.captured).countP (·.refKey = rule.refKey) :=
        countP_pos_iff.mpr ⟨after.captured given, mem_map.mpr ⟨given, listed, rfl⟩, by simp [named, equal]⟩
      exact .inr (by omega)
    · rcases books.owned rule old with basic | owned
      · exact .inl basic
      · exact .inr (by omega)

theorem Router.references_without (router : Router) (key : String) (refs : AList (fun _ : String => Int)) (text : String) :
    router.references text = (held router.ruleMap key).countP (·.refKey = text) +
      (router.without key refs).references text :=
  total_split _ _ _

/-- The committed rules that are left once a key has given up its rules. -/
def World.remaining (world : World) (key : String) (rules : List Rule) : List Rule :=
  world.kernel.rules.filter fun present => (world.router.leaving key rules).all (outlives present)

theorem Books.remaining_iff (books : Books base world) (held : world.router.ruleMap.lookup key = some rules) {rule : Rule}
    (standing : rule ∈ world.kernel.rules) (refs : AList (fun _ : String => Int)) :
    rule ∈ world.remaining key rules ↔
      ¬ ((∃ mine ∈ rules, mine.refKey = rule.refKey) ∧ (world.router.without key refs).references rule.refKey = 0) := by
  have mine : RefCount.held world.router.ruleMap key = rules := by simp [RefCount.held, held]
  simp only [World.remaining, mem_filter, standing, true_and, all_eq_true]
  constructor
  · rintro outlives ⟨listed, unheld⟩
    obtain ⟨last, leaving, named⟩ := exists_lastHeld listed unheld
    have listed := (mem_lastHeld leaving).1
    obtain ⟨found, member, same, handle⟩ := books.filed key last (mine ▸ listed)
    have equal := books.sound.eq_of_ident member standing (by
      have idents := refKey_inj.mp named
      simp only [Rule.content, Rule.ident, Prod.mk.injEq] at same idents ⊢
      exact ⟨same.1.trans idents.1, handle.trans idents.2⟩)
    subst equal
    have gone := outlives last leaving
    simp only [Rule.content, Prod.mk.injEq] at same
    simp [Kernel.outlives, Rule.inChain, same.1, same.2.1, handle] at gone
  · intro kept last leaving
    obtain ⟨listed, unheld⟩ := mem_lastHeld leaving
    by_contra gone
    simp only [outlives, inChain, Bool.not_eq_true', Bool.not_eq_false, Bool.and_eq_true, beq_iff_eq] at gone
    have named : last.refKey = rule.refKey := refKey_inj.mpr (by simp [ident, gone.1.1, gone.2])
    exact kept ⟨⟨last, listed, named⟩, named ▸ unheld⟩

theorem Books.removed (books : Books base world) (held : world.router.ruleMap.lookup key = some rules) {refs}
    (counted : (world.router.without key refs).Counted) (left : after.rules = world.remaining key rules) :
    Books base { world with router := world.router.without key refs, kernel := after, queue := [] } := by
  have mine : RefCount.held world.router.ruleMap key = rules := by simp [RefCount.held, held]
  have remains : ∀ rule ∈ world.kernel.rules, 0 < (world.router.without key refs).references rule.refKey →
      rule ∈ after.rules := by
    intro rule standing referred
    rw [left, books.remaining_iff held standing refs]
    rintro ⟨-, unheld⟩
    omega
  refine ⟨books.sound.of_sublist (left ▸ filter_sublist), by simp, counted, ?_, ?_, ?_, ?_⟩
  · intro other rule filed
    have still := references_pos.mpr ⟨other, rule, filed, rfl⟩
    simp only [without, held_erase] at filed
    split at filed
    · simp at filed
    · obtain ⟨found, member, same, handle⟩ := books.filed other rule filed
      have named : found.refKey = rule.refKey := Rule.refKey_inj.mpr (by
        simp only [Rule.content, Prod.mk.injEq] at same
        simp [Rule.ident, same.1, handle])
      exact ⟨found, remains found member (named ▸ still), same, handle⟩
  · intro rule member
    obtain ⟨standing, basic⟩ := books.based rule member
    refine ⟨?_, basic⟩
    rw [left, books.remaining_iff held standing refs]
    rintro ⟨⟨own, listed, named⟩, -⟩
    have referred := references_pos.mpr ⟨key, own, mine ▸ listed, named⟩
    have unfiled := books.unfiled rule member
    omega
  · intro rule member
    have unfiled := books.unfiled rule member
    rw [references_without _ key refs] at unfiled
    exact (Nat.add_eq_zero_iff.mp unfiled).2
  · intro rule member
    have present : rule ∈ world.kernel.rules := by
      rw [left] at member
      exact (mem_filter.mp member).1
    rcases books.owned rule present with basic | referred
    · exact .inl basic
    · rw [left, books.remaining_iff held present refs] at member
      rw [references_without _ key refs, mine] at referred
      by_cases unheld : (world.router.without key refs).references rule.refKey = 0
      · obtain ⟨own, listed, named⟩ := countP_pos_iff.mp (show 0 < rules.countP (·.refKey = rule.refKey) by omega)
        exact absurd ⟨⟨own, listed, of_decide_eq_true named⟩, unheld⟩ member
      · exact .inr (Nat.pos_of_ne_zero unheld)

end MycsCommon.Network
