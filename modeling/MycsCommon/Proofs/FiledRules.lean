import MycsCommon.Proofs.RouterCalls

/-! The entries of the rule map. Saving and deleting rules changes the entry of their
key and no other, whatever calls fail. -/

namespace MycsCommon.Network
open Library Program Triple

variable {nft : Nft} {α β : Type}

/-- A program that logs no failure if it returns, and leaves the filed rules as they are. -/
def Discreet (program : RouterM α) : Prop :=
  ∀ log map, Triple (fun world => world.failed = log ∧ world.router.ruleMap = map) program
    (fun _ world => world.failed = log ∧ world.router.ruleMap = map) (fun _ world => world.router.ruleMap = map)

namespace Discreet

theorem pure (value : α) : Discreet (Pure.pure value) := fun _ _ => Triple.skip _

theorem throw (fault : Fault) : Discreet (MonadExcept.throw fault : RouterM α) :=
  fun _ _ => Triple.throw _ fun _ holds => holds.2

theorem bind {program} {next : α → RouterM β} (first : Discreet program) (rest : ∀ value, Discreet (next value)) :
    Discreet (program >>= next) :=
  fun log map => Triple.bind _ (first log map) fun value => rest value log map

theorem enqueue (msg : Msg) : Discreet (enqueue msg) := fun _ _ => modify _ fun _ => id

theorem counts (ruleRef : Router → AList (fun _ : String => Int)) :
    Discreet (modifyRouter fun router => { router with ruleRef := ruleRef router }) :=
  fun _ _ => modify _ fun _ => id

theorem getRules (site : Site) (table : Family) (chain : String) : Discreet (getRules site table chain) := by
  rintro log map ⟨router, kernel, queue, faults, calls, failed⟩ holds
  rw [getRules_run]
  cases faults site (calls site) with
  | true => exact holds.2
  | false => exact holds

theorem findRule (rule : Rule) (rules : List Rule) : Discreet (findRule nft rule rules) := by
  unfold Network.findRule
  cases findRuleInList nft rule rules with
  | ok found => exact pure _
  | error panic => exact throw _

theorem flush (site : Site) : Discreet (flush nft site) := by
  rintro log map ⟨router, kernel, queue, faults, calls, failed⟩ holds
  rcases flush_cases site with ⟨after, calls', -, -, ran⟩ | ⟨-, calls', ran⟩
  · rw [ran]
    exact holds
  · rw [ran]
    exact holds.2

theorem queueMissing (insert : Bool) (rules : List Rule) : Discreet (queueMissing nft insert rules) := by
  induction rules with
  | nil => exact pure _
  | cons rule rules ih =>
    refine bind (getRules _ _ _) fun savedRules => bind (findRule rule savedRules) fun foundRule => ?_
    cases foundRule with
    | none => exact bind (enqueue _) fun _ => ih
    | some found => exact ih

theorem captureHandles (key : String) (rules : List Rule) : Discreet (captureHandles nft key rules) := by
  induction rules with
  | nil => exact pure _
  | cons rule rules ih =>
    refine bind (getRules _ _ _) fun savedRules => bind (findRule rule savedRules) fun foundRule => ?_
    cases foundRule with
    | none => exact throw _
    | some found => exact bind (counts _) fun _ => bind ih fun _ => pure _

theorem delRule (rule : Rule) : Discreet (delRule .deleteDelRule rule) := by
  rintro log map ⟨router, kernel, queue, faults, calls, failed⟩ holds
  rw [delRule_run]
  cases faults .deleteDelRule (calls .deleteDelRule) || rule.handle == 0 with
  | true => exact holds.2
  | false => exact holds

theorem releaseRules (rules : List Rule) : Discreet (releaseRules rules) := by
  induction rules with
  | nil => exact pure _
  | cons rule rules ih =>
    intro log map
    apply Triple.read
    intro state _
    simp only []
    split
    · exact bind (delRule rule) (fun _ => bind (counts _) fun _ => ih) log map
    · exact bind (counts _) (fun _ => ih) log map

end Discreet

variable {log : List (Site × Nat)} {map : RefCount.Owners String Rule}

theorem saveFilterRules_files {key} {rules} (some : rules ≠ []) (insert : Bool) :
    Triple (fun world => world.failed = log ∧ world.router.ruleMap = map) (saveFilterRules nft key rules insert)
      (fun _ world => world.failed = log ∧ ∃ saved, world.router.ruleMap = map.insert key saved)
      (fun _ world => world.router.ruleMap = map) := by
  apply bind _ (Discreet.queueMissing insert rules log map)
  intro _
  apply bind _ (Discreet.flush .saveFlush log map)
  intro _
  rw [if_pos (List.length_pos_iff.mpr some)]
  apply bind _ (Discreet.captureHandles key rules log map)
  intro saved
  refine modify _ fun world holds => ⟨holds.1, RefCount.held map key ++ saved, ?_⟩
  simp [Router.file, holds.2]

theorem deleteFilter_erases {key} :
    Triple (fun world => world.failed = log ∧ world.router.ruleMap = map) (deleteFilter nft key)
      (fun _ world => world.failed = log ∧ world.router.ruleMap = map.erase key)
      (fun _ world => world.router.ruleMap = map ∨ world.router.ruleMap = map.erase key) := by
  apply Triple.read
  intro state _
  cases state.router.ruleMap.lookup key with
  | none => exact throw _ fun _ holds => .inl holds.2
  | some rules =>
    apply bind (fun _ world => world.failed = log ∧ world.router.ruleMap = map)
    · exact (Discreet.releaseRules rules log map).consequence (fun _ => id) (fun _ _ holds => holds) fun _ _ => .inl
    intro _
    apply bind (fun (_ : Unit) (world : World) => world.failed = log ∧ world.router.ruleMap = map.erase key)
    · exact modify _ fun _ holds => ⟨holds.1, by rw [← holds.2]⟩
    intro _
    exact (Discreet.flush .deleteFlush log _).consequence (fun _ => id) (fun _ _ holds => holds) fun _ _ => .inr

end MycsCommon.Network
