import MycsCommon.Proofs.OperationRules

/-! What an invariant has to survive to survive saving and deleting rules in any state,
one change of the state at a time: calls that are counted or fail, messages of a
certain kind, flushes, and entries of a certain kind in the two maps. -/

namespace MycsCommon.Network
open Library Program RefCount

structure Steady (nft : Nft) (sent : Msg → Prop) (filed : Rule → Prop) (inv : World → Prop) : Prop where
  counts : ∀ world calls, inv world → inv { world with calls }
  logs : ∀ world entry, inv world → inv { world with failed := world.failed ++ [entry] }
  queues : ∀ world msg, sent msg → inv world → inv { world with queue := world.queue ++ [msg] }
  sends : ∀ world after, world.kernel.commit nft world.queue = .ok after → inv world →
    inv { world with kernel := after, queue := [] }
  drops : ∀ world, inv world → inv { world with queue := [] }
  refs : ∀ world ruleRef, inv world → inv { world with router := { world.router with ruleRef } }
  files : ∀ world key rules, (∀ rule ∈ rules, filed rule) → inv world →
    inv { world with router := world.router.file key rules }
  erases : ∀ world key, inv world →
    inv { world with router := { world.router with ruleMap := world.router.ruleMap.erase key } }

variable {nft : Nft} {sent : Msg → Prop} {filed : Rule → Prop} {inv : World → Prop}

namespace Steady

variable (steady : Steady nft sent filed inv)
include steady

theorem getRules (site : Site) (table : Family) (chain : String) :
    Triple inv (getRules site table chain) (fun rules world => inv world ∧ rules = world.kernel.chainRules table chain)
      (fun _ => inv) := by
  rintro ⟨router, kernel, queue, faults, calls, failed⟩ holds
  rw [getRules_run]
  cases faults site (calls site) with
  | true => exact steady.logs _ _ (steady.counts _ _ holds)
  | false => exact ⟨steady.counts _ _ holds, rfl⟩

theorem flush (site : Site) : Keeps inv (flush nft site) := by
  rintro ⟨router, kernel, queue, faults, calls, failed⟩ holds
  rcases flush_cases site with ⟨after, calls', committed, -, ran⟩ | ⟨-, calls', ran⟩
  · rw [ran]
    exact steady.counts _ calls' (steady.sends _ after committed holds)
  · rw [ran]
    exact steady.counts _ calls' (steady.logs _ _ (steady.drops _ holds))

theorem queueMissing {insert} {rules} (places : ∀ rule ∈ rules, sent (Msg.place insert rule)) :
    Keeps inv (queueMissing nft insert rules) := by
  induction rules with
  | nil => exact Triple.skip _
  | cons rule rules ih =>
    apply Triple.bind _ (steady.getRules .saveGetRules rule.table rule.chain)
    intro savedRules
    apply Triple.bind (fun _ => inv)
    · unfold findRule
      split
      · exact Triple.pure _ fun _ holds => holds.1
      · exact Triple.throw _ fun _ holds => holds.1
    intro foundRule
    have rest := ih fun other member => places other (by simp [member])
    cases foundRule with
    | none =>
      apply Triple.bind (fun _ => inv) (Triple.modify _ fun world holds => steady.queues world _ (places rule (by simp)) holds)
      exact fun _ => rest
    | some found => exact rest

theorem captureHandles {key} {rules}
    (captures : ∀ world, inv world → ∀ rule ∈ rules, ∀ found, findRuleInList nft rule (world.kernel.chainRules rule.table rule.chain) = .ok (some found) → filed { rule with handle := found.handle }) :
    Triple inv (captureHandles nft key rules) (fun saved world => inv world ∧ ∀ rule ∈ saved, filed rule)
      (fun _ => inv) := by
  induction rules with
  | nil => exact Triple.pure _ fun _ holds => ⟨holds, by simp⟩
  | cons rule rules ih =>
    apply Triple.bind _ (steady.getRules .saveGetHandles rule.table rule.chain)
    intro savedRules
    apply Triple.bind (fun found world => inv world ∧ ∀ present, found = some present →
      filed { rule with handle := present.handle })
    · rintro world ⟨holds, rfl⟩
      unfold findRule
      cases looked : findRuleInList nft rule (world.kernel.chainRules rule.table rule.chain) with
      | ok found =>
        refine ⟨holds, ?_⟩
        rintro present rfl
        exact captures world holds rule (by simp) present looked
      | error panic => exact holds
    intro found
    apply Triple.fact
    intro named
    cases found with
    | none => exact Triple.throw _ fun _ => id
    | some present =>
      apply Triple.bind (fun _ => inv) (Triple.modify _ fun world holds => steady.refs world _ holds)
      intro _
      apply Triple.bind _ (ih fun world holds other member => captures world holds other (by simp [member]))
      intro saved
      refine Triple.pure _ fun world ⟨holds, each⟩ => ⟨holds, ?_⟩
      intro other member
      rcases List.mem_cons.mp member with rfl | later
      · exact named present rfl
      · exact each other later

theorem saveFilterRules {key} {rules} {insert} (places : ∀ rule ∈ rules, sent (Msg.place insert rule))
    (captures : ∀ world, inv world → ∀ rule ∈ rules, ∀ found, findRuleInList nft rule (world.kernel.chainRules rule.table rule.chain) = .ok (some found) → filed { rule with handle := found.handle }) :
    Keeps inv (saveFilterRules nft key rules insert) := by
  apply Triple.bind _ (steady.queueMissing places)
  intro _
  apply Triple.bind _ (steady.flush .saveFlush)
  intro _
  split
  · apply Triple.bind _ (steady.captureHandles captures)
    intro saved
    exact Triple.modify _ fun world ⟨holds, each⟩ => steady.files world key saved each holds
  · exact Triple.skip _

theorem delRule {rule} (removes : 0 < rule.handle → sent (Kernel.remove rule)) :
    Keeps inv (delRule .deleteDelRule rule) := by
  rintro ⟨router, kernel, queue, faults, calls, failed⟩ holds
  rw [delRule_run]
  cases refused : faults .deleteDelRule (calls .deleteDelRule) || rule.handle == 0 with
  | true => exact steady.logs _ _ (steady.counts _ _ holds)
  | false =>
    have handle : 0 < rule.handle := by
      simp only [Bool.or_eq_false_iff, beq_eq_false_iff_ne] at refused
      omega
    exact steady.counts _ _ (steady.queues _ _ (removes handle) holds)

theorem releaseRules {rules} (removes : ∀ rule ∈ rules, 0 < rule.handle → sent (Kernel.remove rule)) :
    Keeps inv (releaseRules rules) := by
  induction rules with
  | nil => exact Triple.skip _
  | cons rule rules ih =>
    apply Triple.read
    intro state _
    have rest := ih fun other member => removes other (by simp [member])
    have counted : ∀ change : Router → AList (fun _ : String => Int),
        Keeps inv (modifyRouter fun router => { router with ruleRef := change router }) :=
      fun change => Triple.modify _ fun world holds => steady.refs world _ holds
    simp only []
    split
    · apply Triple.bind _ (steady.delRule (removes rule (by simp)))
      intro _
      exact Triple.bind _ (counted _) fun _ => rest
    · exact Triple.bind _ (counted _) fun _ => rest

theorem deleteFilter {key}
    (removes : ∀ world, inv world → ∀ rule ∈ held world.router.ruleMap key, 0 < rule.handle → sent (Kernel.remove rule)) :
    Keeps inv (deleteFilter nft key) := by
  apply Triple.read
  intro state holds
  cases held : state.router.ruleMap.lookup key with
  | none => exact Triple.throw _ fun _ => id
  | some rules =>
    have mine : RefCount.held state.router.ruleMap key = rules := by simp [RefCount.held, held]
    apply Triple.bind _ (steady.releaseRules fun rule member => removes state holds rule (mine ▸ member))
    intro _
    apply Triple.bind (fun _ => inv) (Triple.modify _ fun world holds => steady.erases world key holds)
    exact fun _ => steady.flush .deleteFlush

/-- An invariant of the single changes is one of the operations, as far as it does not forbid their messages. -/
theorem invariant {ctPos} (positions : ∀ world, inv world → world.router.forwardChainCtPos = ctPos)
    (minor : ∀ msg : Msg, msg.Minor → sent msg)
    (names : ∀ world inboundChains sgPortVmaps, inv world → inv { world with router := { world.router with inboundChains, sgPortVmaps } })
    (removes : ∀ world, inv world → ∀ key, ∀ rule ∈ held world.router.ruleMap key, 0 < rule.handle → sent (Kernel.remove rule))
    (saves : ∀ key rules, Offered rules → Keeps inv (Network.saveFilterRules nft key rules false)) :
    Invariant nft ctPos inv where
  positions := positions
  counts := steady.counts
  logs := steady.logs
  queues world msg small := steady.queues world msg (minor msg small)
  names := names
  flushes := steady.flush
  deletes key := steady.deleteFilter fun world holds => removes world holds key
  saves := saves

end Steady

end MycsCommon.Network
