import MycsCommon.Proofs.KernelCommit
import MycsCommon.Library.Program

/-! What each call to the nftables package does to the state. A call is counted at
its place in the source; one that fails is also logged. -/

namespace MycsCommon.Network
open Library EStateM

def bump (calls : Site → Nat) (site : Site) : Site → Nat := fun other => if other = site then calls site + 1 else calls other

@[simp] theorem bump_self (calls : Site → Nat) (site : Site) : bump calls site site = calls site + 1 := by simp [bump]

theorem bump_ne {site other} (calls : Site → Nat) (different : other ≠ site) :
    bump calls site other = calls other := by simp [bump, different]

variable {nft : Nft} {router : Router} {kernel : Kernel} {queue : List Msg} {faults : Site → Nat → Bool}
  {calls : Site → Nat} {failed : List (Site × Nat)} (site : Site)

theorem enqueue_run (msg : Msg) : (enqueue msg).run ⟨router, kernel, queue, faults, calls, failed⟩ =
    .ok () ⟨router, kernel, queue ++ [msg], faults, calls, failed⟩ := rfl

theorem modifyRouter_run (change : Router → Router) :
    (modifyRouter change).run ⟨router, kernel, queue, faults, calls, failed⟩ =
      .ok () ⟨change router, kernel, queue, faults, calls, failed⟩ := rfl

theorem call_run : (call site).run ⟨router, kernel, queue, faults, calls, failed⟩ =
    if faults site (calls site) then
      .error (.error (.nft site)) ⟨router, kernel, queue, faults, bump calls site, failed ++ [(site, calls site)]⟩
    else .ok () ⟨router, kernel, queue, faults, bump calls site, failed⟩ := by
  simp only [call, count, fail, run_bind, run_modifyGet, run_get]
  split <;> rfl

theorem queueCall_run (msg : Msg) : (queueCall site msg).run ⟨router, kernel, queue, faults, calls, failed⟩ =
    if faults site (calls site) then
      .error (.error (.nft site)) ⟨router, kernel, queue, faults, bump calls site, failed ++ [(site, calls site)]⟩
    else .ok () ⟨router, kernel, queue ++ [msg], faults, bump calls site, failed⟩ := by
  simp only [queueCall, run_bind, call_run]
  cases faults site (calls site) <;> rfl

theorem getRules_run (table : Family) (chain : String) :
    (getRules site table chain).run ⟨router, kernel, queue, faults, calls, failed⟩ =
    if faults site (calls site) then
      .error (.error (.nft site)) ⟨router, kernel, queue, faults, bump calls site, failed ++ [(site, calls site)]⟩
    else .ok (kernel.chainRules table chain) ⟨router, kernel, queue, faults, bump calls site, failed⟩ := by
  simp only [getRules, run_bind, call_run]
  cases faults site (calls site) <;> rfl

theorem getSetElements_run (table : Family) (name : String) :
    (getSetElements site table name).run ⟨router, kernel, queue, faults, calls, failed⟩ =
    match if faults site (calls site) then none else kernel.sets table name with
    | some elements => .ok elements ⟨router, kernel, queue, faults, bump calls site, failed⟩
    | none =>
      .error (.error (.nft site)) ⟨router, kernel, queue, faults, bump calls site, failed ++ [(site, calls site)]⟩ := by
  simp only [getSetElements, count, fail, run_bind, run_modifyGet, run_get]
  cases faults site (calls site) with
  | true => rfl
  | false => cases kernel.sets table name <;> rfl

theorem delRule_run (rule : Rule) : (delRule site rule).run ⟨router, kernel, queue, faults, calls, failed⟩ =
    if (faults site (calls site) || rule.handle == 0) then
      .error (.error (.nft site)) ⟨router, kernel, queue, faults, bump calls site, failed ++ [(site, calls site)]⟩
    else .ok () ⟨router, kernel, queue ++ [Kernel.remove rule], faults, bump calls site, failed⟩ := by
  simp only [delRule, count, fail, run_bind, run_modifyGet, run_get]
  split <;> rfl

def Unsent (nft : Nft) (site : Site) (world : World) : Prop :=
  world.queue ≠ [] ∧ (world.faults site (world.calls site) = true ∨ ∃ errno, world.kernel.commit nft world.queue = .error errno)

theorem flush_ran (world : World) :
    (Unsent nft site world ∧ (flush nft site).run world = .error (.error (.nft site))
      { world with queue := [], calls := bump world.calls site, failed := world.failed ++ [(site, world.calls site)] }) ∨
    (¬ Unsent nft site world ∧ ∃ after calls, world.kernel.commit nft world.queue = .ok after ∧
      (∀ other, other ≠ site → calls other = world.calls other) ∧
      (flush nft site).run world = .ok () { world with kernel := after, queue := [], calls }) := by
  obtain ⟨-, kernel, queue, faults, calls, failed⟩ := world
  simp only [Unsent, flush, count, fail, run_bind, run_get]
  by_cases empty : queue = []
  · subst empty
    exact .inr ⟨fun unsent => unsent.1 rfl, kernel, calls, rfl, fun _ _ => rfl, rfl⟩
  · simp only [List.isEmpty_eq_false_iff.mpr empty, Bool.false_eq_true, if_false, run_bind,
      run_modifyGet, run_get]
    cases faults site (calls site) with
    | true => exact .inl ⟨⟨empty, .inl rfl⟩, rfl⟩
    | false =>
      simp only [Bool.false_eq_true, if_false]
      cases committed : kernel.commit nft queue with
      | ok after => exact .inr ⟨by simp, after, bump calls site, rfl, fun other => bump_ne calls, rfl⟩
      | error errno => exact .inl ⟨⟨empty, .inr ⟨errno, rfl⟩⟩, rfl⟩

theorem flush_cases :
    (∃ after calls', kernel.commit nft queue = .ok after ∧ (∀ other, other ≠ site → calls' other = calls other) ∧
      (flush nft site).run ⟨router, kernel, queue, faults, calls, failed⟩ =
        .ok () ⟨router, after, [], faults, calls', failed⟩) ∨
    ((faults site (calls site) = true ∨ ∃ errno, kernel.commit nft queue = .error errno) ∧
      ∃ calls', (flush nft site).run ⟨router, kernel, queue, faults, calls, failed⟩ =
      .error (.error (.nft site)) ⟨router, kernel, [], faults, calls', failed ++ [(site, calls site)]⟩) := by
  rcases @flush_ran nft site ⟨router, kernel, queue, faults, calls, failed⟩ with
    ⟨unsent, ran⟩ | ⟨-, after, calls', committed, same, ran⟩
  · exact .inr ⟨unsent.2, _, ran⟩
  · exact .inl ⟨after, calls', committed, same, ran⟩

theorem findRule_run (nft : Nft) (world : World) {rule} (standard : ∀ rule ∈ kernel.rules, rule.Standard)
    (built : rule.Standard) :
    (findRule nft rule (kernel.chainRules rule.table rule.chain)).run world = .ok (kernel.find rule) world := by
  unfold findRule
  rw [Kernel.findRuleInList_find standard built]
  rfl

theorem attempt_run {α : Type} (program : RouterM α) (world : World) : (attempt program).run world =
    match program.run world with
    | .ok value after => .ok (.ok value) after
    | .error (.error error) after => .ok (.error error) after
    | .error fault after => .error fault after := rfl

end MycsCommon.Network
