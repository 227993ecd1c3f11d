import MycsCommon.Proofs.RouterCalls
import MycsCommon.Network.Operations

/-! The state `NewFilterRouter` starts every run from. -/

namespace MycsCommon.Network
open Library Program Kernel Triple

/-- What the router, the kernel, the queue and the log are, whatever was counted. -/
structure At (router : Router) (kernel : Kernel) (queue : List Msg) (failed : List (Site × Nat)) (world : World) : Prop where
  router : world.router = router
  kernel : world.kernel = kernel
  queue : world.queue = queue
  failed : world.failed = failed

variable {router : Router} {kernel : Kernel} {queue : List Msg} {failed : List (Site × Nat)}

private theorem forM_at {send : Msg → RouterM Unit}
    (one : ∀ queue msg, Triple (At router kernel queue failed) (send msg)
      (fun _ => At router kernel (queue ++ [msg]) failed) (fun _ _ => True)) (msgs : List Msg) :
    Triple (At router kernel queue failed) (forM msgs send)
      (fun _ => At router kernel (queue ++ msgs) failed) (fun _ _ => True) := by
  induction msgs generalizing queue with
  | nil => exact pure _ fun _ holds => by simpa using holds
  | cons msg msgs ih =>
    rw [List.forM_cons]
    apply bind _ (one queue msg)
    intro _
    have rest := @ih (queue ++ [msg])
    rwa [List.append_assoc] at rest

private theorem enqueue_at (queue : List Msg) (msg : Msg) : Triple (At router kernel queue failed) (enqueue msg)
    (fun _ => At router kernel (queue ++ [msg]) failed) (fun _ _ => True) := by
  rintro world ⟨sameRouter, sameKernel, sameQueue, sameLog⟩
  exact ⟨sameRouter, sameKernel, by simp [← sameQueue], sameLog⟩

private theorem queueCall_at (site : Site) (queue : List Msg) (msg : Msg) :
    Triple (At router kernel queue failed) (queueCall site msg)
      (fun _ => At router kernel (queue ++ [msg]) failed) (fun _ _ => True) := by
  rintro ⟨_, _, _, faults, calls, _⟩ ⟨rfl, rfl, rfl, rfl⟩
  rw [queueCall_run]
  cases faults site (calls site) with
  | true => trivial
  | false => exact ⟨rfl, rfl, rfl, rfl⟩

def tableMsgs (denyAll : Bool) (table : Family) : List Msg := tableSets table ++ tableChains denyAll table ++ tableRules table

private theorem createTable_at (denyAll : Bool) (table : Family) :
    Triple (At router kernel queue failed) (createTable denyAll table)
      (fun _ => At router kernel (queue ++ tableMsgs denyAll table) failed) (fun _ _ => True) := by
  apply bind _ (forM_at (queueCall_at .newAddSet) (tableSets table))
  intro _
  apply bind _ (forM_at enqueue_at (tableChains denyAll table))
  intro _
  have rest := @forM_at router kernel (queue ++ tableSets table ++ tableChains denyAll table) failed _ enqueue_at (tableRules table)
  simpa only [tableMsgs, List.append_assoc] using rest

def freshMsgs (denyAll : Bool) : List Msg :=
  [.addTable .ipv4, .addTable .ipv6] ++ tableMsgs denyAll .ipv4 ++ tableMsgs denyAll .ipv6

private theorem flush_at (nft : Nft) (site : Site) : Triple (At router kernel queue failed) (flush nft site)
    (fun _ world => ∃ after, At router after [] failed world ∧ kernel.commit nft queue = .ok after) (fun _ _ => True) := by
  rintro ⟨_, _, _, -, -, _⟩ ⟨rfl, rfl, rfl, rfl⟩
  rcases flush_cases site with ⟨after, calls', committed, -, ran⟩ | ⟨-, calls', ran⟩
  · rw [ran]
    exact ⟨after, ⟨rfl, rfl, rfl, rfl⟩, committed⟩
  · rw [ran]
    trivial

/-- The handle of the rule security groups are inserted before. -/
def Kernel.ctHandle (kernel : Kernel) (table : Family) : Nat :=
  ((kernel.chainRules table "forward").head?.map Rule.handle).getD 0

private theorem readCtPos_at (table : Family) : Triple (At router kernel queue failed) (readCtPos table)
    (fun _ => At { router with forwardChainCtPos := fun other =>
      if other = table then kernel.ctHandle table else router.forwardChainCtPos other } kernel queue failed)
    (fun _ _ => True) := by
  rintro ⟨-, committed, -, faults, calls, -⟩ ⟨rfl, rfl, rfl, rfl⟩
  simp only [readCtPos, EStateM.run_bind, getRules_run]
  cases faults .newGetRules (calls .newGetRules) with
  | true => trivial
  | false =>
    simp only [Bool.false_eq_true, if_false]
    cases found : committed.chainRules table "forward" with
    | nil => trivial
    | cons rule rules =>
      simp only [ctHandle, found, modifyRouter_run]
      exact ⟨rfl, rfl, rfl, rfl⟩

def freshRouter (kernel : Kernel) : Router :=
  { Router.unset with made := true, tables := true, forwardChainCtPos := kernel.ctHandle }

theorem Fresh.at {deps denyAll world} (fresh : Fresh deps denyAll world) :
    ∃ kernel, empty.commit deps.nft (freshMsgs denyAll) = .ok kernel ∧ At (freshRouter kernel) kernel [] [] world := by
  obtain ⟨faults, ran⟩ := fresh
  have whole : Triple (At Router.unset empty [] []) (newFilterRouter deps denyAll)
      (fun _ world => ∃ kernel, empty.commit deps.nft (freshMsgs denyAll) = .ok kernel ∧
        At (freshRouter kernel) kernel [] [] world) (fun _ _ => True) := by
    apply bind (fun _ => At { Router.unset with made := true, tables := true } empty [] [])
    · rintro world ⟨-, sameKernel, sameQueue, sameLog⟩
      exact ⟨rfl, sameKernel, sameQueue, sameLog⟩
    intro _
    apply bind _ (enqueue_at [] (.addTable .ipv4))
    intro _
    apply bind _ (enqueue_at _ (.addTable .ipv6))
    intro _
    apply bind (fun _ => At { Router.unset with made := true, tables := true } empty (freshMsgs denyAll) [])
    · apply bind _ (createTable_at denyAll .ipv4)
      intro _
      apply bind _ (createTable_at denyAll .ipv6)
      exact fun _ => pure _ fun _ => id
    intro _
    apply bind _ (flush_at deps.nft .newFlush)
    intro _
    apply Triple.some
    intro kernel
    apply fact
    intro committed
    apply bind _ (readCtPos_at .ipv4)
    intro _
    apply bind _ (readCtPos_at .ipv6)
    intro _
    have positions : (fun other => if other = Family.ipv6 then kernel.ctHandle .ipv6
        else if other = .ipv4 then kernel.ctHandle .ipv4 else 0) = kernel.ctHandle := by
      funext table
      cases table <;> rfl
    exact pure _ fun world holds => ⟨kernel, committed, holds.router.trans
      (congrArg (fun positions => { freshRouter kernel with forwardChainCtPos := positions }) positions),
      holds.kernel, holds.queue, holds.failed⟩
  have reached := whole (World.boot.begin faults) ⟨rfl, rfl, rfl, rfl⟩
  rw [ran] at reached
  exact reached

theorem World.fresh_of_returned {deps denyAll}
    (ended : returned ((newFilterRouter deps denyAll).run (World.boot.begin fun _ _ => false)) = true) :
    Fresh deps denyAll (World.fresh deps denyAll) :=
  ⟨fun _ _ => false, eq_ok_of_returned ended⟩

/-- What the rules of `NewFilterRouter` say, in the order they are committed. -/
def baseContents : List (Family × String × List Expr) :=
  families.flatMap fun table =>
    [(table, "input", ctstateExpr), (table, "input", inboundIFNameExpr), (table, "forward", ctstateExpr)]

theorem fresh_contents {nft denyAll} (committed : empty.commit nft (freshMsgs denyAll) = .ok kernel) :
    kernel.rules.map Rule.content = baseContents := by
  have same : empty.commit nft (freshMsgs denyAll) = .ok _ := rfl
  rw [same] at committed
  cases committed
  rfl

theorem fresh_sets {nft denyAll} (committed : empty.commit nft (freshMsgs denyAll) = .ok kernel) (table : Family) :
    (kernel.sets table "ctstate").map AList.entries = some [⟨[4, 0, 0, 0], some .accept⟩, ⟨[2, 0, 0, 0], some .accept⟩,
        ⟨[1, 0, 0, 0], some .drop⟩] ∧
      (kernel.sets table "inbound_ifname").map AList.entries = some [⟨textBytes "lo" ++ List.replicate 14 0, some .accept⟩] := by
  have same : empty.commit nft (freshMsgs denyAll) = .ok _ := rfl
  rw [same] at committed
  cases committed
  cases table <;> exact ⟨rfl, rfl⟩

theorem fresh_sets_none {nft denyAll} (committed : empty.commit nft (freshMsgs denyAll) = .ok kernel)
    (table : Family) {name} (other : name ∉ ["ctstate", "ip_denylist", "ip_allowlist", "inbound_ifname"]) :
    kernel.sets table name = none := by
  have same : empty.commit nft (freshMsgs denyAll) = .ok _ := rfl
  rw [same] at committed
  cases committed
  simp only [List.mem_cons, List.not_mem_nil, or_false, not_or] at other
  simp [setSet, other, empty]

theorem fresh_chains {nft denyAll} (committed : empty.commit nft (freshMsgs denyAll) = .ok kernel) (table : Family)
    {chain} (hooked : chain = "input" ∨ chain = "forward") :
    kernel.chains table chain = some (some (if denyAll then Policy.drop else .accept)) := by
  have same : empty.commit nft (freshMsgs denyAll) = .ok _ := rfl
  rw [same] at committed
  cases committed
  rcases hooked with rfl | rfl <;> cases table <;> rfl

theorem fresh_ctHandle {nft denyAll} (committed : empty.commit nft (freshMsgs denyAll) = .ok kernel)
    (table : Family) :
    ∃ rule ∈ kernel.rules, rule.inChain table "forward" = true ∧ rule.handle = kernel.ctHandle table := by
  have same : empty.commit nft (freshMsgs denyAll) = .ok _ := rfl
  rw [same] at committed
  cases committed
  cases table
  · exact ⟨_, .tail _ (.tail _ (.head _)), rfl, rfl⟩
  · exact ⟨_, .tail _ (.tail _ (.tail _ (.tail _ (.tail _ (.head _))))), rfl, rfl⟩

theorem fresh_sound {nft denyAll} (committed : empty.commit nft (freshMsgs denyAll) = .ok kernel) : kernel.Sound := by
  have none : empty.Numbered := ⟨by simp [empty], by simp [empty], by simp [empty]⟩
  refine ⟨none.commit ?_ committed, ?_⟩
  · cases denyAll <;> decide
  · rw [fresh_contents committed]
    decide

end MycsCommon.Network
