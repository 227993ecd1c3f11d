import MycsCommon.Proofs.Bookkeeping
import MycsCommon.Proofs.GroupMessages

/-! Whether each rule of a group is its own. The rules of one table are appended to the
same list of matches, so they are their own unless that list has room for another rule's
end and both kinds of rules are drafted into it. -/

namespace MycsCommon.Network
open Library Program List SecurityGroup World

namespace SecurityGroup

variable {sg : SecurityGroup} {iifName : String} {vmapName : Family → String} {ctPos : Family → Nat}

/-- Two rules of the group are drafted into the same cells, and the loops over the ports end. -/
def Overwrites (sg : SecurityGroup) (iifName : String) : Prop :=
  sg.aliases iifName = true ∧ ∀ group ∈ sg.ports, group.Ends

theorem aliases_split (overwritten : sg.aliases iifName = true) : sg.mixesFamilies = false ∧ sg.shares iifName = true ∧
    ∀ kind, kind ∈ kinds sg.ports false false := by
  simp only [aliases, Bool.and_eq_true, Bool.not_eq_true', any_eq_true, decide_eq_true_eq] at overwritten
  obtain ⟨⟨⟨same, shared⟩, icmp⟩, ports⟩ := overwritten
  refine ⟨same, shared, fun kind => mem_kinds.mpr ⟨by cases kind <;> rfl, ?_⟩⟩
  cases kind with
  | true => simpa using icmp
  | false => simpa using ports

theorem compile_repeats (overwritten : sg.aliases iifName = true) :
    ¬ (sg.compile iifName vmapName ctPos fun _ => true).Nodup := by
  obtain ⟨-, shared, both⟩ := aliases_split overwritten
  obtain ⟨table, applies⟩ := sg.exists_appliesTo
  have some : sg.ports.isEmpty = false := by
    cases ports : sg.ports with
    | nil => simp [ports, kinds] at both
    | cons group groups => rfl
  intro nodup
  have listed : table ∈ families := by cases table <;> decide
  have alone := (nodup_flatMap.mp nodup).1 table listed
  simp only [applies, if_true, shared, settle, tails, some, Bool.false_eq_true, if_false, Bool.or_true, filter_true,
    map_map, Function.comp_def, map_const', map_replicate, nodup_replicate] at alone
  have first := both true
  have second := both false
  generalize kinds sg.ports false false = drafted at alone first second
  rcases drafted with - | ⟨kind, - | ⟨other, rest⟩⟩
  · simp at first
  · exact absurd ((mem_singleton.mp first).trans (mem_singleton.mp second).symm) (by decide)
  · simp at alone

theorem compile_lost {got} (lost : ∀ table, sg.appliesTo table = true → got table = false) :
    sg.compile iifName vmapName ctPos got = sg.ownRules (sg.target iifName ctPos) vmapName got := by
  unfold compile ownRules
  refine flatMap_congr fun table _ => ?_
  split
  next applies => rw [lost table applies, settle_lost]
  next => rfl

theorem compile_ne_own (overwritten : sg.aliases iifName = true) (target : Target) (names : Family → String)
    (got : Family → Bool) : sg.compile iifName vmapName ctPos (fun _ => true) ≠ sg.ownRules target names got := by
  intro same
  have repeats := @compile_repeats sg iifName vmapName ctPos overwritten
  rw [same] at repeats
  exact repeats (.of_map _ (ownRules_distinct target))

end SecurityGroup

def World.bare : World := { boot with router := { Router.unset with made := true, tables := true } }

theorem World.quiet_bare : Quiet bare.router bare.kernel [] bare := ⟨rfl, rfl, rfl, rfl, rfl⟩

theorem Router.owned_bare : bare.router.Owned := by
  intro name table found
  simp [bare, Router.unset] at found

theorem undisturbed_positions (ctPos : Family → Nat) (names : String → Prop) :
    Undisturbed ctPos names (fun world => world.router.forwardChainCtPos = ctPos) where
  positions _ holds := holds
  counts _ _ holds := holds
  logs _ _ holds := holds
  queues _ _ _ _ holds := holds
  inbounds _ _ holds := holds
  registers _ _ _ _ _ holds := holds

/-- Setting a group saves the rules it drafted, and in every run these are its own exactly
when no two of them are drafted into the same cells. -/
theorem drafted_own_iff (deps : Deps) (iifName : String) (sg : SecurityGroup) :
    setSecurityGroup deps iifName sg =
      draftGroup deps iifName sg >>= saveDrafted deps (sg.sgKey deps.sum64 iifName) ∧
    ((∀ world target rules after, (draftGroup deps iifName sg).run world = .ok (some (target, rules)) after →
        target = sg.target iifName world.router.forwardChainCtPos ∧
          ∃ got, rules = sg.ownRules target (sg.pgVmapName deps.sum64 iifName) got) ↔
      ¬ sg.Overwrites iifName) := by
  refine ⟨setSecurityGroup_eq deps iifName sg, ?_, ?_⟩
  · rintro own ⟨overwritten, ends⟩
    obtain ⟨same, shared, -⟩ := aliases_split overwritten
    have unnamed : (textBytes iifName).length ≤ 15 := by
      simp only [shares, Bool.and_eq_true, decide_eq_true_eq] at shared
      rw [shared.1.1.1]
      decide
    obtain ⟨_, after, ran, -, rfl⟩ := (@draftGroup_quiet deps _ _ _ _ _ same rfl unnamed ends Router.owned_bare).run quiet_bare
    obtain ⟨-, got, read⟩ := own _ _ _ _ ran
    exact compile_ne_own overwritten _ _ got read
  · intro apart world target rules after ran
    have kept := fun names => undisturbed_positions world.router.forwardChainCtPos names
    have drafted := @Undisturbed.draftGroup deps _ _ _ _ sg iifName (kept _) (kept fun _ => True) (fun _ => id)
      (fun _ _ _ => trivial) world rfl
    simp only [ran] at drafted
    obtain ⟨-, rfl, same, got, ends, rfl⟩ := drafted
    refine ⟨rfl, got, ?_⟩
    cases overwritten : sg.aliases iifName with
    | false => exact compile_own same overwritten
    | true =>
      apply compile_lost
      intro table applies
      cases had : got table with
      | false => rfl
      | true => exact absurd ⟨overwritten, ends table applies had⟩ apart

def draftedEnds : EStateM.Result Fault World (Option (Target × List Rule)) → List (List Expr)
  | .ok (some (_, rules)) _ => rules.map fun rule => rule.exprs.drop 8
  | _ => []

/-- The rule for the port reads what the ICMP rule drafted after it was meant to say. -/
theorem overwrittenGroup_drafted :
    let deps : Deps := ⟨.counting, overwrittenSums⟩
    draftedEnds ((draftGroup deps "" overwrittenGroup).run (fresh deps true)) = [icmpExprs .accept, icmpExprs .accept] ∧
      overwrittenGroup.tails .ipv4 (overwrittenGroup.pgVmapName deps.sum64 "" .ipv4) true =
        [portExprs 9 (overwrittenGroup.pgVmapName deps.sum64 "" .ipv4), icmpExprs .accept] := by
  decide +kernel

end MycsCommon.Network
