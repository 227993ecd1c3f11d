import MycsCommon.Proofs.SaveRules

/-! Every way `DeleteFilter` can end. The references of a key are given up one after
another before anything is sent, and the key is gone before the flush. -/

namespace MycsCommon.Network
open Library EStateM Kernel RefCount

/-- How often the rules of all keys name a committed rule. -/
def Router.references (router : Router) (text : String) : Nat := total router.ruleMap fun rule => rule.refKey = text

/-- The reference counts agree with the rules filed under the keys. -/
def Router.Counted (router : Router) : Prop := Exact router.ruleRef router.references

variable {nft : Nft} {router : Router} {kernel : Kernel} {queue : List Msg} {faults : Site → Nat → Bool}
  {calls : Site → Nat} {failed : List (Site × Nat)} {rules : List Rule} {others : String → Nat}

private theorem split_first (others : String → Nat) (rule : Rule) (rules : List Rule) (text : String) :
    others text + (rule :: rules).countP (·.refKey = text) =
      others text + rules.countP (·.refKey = text) + if text = rule.refKey then 1 else 0 := by
  rw [List.countP_cons, ← Nat.add_assoc]
  by_cases same : text = rule.refKey
  · simp [same]
  · simp [same, Ne.symm same]

/-- Either every reference is given up and the rules nobody else refers to are queued
for removal, or a removal is refused on the way. -/
theorem releaseRules_cases (handles : ∀ rule ∈ rules, 0 < rule.handle)
    (exact : Exact router.ruleRef fun text => others text + rules.countP (·.refKey = text)) :
    (∃ refs calls', Exact refs others ∧ (∀ other, other ≠ .deleteDelRule → calls' other = calls other) ∧
      (releaseRules rules).run ⟨router, kernel, queue, faults, calls, failed⟩ =
        .ok () ⟨{ router with ruleRef := refs }, kernel,
          queue ++ (lastHeld Rule.refKey others rules).map remove, faults, calls', failed⟩) ∨
    ∃ done rule rest refs queue' calls' removed, rules = done ++ rule :: rest ∧
      (done = [] → refs = router.ruleRef ∧ queue' = queue) ∧
      (∀ first, done.head? = some first → router.refCount first = 1 → 0 < removed) ∧
      faults .deleteDelRule (calls .deleteDelRule + removed) = true ∧
      (releaseRules rules).run ⟨router, kernel, queue, faults, calls, failed⟩ =
        .error (.error (.nft .deleteDelRule)) ⟨{ router with ruleRef := refs }, kernel, queue', faults, calls',
          failed ++ [(.deleteDelRule, calls .deleteDelRule + removed)]⟩ := by
  induction rules generalizing router queue calls with
  | nil =>
    refine .inl ⟨router.ruleRef, calls, by simpa using exact, fun _ _ => rfl, ?_⟩
    simp [releaseRules, lastHeld]
  | cons rule rules ih =>
    have counted : router.refCount rule = (others rule.refKey + rules.countP (·.refKey = rule.refKey) + 1 : Nat) := by
      unfold Router.refCount
      rw [exact.getD, split_first, if_pos rfl]
    have positive := handles rule (by simp)
    have handles' : ∀ other ∈ rules, 0 < other.handle := fun other member => handles other (by simp [member])
    simp only [releaseRules, run_bind, run_get, counted]
    by_cases last : others rule.refKey + rules.countP (·.refKey = rule.refKey) = 0
    · have one : ((others rule.refKey + rules.countP (·.refKey = rule.refKey) + 1 : Nat) : Int) = 1 := by omega
      have left := exact.release_last (split_first others rule rules) last
      simp only [one, if_true, run_bind, delRule_run]
      cases fault : faults .deleteDelRule (calls .deleteDelRule) with
      | true =>
        refine .inr ⟨[], rule, rules, router.ruleRef, queue, bump calls .deleteDelRule, 0, rfl, fun _ => ⟨rfl, rfl⟩,
          by simp, fault, by simp⟩
      | false =>
        have accepted : (false || rule.handle == 0) = false := by simp; omega
        simp only [accepted, Bool.false_eq_true, if_false, modifyRouter_run]
        rcases @ih { router with ruleRef := router.ruleRef.erase rule.refKey } (queue ++ [remove rule])
            (bump calls .deleteDelRule) handles' left with
          ⟨refs, calls', exact', same, ran⟩ | ⟨done, stop, rest, refs, queue', calls', removed, parts, none, some, fault, ran⟩
        · refine .inl ⟨refs, calls', exact', fun other different => (same other different).trans (bump_ne calls different), ?_⟩
          simp [ran, lastHeld, last]
        · exact .inr ⟨rule :: done, stop, rest, refs, queue', calls', removed + 1, by simp [parts], by simp,
            fun _ _ _ => Nat.succ_pos _, by simpa [Nat.add_assoc, Nat.add_comm 1] using fault,
            by simp [ran, Nat.add_assoc, Nat.add_comm 1]⟩
    · have more : ((others rule.refKey + rules.countP (·.refKey = rule.refKey) + 1 : Nat) : Int) ≠ 1 := by omega
      have left := exact.release (split_first others rule rules) last
      simp only [more, if_false, run_bind, modifyRouter_run]
      have same : ((others rule.refKey + rules.countP (·.refKey = rule.refKey) + 1 : Nat) : Int) - 1 =
          (router.ruleRef.lookup rule.refKey).getD 0 - 1 := by rw [← counted]; rfl
      rw [same]
      rcases @ih { router with ruleRef := router.ruleRef.insert rule.refKey ((router.ruleRef.lookup rule.refKey).getD 0 - 1) }
          queue calls handles' left with
        ⟨refs, calls', exact', same, ran⟩ | ⟨done, stop, rest, refs, queue', calls', removed, parts, none, some, fault, ran⟩
      · refine .inl ⟨refs, calls', exact', same, ?_⟩
        have kept : lastHeld Rule.refKey others (rule :: rules) = lastHeld Rule.refKey others rules :=
          if_neg last
        rw [kept, ran]
      · refine .inr ⟨rule :: done, stop, rest, refs, queue', calls', removed, by simp [parts], by simp, ?_, fault, by simp [ran]⟩
        rintro first found one
        cases found
        exact absurd (counted.symm.trans one) more

/-- The router without a key, with the given counts. -/
def Router.without (router : Router) (key : String) (refs : AList (fun _ : String => Int)) : Router :=
  { router with ruleRef := refs, ruleMap := router.ruleMap.erase key }

/-- The rules of a key that no other key refers to. -/
def Router.leaving (router : Router) (key : String) (rules : List Rule) : List Rule :=
  lastHeld Rule.refKey (router.without key router.ruleRef).references rules

inductive DeleteOutcome (nft : Nft) (key : String) (world : World) : Result Fault World Unit → Prop where
  | unknown (absent : world.router.ruleMap.lookup key = none) :
      DeleteOutcome nft key world (.error (.error (.noFilterRules key)) world)
  | refused {rules done rest : List Rule} {rule : Rule} {refs : AList (fun _ : String => Int)} {queue : List Msg}
      {calls : Site → Nat} {removed : Nat} (held : world.router.ruleMap.lookup key = some rules)
      (parts : rules = done ++ rule :: rest) (first : done = [] → refs = world.router.ruleRef ∧ queue = world.queue)
      (later : ∀ first, done.head? = some first → world.router.refCount first = 1 → 0 < removed)
      (fault : world.faults .deleteDelRule (world.calls .deleteDelRule + removed) = true) :
      DeleteOutcome nft key world (.error (.error (.nft .deleteDelRule))
        { world with
          router := { world.router with ruleRef := refs }, queue, calls
          failed := world.failed ++ [(.deleteDelRule, world.calls .deleteDelRule + removed)] })
  | unsent {rules : List Rule} {refs : AList (fun _ : String => Int)} {calls : Site → Nat}
      (held : world.router.ruleMap.lookup key = some rules) (counted : (world.router.without key refs).Counted)
      (reason : world.faults .deleteFlush (world.calls .deleteFlush) = true ∨ ∃ errno, world.kernel.commit nft
        (world.queue ++ (world.router.leaving key rules).map remove) = .error errno) :
      DeleteOutcome nft key world (.error (.error (.nft .deleteFlush))
        { world with
          router := world.router.without key refs, queue := [], calls
          failed := world.failed ++ [(.deleteFlush, world.calls .deleteFlush)] })
  | deleted {rules : List Rule} {refs : AList (fun _ : String => Int)} {calls : Site → Nat} {after : Kernel}
      (held : world.router.ruleMap.lookup key = some rules) (counted : (world.router.without key refs).Counted)
      (committed : world.kernel.commit nft
        (world.queue ++ (world.router.leaving key rules).map remove) = .ok after) :
      DeleteOutcome nft key world (.ok ()
        { world with router := world.router.without key refs, kernel := after, queue := [], calls })

theorem deleteFilter_outcome {key world} (counted : world.router.Counted)
    (handles : ∀ rule ∈ held world.router.ruleMap key, 0 < rule.handle) :
    DeleteOutcome nft key world ((deleteFilter nft key).run world) := by
  obtain ⟨router, kernel, queue, faults, calls, failed⟩ := world
  simp only [deleteFilter, run_bind, run_get]
  cases held : router.ruleMap.lookup key with
  | none => exact .unknown held
  | some rules =>
    have mine : RefCount.held router.ruleMap key = rules := by simp [RefCount.held, held]
    have exact : Exact router.ruleRef fun text =>
        (router.without key router.ruleRef).references text + rules.countP (·.refKey = text) := by
      intro text
      rw [counted text, Router.references, total_split router.ruleMap key, mine, Nat.add_comm]
      rfl
    simp only [run_bind]
    rcases @releaseRules_cases router kernel queue faults calls failed rules _ (mine ▸ handles) exact with
      ⟨refs, released, left, same, ran⟩ | ⟨done, rule, rest, refs, queue', calls', removed, parts, none, some, fault, ran⟩
    · rw [ran]
      simp only [modifyRouter_run]
      rcases @flush_cases nft (router.without key refs) kernel
          (queue ++ (router.leaving key rules).map remove) faults released failed .deleteFlush with
        ⟨after, calls', committed, -, ran⟩ | ⟨reason, calls', ran⟩
      · exact ran ▸ .deleted held left committed
      · rw [same .deleteFlush (by decide)] at ran reason
        exact ran ▸ .unsent held left reason
    · rw [ran]
      exact .refused held parts none some fault

end MycsCommon.Network
