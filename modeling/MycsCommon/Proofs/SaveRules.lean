import MycsCommon.Proofs.RouterCalls

/-! Every way `saveFilterRules` can end. The rules that are not committed yet are
queued, the queue is flushed, and the handles of all rules are read back; each of the
three stages can fail and leaves something different behind. -/

namespace MycsCommon.Network
open Library List EStateM Kernel Msg RefCount Router Rule

def Kernel.missing (kernel : Kernel) (rules : List Rule) : List Rule :=
  rules.filter fun rule => (kernel.find rule).isNone

/-- The rule with the handle it is committed under. -/
def Kernel.captured (kernel : Kernel) (rule : Rule) : Rule :=
  { rule with handle := ((kernel.find rule).map handle).getD 0 }

@[simp] theorem Kernel.missing_nil (kernel : Kernel) : kernel.missing [] = [] := rfl

theorem Kernel.missing_cons (kernel : Kernel) (rule : Rule) (rules : List Rule) :
    kernel.missing (rule :: rules) =
      if (kernel.find rule).isNone then rule :: kernel.missing rules else kernel.missing rules := by
  simp only [missing, filter_cons]

variable {nft : Nft} {router : Router} {kernel : Kernel} {queue : List Msg} {faults : Site → Nat → Bool}
  {calls : Site → Nat} {failed : List (Site × Nat)} {rules : List Rule} {insert : Bool} {key : String}

section

variable (standard : ∀ rule ∈ kernel.rules, rule.Standard) (built : ∀ rule ∈ rules, rule.Standard)
include standard built

theorem queueMissing_cases :
    (∃ calls', (∀ index < rules.length, faults .saveGetRules (calls .saveGetRules + index) = false) ∧
      (∀ other, other ≠ .saveGetRules → calls' other = calls other) ∧
      (queueMissing nft insert rules).run ⟨router, kernel, queue, faults, calls, failed⟩ =
      .ok () ⟨router, kernel, queue ++ (kernel.missing rules).map (place insert), faults, calls', failed⟩) ∨
    ∃ done rest calls', rules = done ++ rest ∧ rest ≠ [] ∧
      faults .saveGetRules (calls .saveGetRules + done.length) = true ∧
      (queueMissing nft insert rules).run ⟨router, kernel, queue, faults, calls, failed⟩ =
        .error (.error (.nft .saveGetRules))
          ⟨router, kernel, queue ++ (kernel.missing done).map (place insert), faults, calls',
            failed ++ [(.saveGetRules, calls .saveGetRules + done.length)]⟩ := by
  -- along the list; the kernel does not change, only the queue grows
  induction rules generalizing queue calls with
  | nil => exact .inl ⟨calls, by simp, fun _ _ => rfl, by simp [queueMissing]⟩
  | cons rule rules ih =>
    have found := fun world => findRule_run nft world standard (built rule (by simp))
    have later := fun queue' => @ih queue' (bump calls .saveGetRules) fun other member => built other (by simp [member])
    have sent : (if insert then insertRule rule else addRule rule) = place insert rule := rfl
    simp only [queueMissing, run_bind, getRules_run]
    cases fault : faults .saveGetRules (calls .saveGetRules) with
    | true => exact .inr ⟨[], rule :: rules, bump calls .saveGetRules, rfl, by simp, by simpa using fault, by simp⟩
    | false =>
      simp only [Bool.false_eq_true, if_false, found]
      have reads (more : ∀ index < rules.length, faults .saveGetRules (bump calls .saveGetRules .saveGetRules + index) = false) :
          ∀ index < (rule :: rules).length, faults .saveGetRules (calls .saveGetRules + index) = false := by
        rintro (_ | index) below
        · exact fault
        · simpa [Nat.add_assoc, Nat.add_comm 1] using more index (by simpa using below)
      cases present : kernel.find rule with
      | none =>
        have placed := fun others => (missing_cons kernel rule others).trans (if_pos (by simp [present]))
        simp only [Option.isNone_none, if_true, sent, run_bind, enqueue_run]
        rcases later (queue ++ [place insert rule]) with
          ⟨calls', heard, same, ran⟩ | ⟨done, rest, calls', parts, more, fault, ran⟩
        · exact .inl ⟨calls', reads heard, fun other different => (same other different).trans (bump_ne calls different), by
            simpa [placed] using ran⟩
        · exact .inr ⟨rule :: done, rest, calls', by simp [parts], more, by
            simpa [Nat.add_assoc, Nat.add_comm 1] using fault, by
            simpa [placed, Nat.add_assoc, Nat.add_comm 1] using ran⟩
      | some known =>
        have passed := fun others => (missing_cons kernel rule others).trans (if_neg (by simp [present]))
        simp only [Option.isNone_some, Bool.false_eq_true, if_false]
        rcases later queue with ⟨calls', heard, same, ran⟩ | ⟨done, rest, calls', parts, more, fault, ran⟩
        · exact .inl ⟨calls', reads heard, fun other different => (same other different).trans (bump_ne calls different), by
            simpa [passed] using ran⟩
        · exact .inr ⟨rule :: done, rest, calls', by simp [parts], more, by
            simpa [Nat.add_assoc, Nat.add_comm 1] using fault, by
            simpa [passed, Nat.add_assoc, Nat.add_comm 1] using ran⟩

theorem captureHandles_cases
    (committed : ∀ rule ∈ rules, (kernel.find rule).isSome = true) :
    (∃ calls', (captureHandles nft key rules).run ⟨router, kernel, queue, faults, calls, failed⟩ =
      .ok (rules.map kernel.captured)
        ⟨(rules.map kernel.captured).foldl acquire router, kernel, queue, faults, calls', failed⟩) ∨
    ∃ done rest calls', rules = done ++ rest ∧ rest ≠ [] ∧
      faults .saveGetHandles (calls .saveGetHandles + done.length) = true ∧
      (captureHandles nft key rules).run ⟨router, kernel, queue, faults, calls, failed⟩ =
        .error (.error (.nft .saveGetHandles))
          ⟨(done.map kernel.captured).foldl acquire router, kernel, queue, faults, calls',
            failed ++ [(.saveGetHandles, calls .saveGetHandles + done.length)]⟩ := by
  induction rules generalizing router calls with
  | nil => exact .inl ⟨calls, by simp [captureHandles]⟩
  | cons rule rules ih =>
    have found := fun world => findRule_run nft world standard (built rule (by simp))
    obtain ⟨present, finds⟩ := Option.isSome_iff_exists.mp (committed rule (by simp))
    have same : { rule with handle := present.handle } = kernel.captured rule := by simp [captured, finds]
    have later := @ih (router.acquire (kernel.captured rule)) (bump calls .saveGetHandles)
      (fun other member => built other (by simp [member])) (fun other member => committed other (by simp [member]))
    simp only [captureHandles, run_bind, getRules_run]
    cases fault : faults .saveGetHandles (calls .saveGetHandles) with
    | true => exact .inr ⟨[], rule :: rules, bump calls .saveGetHandles, rfl, by simp, by simpa using fault, by simp⟩
    | false =>
      simp only [Bool.false_eq_true, if_false, found, finds, same, run_bind, modifyRouter_run]
      rcases later with ⟨calls', ran⟩ | ⟨done, rest, calls', parts, more, fault, ran⟩
      · exact .inl ⟨calls', by simp [ran]⟩
      · exact .inr ⟨rule :: done, rest, calls', by simp [parts], more, by
          simpa [Nat.add_assoc, Nat.add_comm 1] using fault, by
          simp [ran, Nat.add_assoc, Nat.add_comm 1]⟩

theorem captureHandles_returned : Program.returned ((captureHandles nft key rules).run ⟨router, kernel, queue, faults, calls, failed⟩) = true ↔
    (∀ index < rules.length, faults .saveGetHandles (calls .saveGetHandles + index) = false) ∧
      ∀ rule ∈ rules, (kernel.find rule).isSome = true := by
  induction rules generalizing router calls with
  | nil => simp [captureHandles, Program.returned]
  | cons rule rules ih =>
    have found := fun world => findRule_run nft world standard (built rule (by simp))
    have later := fun router => @ih router (bump calls .saveGetHandles) fun other member => built other (by simp [member])
    simp only [captureHandles, run_bind, getRules_run, length_cons, Nat.forall_lt_succ_left', Nat.add_zero, forall_mem_cons]
    cases faults .saveGetHandles (calls .saveGetHandles) with
    | true => simp [Program.returned]
    | false =>
      simp only [Bool.false_eq_true, if_false, found]
      cases finds : kernel.find rule with
      | none => exact iff_of_false (fun ended => by cases ended) (by simp)
      | some present =>
        have rest := later (router.acquire { rule with handle := present.handle })
        simp only [bump_self, Nat.add_assoc, Nat.add_comm 1] at rest
        simp only [run_bind, modifyRouter_run, true_and, Option.isSome_some, ← rest]
        split
        next ends =>
          rw [ends]
          rfl
        next ends => rw [ends]

end

/-- What a save relies on: committed rules to compare with, and no rule waiting in the queue. -/
structure Savable (world : World) (rules : List Rule) : Prop where
  numbered : world.kernel.Numbered
  quiet : ∀ msg ∈ world.queue, msg.ruleFree = true
  built : ∀ rule ∈ rules, rule.Standard

/-- What it relies on to save no rule twice: committed rules that can be told apart, and
rules to save that differ from each other. -/
structure Ready (world : World) (rules : List Rule) : Prop where
  sound : world.kernel.Sound
  quiet : ∀ msg ∈ world.queue, msg.ruleFree = true
  built : ∀ rule ∈ rules, rule.Standard
  distinct : (rules.map content).Nodup

theorem Ready.savable {world} (ready : Ready world rules) : Savable world rules :=
  ⟨ready.sound.toNumbered, ready.quiet, ready.built⟩

def World.batch (world : World) (rules : List Rule) (insert : Bool) : List Msg :=
  world.queue ++ (world.kernel.missing rules).map (place insert)

theorem Kernel.missing_absent {rule} (member : rule ∈ kernel.missing rules) :
    rule.content ∉ kernel.rules.map content := by
  intro present
  have absent := Option.isNone_iff_eq_none.mp (mem_filter.mp member).2
  have finds := find_isSome.mpr present
  simp [absent] at finds

theorem Savable.commit {world after} (savable : Savable world rules)
    (committed : world.kernel.commit nft (world.batch rules insert) = .ok after) :
    after.Numbered ∧ (∀ rule ∈ rules, (after.find rule).isSome = true) ∧
      ∃ placed, placed.map content = (world.kernel.missing rules).map content ∧
        after.rules.Perm (placed ++ world.kernel.rules) := by
  obtain ⟨middle, setup, rest⟩ := commit_append committed
  obtain ⟨sameRules, -⟩ := commit_ruleFree savable.quiet setup
  have middleNumbered : middle.Numbered := savable.numbered.of_sublist (sameRules ▸ .refl _)
  obtain ⟨numbered, -, -, placed, contents, stands⟩ := middleNumbered.place_all
    (fun rule member => savable.built rule (mem_filter.mp member).1) rest
  rw [sameRules] at stands
  refine ⟨numbered, ?_, placed, contents, stands⟩
  intro rule member
  rw [find_isSome, (stands.map content).mem_iff, map_append, mem_append, contents]
  cases present : world.kernel.find rule with
  | none => exact .inl (mem_map.mpr ⟨rule, mem_filter.mpr ⟨member, by simp [present]⟩, rfl⟩)
  | some found => exact .inr (find_isSome.mp (by simp [present]))

theorem Ready.commit {world after} (ready : Ready world rules)
    (committed : world.kernel.commit nft (world.batch rules insert) = .ok after) :
    after.Sound ∧ (∀ rule ∈ rules, (after.find rule).isSome = true) ∧
      ∃ placed, placed.map content = (world.kernel.missing rules).map content ∧
        after.rules.Perm (placed ++ world.kernel.rules) := by
  obtain ⟨numbered, found, placed, contents, stands⟩ := ready.savable.commit committed
  refine ⟨⟨numbered, ?_⟩, found, placed, contents, stands⟩
  rw [(stands.map content).nodup_iff, map_append, contents]
  have subset : (world.kernel.missing rules).Sublist rules := filter_sublist
  refine nodup_append.mpr ⟨ready.distinct.sublist (subset.map content), ready.sound.contents, ?_⟩
  rintro content missing other present rfl
  obtain ⟨rule, member, rfl⟩ := mem_map.mp missing
  exact missing_absent member present

/-- The state after a save, when nothing failed. -/
def World.saved (world : World) (key : String) (rules : List Rule) (after : Kernel) : World :=
  { world with
    router := if rules = [] then world.router
      else ((rules.map after.captured).foldl acquire world.router).file key (rules.map after.captured)
    kernel := after
    queue := [] }

theorem acquire_refs (rules : List Rule) (router : Router) :
    ∃ refs, rules.foldl acquire router = { router with ruleRef := refs } := by
  induction rules generalizing router with
  | nil => exact ⟨router.ruleRef, rfl⟩
  | cons rule rules ih =>
    obtain ⟨refs, acquired⟩ := ih (router.acquire rule)
    exact ⟨refs, acquired⟩

theorem saved_fields (world : World) (key : String) (rules : List Rule) (after : Kernel) :
    ∃ refs, (world.saved key rules after).router = { world.router with
      ruleRef := refs
      ruleMap := if rules = [] then world.router.ruleMap
        else world.router.ruleMap.insert key (held world.router.ruleMap key ++ rules.map after.captured) } := by
  unfold World.saved
  by_cases none : rules = []
  · exact ⟨world.router.ruleRef, by simp [none]⟩
  · obtain ⟨refs, acquired⟩ := acquire_refs (rules.map after.captured) world.router
    exact ⟨refs, by simp [none, acquired, file]⟩

theorem mem_filed_saved (world : World) (key : String) (rules : List Rule) (after : Kernel) (other : String)
    (content : Family × String × List Expr) :
    content ∈ (RefCount.held (world.saved key rules after).router.ruleMap other).map Rule.content ↔
      content ∈ (RefCount.held world.router.ruleMap other).map Rule.content ∨ key = other ∧ content ∈ rules.map Rule.content := by
  obtain ⟨refs, router⟩ := saved_fields world key rules after
  rw [router]
  simp only []
  split
  next none => simp [none]
  next =>
    rw [held_insert]
    split
    next same =>
      subst same
      rw [map_append, mem_append, map_map]
      simp only [true_and]
      rfl
    next different => simp [Ne.symm different]

inductive SaveOutcome (nft : Nft) (key : String) (rules : List Rule) (insert : Bool) (world : World) :
    Result Fault World Unit → Prop where
  | unread {done rest : List Rule} {calls : Site → Nat} (parts : rules = done ++ rest) (more : rest ≠ [])
      (fault : world.faults .saveGetRules (world.calls .saveGetRules + done.length) = true) :
      SaveOutcome nft key rules insert world (.error (.error (.nft .saveGetRules))
        { world with
          queue := world.batch done insert, calls
          failed := world.failed ++ [(.saveGetRules, world.calls .saveGetRules + done.length)] })
  | unsent {calls : Site → Nat} (reason : world.faults .saveFlush (world.calls .saveFlush) = true ∨
        ∃ errno, world.kernel.commit nft (world.batch rules insert) = .error errno) :
      SaveOutcome nft key rules insert world (.error (.error (.nft .saveFlush))
        { world with
          queue := [], calls
          failed := world.failed ++ [(.saveFlush, world.calls .saveFlush)] })
  | unread_handles {done rest : List Rule} {calls : Site → Nat} {after : Kernel}
      (committed : world.kernel.commit nft (world.batch rules insert) = .ok after)
      (parts : rules = done ++ rest) (more : rest ≠ [])
      (fault : world.faults .saveGetHandles (world.calls .saveGetHandles + done.length) = true) :
      SaveOutcome nft key rules insert world (.error (.error (.nft .saveGetHandles))
        { world with
          router := (done.map after.captured).foldl acquire world.router
          kernel := after, queue := [], calls
          failed := world.failed ++ [(.saveGetHandles, world.calls .saveGetHandles + done.length)] })
  | saved {calls : Site → Nat} {after : Kernel}
      (committed : world.kernel.commit nft (world.batch rules insert) = .ok after) :
      SaveOutcome nft key rules insert world (.ok () { world.saved key rules after with calls })

def Calm (faults : Site → Nat → Bool) : Prop :=
  ∀ index, faults .saveGetRules index = false ∧ faults .saveFlush index = false ∧ faults .saveGetHandles index = false

theorem saveFilterRules_ends {world} (savable : Savable world rules) :
    SaveOutcome nft key rules insert world ((saveFilterRules nft key rules insert).run world) := by
  obtain ⟨router, kernel, queue, faults, calls, failed⟩ := world
  simp only [saveFilterRules, run_bind]
  rcases @queueMissing_cases nft router kernel queue faults calls failed rules insert savable.numbered.standard savable.built with
    ⟨queued, -, same, ran⟩ | ⟨done, rest, calls', parts, more, fault, ran⟩
  · rw [ran]
    simp only []
    rcases @flush_cases nft router kernel (queue ++ (kernel.missing rules).map (place insert)) faults queued failed
      .saveFlush with ⟨after, sent, committed, others, ran⟩ | ⟨reason, calls', ran⟩
    · rw [ran]
      simp only []
      obtain ⟨numbered, found, -⟩ := savable.commit committed
      cases rules with
      | nil => exact .saved committed
      | cons rule rules =>
        simp only [length_cons, Nat.zero_lt_succ, if_true, run_bind]
        rcases @captureHandles_cases nft router after [] faults sent failed (rule :: rules) key numbered.standard savable.built
          found with ⟨calls', ran⟩ | ⟨done, rest, calls', parts, more, fault, ran⟩
        · rw [ran]
          exact .saved committed
        · rw [others .saveGetHandles (by decide), same .saveGetHandles (by decide)] at ran fault
          rw [ran]
          exact .unread_handles committed parts more fault
    · rw [same .saveFlush (by decide)] at ran reason
      rw [ran]
      exact .unsent reason
  · rw [ran]
    exact .unread parts more fault

/-- A save goes through exactly if its calls do and every rule is there when it looks for it again. -/
theorem saveFilterRules_returned {world} (numbered : world.kernel.Numbered) (standard : ∀ msg ∈ world.queue, msg.Standard)
    (built : ∀ rule ∈ rules, rule.Standard) (some : rules ≠ []) (waiting : world.queue ≠ []) :
    Program.returned ((saveFilterRules nft key rules insert).run world) = true ↔
      (∀ index < rules.length, world.faults .saveGetRules (world.calls .saveGetRules + index) = false ∧
        world.faults .saveGetHandles (world.calls .saveGetHandles + index) = false) ∧
      world.faults .saveFlush (world.calls .saveFlush) = false ∧
      ∃ after, world.kernel.commit nft (world.batch rules insert) = .ok after ∧ ∀ rule ∈ rules, (after.find rule).isSome = true := by
  obtain ⟨router, kernel, queue, faults, calls, failed⟩ := world
  simp only [saveFilterRules, run_bind]
  rcases @queueMissing_cases nft router kernel queue faults calls failed rules insert numbered.standard built with
    ⟨queued, heard, same, ran⟩ | ⟨done, rest, calls', parts, more, fault, ran⟩
  · rw [ran]
    simp only []
    rcases @flush_ran nft .saveFlush ⟨router, kernel, queue ++ (kernel.missing rules).map (place insert), faults, queued, failed⟩ with
      ⟨⟨-, reason⟩, ran⟩ | ⟨sends, after, sent, committed, others, ran⟩
    · rw [ran]
      simp only [same .saveFlush (by decide)] at reason
      refine iff_of_false (by simp [Program.returned]) ?_
      rintro ⟨-, goes, after, committed, -⟩
      rcases reason with fault | ⟨errno, refused⟩
      · simp [goes] at fault
      · cases refused.symm.trans committed
    · have after_standard : after.Numbered := by
        refine numbered.commit ?_ committed
        intro msg member
        rcases mem_append.mp member with old | new
        · exact standard msg old
        · obtain ⟨rule, missing, rfl⟩ := mem_map.mp new
          cases insert <;> exact built rule (mem_filter.mp missing).1
      have goes : faults .saveFlush (calls .saveFlush) = false := by
        by_contra fault
        refine sends ⟨by simp [waiting], .inl ?_⟩
        simpa [same .saveFlush (by decide)] using fault
      have captured := @captureHandles_returned nft router after [] faults sent failed rules key after_standard.standard built
      rw [(others .saveGetHandles (by decide)).trans (same .saveGetHandles (by decide))] at captured
      rw [ran]
      simp only [length_pos_iff.mpr some, if_true, run_bind, goes, true_and]
      refine Iff.trans ?_ (captured.trans ?_)
      · cases (captureHandles nft key rules).run ⟨router, after, [], faults, sent, failed⟩ <;> rfl
      · constructor
        · rintro ⟨reads, finds⟩
          exact ⟨fun index below => ⟨heard index below, reads index below⟩, after, committed, finds⟩
        · rintro ⟨reads, final, accepted, finds⟩
          cases accepted.symm.trans committed
          exact ⟨fun index below => (reads index below).2, finds⟩
  · rw [ran]
    refine iff_of_false (by simp [Program.returned]) ?_
    rintro ⟨reads, -⟩
    have below : done.length < rules.length := by
      rw [parts, length_append]
      have := length_pos_iff.mpr more
      omega
    simp [(reads done.length below).1] at fault

theorem saveFilterRules_outcome {world} (ready : Ready world rules) :
    SaveOutcome nft key rules insert world ((saveFilterRules nft key rules insert).run world) :=
  saveFilterRules_ends ready.savable

theorem saveFilterRules_calm {world} (savable : Savable world rules) (calm : Calm world.faults) :
    (∃ calls after, world.kernel.commit nft (world.batch rules insert) = .ok after ∧
      (saveFilterRules nft key rules insert).run world = .ok () { world.saved key rules after with calls }) ∨
    ∃ errno calls failed, world.kernel.commit nft (world.batch rules insert) = .error errno ∧
      (saveFilterRules nft key rules insert).run world =
        .error (.error (.nft .saveFlush)) { world with queue := [], calls, failed } := by
  have outcome : SaveOutcome nft key rules insert world _ := saveFilterRules_ends savable
  generalize (saveFilterRules nft key rules insert).run world = result at outcome
  cases outcome with
  | unread parts more fault => simp [(calm _).1] at fault
  | unsent reason =>
    rcases reason with fault | ⟨errno, refused⟩
    · simp [(calm _).2.1] at fault
    · exact .inr ⟨errno, _, _, refused, rfl⟩
  | unread_handles committed parts more fault => simp [(calm _).2.2] at fault
  | saved committed => exact .inl ⟨_, _, committed, rfl⟩

theorem saveFilterRules_saved {world after} (savable : Savable world rules) (calm : Calm world.faults)
    (committed : world.kernel.commit nft (world.batch rules insert) = .ok after) :
    ∃ calls, (saveFilterRules nft key rules insert).run world = .ok () { world.saved key rules after with calls } := by
  rcases @saveFilterRules_calm nft rules insert key world savable calm with
    ⟨calls, final, accepted, ran⟩ | ⟨errno, calls, -, refused, -⟩
  · cases accepted.symm.trans committed
    exact ⟨calls, ran⟩
  · cases refused.symm.trans committed

end MycsCommon.Network
