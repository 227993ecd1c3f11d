import MycsCommon.Proofs.AddressLists
import MycsCommon.Proofs.FailedCalls
import MycsCommon.Proofs.FiledRules

/-! Failing calls in the operations on the deny list and the allow list. Errors of the
set calls are assigned to nothing, a set whose size cannot be read counts as empty, and
the allow list drops the error of saving its rules. -/

namespace MycsCommon.Network
open Library Program List EStateM IPList Kernel World

variable {deps : Deps} {nft : Nft} {list : IPList} {ips : List Addr} {world : World}

/-- The only messages that wait delete rules, and the sets are these. -/
def Removing (sets : Family → String → Option Elements) (world : World) : Prop :=
  world.kernel.sets = sets ∧ ∃ gone : List Rule, world.queue = gone.map remove

theorem removing_steady (sets : Family → String → Option Elements) :
    Steady nft (fun msg => ∃ rule, msg = remove rule) (fun _ => True) (Removing sets) where
  counts _ _ holds := holds
  logs _ _ holds := holds
  queues world msg removes holds := by
    obtain ⟨rule, rfl⟩ := removes
    obtain ⟨same, gone, queued⟩ := holds
    exact ⟨same, gone ++ [rule], by simp [queued]⟩
  sends world after committed holds := by
    obtain ⟨same, gone, queued⟩ := holds
    rw [queued] at committed
    exact ⟨by rw [commit_remove committed]; exact same, [], rfl⟩
  drops world holds := ⟨holds.1, [], rfl⟩
  refs _ _ holds := holds
  files _ _ _ _ holds := holds
  erases _ _ holds := holds

theorem deleteFilter_removing (sets : Family → String → Option Elements) (key : String) :
    Keeps (Removing sets) (deleteFilter nft key) :=
  (removing_steady sets).deleteFilter fun _ _ rule _ _ => ⟨rule, rfl⟩

/-! The states of a run. -/

/-- An initialised router whose list sets are committed and stay. -/
structure Stocked (world : World) : Prop where
  made : world.router.made = true
  tables : world.router.tables = true
  sets : ∀ (list : IPList) table, (world.kernel.sets table list.name).isSome = true
  numbered : world.kernel.Numbered
  sparing : ∀ msg ∈ world.queue, msg.sparing = true ∧ msg.Standard

theorem Stocked.begun {faults} (stocked : Stocked world) : Stocked (world.begin faults) :=
  ⟨stocked.made, stocked.tables, stocked.sets, stocked.numbered, stocked.sparing⟩

theorem commit_sparing {kernel after : Kernel} {queue} (committed : kernel.commit nft queue = .ok after)
    (sparing : ∀ msg ∈ queue, msg.sparing = true ∧ msg.Standard) {table name} (there : (kernel.sets table name).isSome = true) :
    (after.sets table name).isSome = true := by
  rw [commit_leaves committed, there]
  clear committed
  induction queue with
  | nil => rfl
  | cons msg queue ih =>
    rw [foldl_cons, leaves_of_sparing (sparing msg (by simp)).1]
    exact ih fun other member => sparing other (by simp [member])

theorem stocked_steady (nft : Nft) : Steady nft (fun msg => msg.sparing = true ∧ msg.Standard) (fun _ => True) Stocked where
  counts _ _ stocked := ⟨stocked.made, stocked.tables, stocked.sets, stocked.numbered, stocked.sparing⟩
  logs _ _ stocked := ⟨stocked.made, stocked.tables, stocked.sets, stocked.numbered, stocked.sparing⟩
  queues world msg sparing stocked := by
    refine ⟨stocked.made, stocked.tables, stocked.sets, stocked.numbered, fun other member => ?_⟩
    rcases mem_append.mp member with old | new
    · exact stocked.sparing other old
    · exact mem_singleton.mp new ▸ sparing
  sends world after committed stocked :=
    ⟨stocked.made, stocked.tables, fun list table => commit_sparing committed stocked.sparing (stocked.sets list table),
      stocked.numbered.commit (fun msg member => (stocked.sparing msg member).2) committed, by simp⟩
  drops world stocked := ⟨stocked.made, stocked.tables, stocked.sets, stocked.numbered, by simp⟩
  refs _ _ stocked := ⟨stocked.made, stocked.tables, stocked.sets, stocked.numbered, stocked.sparing⟩
  files _ _ _ _ stocked := ⟨stocked.made, stocked.tables, stocked.sets, stocked.numbered, stocked.sparing⟩
  erases _ _ stocked := ⟨stocked.made, stocked.tables, stocked.sets, stocked.numbered, stocked.sparing⟩

theorem stocked_sendBoth {site} {send} (sparing : ∀ table, (send table).sparing = true ∧ (send table).Standard) :
    Keeps Stocked (sendBoth site send) := by
  have steady := stocked_steady .counting
  apply Keeps.forM
  intro table _
  apply Triple.read
  intro state stocked
  simp only [stocked.made, Bool.not_true, Bool.false_eq_true, if_false]
  apply Triple.bind (fun _ => Stocked)
  · apply keeps_attempt
    rintro ⟨router, kernel, queue, faults, calls, failed⟩ holds
    rw [queueCall_run]
    cases faults site (calls site) with
    | true => exact steady.logs _ _ (steady.counts _ _ holds)
    | false => exact steady.counts _ _ (steady.queues _ _ (sparing table) holds)
  · exact fun _ => Triple.skip _

theorem addMsg_sparing (table : Family) : (list.addMsg ips table).sparing = true ∧ (list.addMsg ips table).Standard :=
  ⟨rfl, trivial⟩

theorem deleteMsg_sparing (table : Family) : (list.deleteMsg ips table).sparing = true ∧ (list.deleteMsg ips table).Standard :=
  ⟨rfl, trivial⟩

theorem stocked_setSize (list : IPList) (table : Family) : Keeps Stocked (setSize list table) := by
  have steady := stocked_steady .counting
  apply Triple.bind _ (keeps_attempt (keeps_getSetElements steady.counts steady.logs .ipSetGetElements table list.name))
  intro read
  cases read <;> exact Triple.skip _

theorem stocked_saveFilterRules (key : String) (list : IPList) : Keeps Stocked (saveFilterRules nft key list.rules false) :=
  (stocked_steady nft).saveFilterRules (fun rule member => ⟨rfl, (list.offered.built rule member).toStandard⟩)
    fun _ _ _ _ _ _ => trivial

theorem stocked_call (list : IPList) (call : ListCall) : Keeps Stocked ((call.op list).exec deps) := by
  cases call with
  | add ips =>
    rw [add_exec]
    split
    · apply Triple.bind _ (stocked_sendBoth addMsg_sparing)
      intro _
      apply Triple.read
      intro state _
      split
      · apply Triple.bind _ Undisturbed.getChain
        intro _
        cases list with
        | deny => exact stocked_saveFilterRules _ .deny
        | allow =>
          apply Triple.bind _ (keeps_attempt (stocked_saveFilterRules _ .allow))
          exact fun _ => Triple.skip _
      · exact Triple.skip _
    · exact Triple.skip _
  | delete ips =>
    rw [delete_exec, deleteIPsFromList, deleteIPSetElements_eq]
    apply Triple.bind (fun _ => Stocked)
    · apply Triple.bind _ (stocked_sendBoth deleteMsg_sparing)
      intro _
      apply Triple.bind _ ((stocked_steady deps.nft).flush .ipSetFlush)
      intro _
      apply Triple.bind _ (stocked_setSize list .ipv4)
      intro _
      apply Triple.bind _ (stocked_setSize list .ipv6)
      exact fun _ => Triple.skip _
    · rintro ⟨-⟩
      dsimp only
      split
      · exact (stocked_steady deps.nft).deleteFilter fun _ _ _ _ _ => ⟨rfl, trivial⟩
      · exact Triple.skip _

theorem Fresh.stocked {denyAll} (fresh : Fresh deps denyAll world) : Stocked world := by
  have tracks := fun list => @Fresh.tracks deps list world denyAll fresh
  refine ⟨(tracks .deny).made, (tracks .deny).tables, fun list table => ?_, (tracks .deny).books.sound.toNumbered,
    fun msg member => ?_⟩
  · obtain ⟨elements, known, -⟩ := (tracks list).plain table
    rw [known]
    rfl
  · obtain ⟨-, table, rfl, -⟩ := (tracks .deny).waiting msg member
    exact ⟨rfl, trivial⟩

/-- A step that is an operation on one of the lists. -/
def OnLists (_ : World) (step : Step) : Prop := ∃ (list : IPList) (call : ListCall), step.op = call.op list

theorem Reaches.stocked {denyAll start} (fresh : Fresh deps denyAll start)
    (reached : Reaches deps OnLists start world) : Stocked world := by
  induction reached with
  | refl => exact fresh.stocked
  | tail _ taken ih =>
    obtain ⟨⟨-, faults⟩, ⟨list, call, rfl⟩, rfl⟩ := taken
    exact (stocked_call list call).final ih.begun

/-! One operation. -/

theorem World.tried_failed {site} : (world.tried site).failed = [] ↔
    world.failed = [] ∧ world.faults site (world.calls site) = false := by
  cases failing : world.faults site (world.calls site) <;> simp [tried, failing]

theorem World.mem_sent {site sent msg} (member : msg ∈ (world.sent site sent).queue) :
    msg ∈ world.queue ∨ msg = sent := by
  simp only [World.sent] at member
  split at member
  · exact .inl member
  · simpa using member

theorem World.mem_sentBoth {site} {send} {msg} (member : msg ∈ (world.sentBoth site send).queue) :
    msg ∈ world.queue ∨ ∃ table, msg = send table := by
  rcases mem_sent member with first | rfl
  · rcases mem_sent first with old | rfl
    · exact .inl old
    · exact .inr ⟨_, rfl⟩
  · exact .inr ⟨_, rfl⟩

theorem Stocked.sentBoth {site} {send} (stocked : Stocked world)
    (sparing : ∀ table, (send table).sparing = true ∧ (send table).Standard) :
    ∀ msg ∈ (world.sentBoth site send).queue, msg.sparing = true ∧ msg.Standard := by
  intro msg member
  rcases mem_sentBoth member with old | ⟨table, rfl⟩
  · exact stocked.sparing msg old
  · exact sparing table

theorem World.sentBoth_failed {site} {send} : (world.sentBoth site send).failed = [] ↔
    world.failed = [] ∧ world.faults site (world.calls site) = false ∧ world.faults site (world.calls site + 1) = false := by
  have second : (world.sentBoth site send).failed = ((world.sent site (send .ipv4)).tried site).failed := rfl
  have first : (world.sent site (send .ipv4)).failed = (world.tried site).failed := rfl
  rw [second, tried_failed, first, tried_failed, and_assoc]
  simp [sent, tried]

theorem commit_stays {kernel after : Kernel} {queue rule} (committed : kernel.commit nft queue = .ok after)
    (sparing : ∀ msg ∈ queue, msg.sparing = true ∧ msg.Standard) (wanted : remove rule ∉ queue) (stands : rule ∈ kernel.rules) :
    rule ∈ after.rules := by
  refine commit_keeps (fun kernel => rule ∈ kernel.rules) ?_ stands committed
  intro msg member before next stands applied
  have placed : ∀ insert new, before.apply nft (Msg.place insert new) = .ok next → rule ∈ next.rules := by
    intro insert new applied
    obtain ⟨front, back, old, entered, -⟩ := apply_place applied
    rw [old] at stands
    rw [entered]
    simp only [mem_append, mem_cons] at stands ⊢
    tauto
  cases msg with
  | addTable | addChain | addSet | delSet | setAddElements | setDeleteElements =>
    rw [(apply_ruleFree rfl applied).1]
    exact stands
  | delTable => exact absurd (sparing _ member).1 (by simp [Msg.sparing])
  | addRule new => exact placed false new applied
  | insertRule new => exact placed true new applied
  | delRule table chain handle =>
    simp only [apply] at applied
    split at applied
    · cases applied
      refine mem_filter.mpr ⟨stands, ?_⟩
      -- the message names the rule by its chain and its handle
      by_contra target
      simp only [Rule.inChain, Bool.not_eq_true', Bool.not_eq_false, Bool.and_eq_true, beq_iff_eq] at target
      obtain ⟨⟨rfl, rfl⟩, rfl⟩ := target
      exact wanted member
    · cases applied

theorem deleteFilter_refused (key : String) (kernel : Kernel) :
    Triple (fun world => world.kernel = kernel) (deleteFilter nft key) (fun _ _ => True) (fun _ world => world.kernel = kernel) := by
  have released : ∀ rules, Keeps (fun world : World => world.kernel = kernel) (releaseRules rules) := by
    intro rules
    induction rules with
    | nil => exact Triple.skip _
    | cons rule rules ih =>
      apply Triple.read
      intro state _
      simp only []
      split
      · refine Triple.bind (fun _ world => world.kernel = kernel) ?_ fun _ => ?_
        · rintro ⟨router, kernel, queue, faults, calls, failed⟩ rfl
          rw [delRule_run]
          cases faults .deleteDelRule (calls .deleteDelRule) || rule.handle == 0 <;> rfl
        · exact Triple.bind (fun _ world => world.kernel = kernel) (Triple.modify _ fun _ => id) fun _ => ih
      · exact Triple.bind (fun _ world => world.kernel = kernel) (Triple.modify _ fun _ => id) fun _ => ih
  apply Triple.read
  intro state _
  cases state.router.ruleMap.lookup key with
  | none => exact Triple.throw _ fun _ => id
  | some rules =>
    refine Triple.bind (fun _ world => world.kernel = kernel) ((released rules).consequence (fun _ => id)
      (fun _ _ holds => holds) fun _ _ holds => holds) fun _ => ?_
    refine Triple.bind (fun (_ : Unit) (world : World) => world.kernel = kernel) (Triple.modify _ fun _ => id) fun _ => ?_
    rintro ⟨router, kernel, queue, faults, calls, failed⟩ rfl
    rcases @flush_cases nft router kernel queue faults calls failed .deleteFlush with ⟨after, calls', -, -, ran⟩ | ⟨-, calls', ran⟩
    · rw [ran]
      trivial
    · rw [ran]

/-- The state a deletion decides in whether the rules go, too: both sizes have been asked for. -/
def World.sized (world : World) (kernel : Kernel) (calls : Site → Nat) : World :=
  (({ world with kernel, queue := [], calls } : World).tried .ipSetGetElements).tried .ipSetGetElements

theorem delete_ran (stocked : Stocked world) :
    (∃ fault after, (deleteIPsFromList deps list ips).run world = .error fault after ∧ after.kernel = world.kernel) ∨
    ∃ (middle : Kernel) (calls : Site → Nat) (elements : Family → Elements) (size4 size6 : Nat),
      world.kernel.commit deps.nft (world.sentBoth .ipSetDeleteElements (list.deleteMsg ips)).queue = .ok middle ∧
      (∀ table, middle.sets table list.name = some (elements table)) ∧
      calls .ipSetGetElements = world.calls .ipSetGetElements ∧
      (world.faults .ipSetGetElements (world.calls .ipSetGetElements) = false → size4 = (elements .ipv4).entries.length) ∧
      (world.faults .ipSetGetElements (world.calls .ipSetGetElements + 1) = false → size6 = (elements .ipv6).entries.length) ∧
      (deleteIPsFromList deps list ips).run world =
        (if size4 = 0 ∧ size6 = 0 then deleteFilter deps.nft list.name else pure ()).run
          ((world.sentBoth .ipSetDeleteElements (list.deleteMsg ips)).sized middle calls) := by
  have queued := @sendBoth_ran world .ipSetDeleteElements (list.deleteMsg ips) stocked.made
  generalize sets : world.sentBoth .ipSetDeleteElements (list.deleteMsg ips) = sent at queued ⊢
  have kept : sent.kernel = world.kernel ∧ sent.faults = world.faults ∧
      sent.calls .ipSetGetElements = world.calls .ipSetGetElements := by
    subst sets
    exact ⟨rfl, rfl, rfl⟩
  have sparing : ∀ msg ∈ sent.queue, msg.sparing = true ∧ msg.Standard := by
    subst sets
    exact stocked.sentBoth deleteMsg_sparing
  obtain ⟨router, kernel, queue, faults, calls, failed⟩ := sent
  obtain ⟨rfl, rfl, counted⟩ := kept
  simp only [deleteIPsFromList, deleteIPSetElements_eq, run_bind, queued]
  rcases @flush_cases deps.nft router world.kernel queue world.faults calls failed .ipSetFlush with
    ⟨middle, calls', committed, same, ran⟩ | ⟨-, calls', ran⟩
  · choose elements known using fun table =>
      Option.isSome_iff_exists.mp (commit_sparing committed sparing (stocked.sets list table))
    have index := (same _ (by decide)).trans counted
    have size4 := @setSize_ran list ⟨router, middle, [], world.faults, calls', failed⟩ .ipv4 _ (known .ipv4)
    have size6 := @setSize_ran list (tried ⟨router, middle, [], world.faults, calls', failed⟩ .ipSetGetElements)
      .ipv6 _ (known .ipv6)
    refine .inr ⟨middle, calls', elements, _, _, committed, known, index, ?_, ?_, by simp only [ran, size4, size6]; rfl⟩
    · intro heard
      simp [index, heard]
    · intro heard
      simp [tried, index, heard]
  · simp only [ran]
    exact .inl ⟨_, _, rfl, rfl⟩

/-- What a failing call must not lead to. A deletion takes a committed rule away, other
than one already asked to go, only if it leaves both sets empty. An operation that
returns nil has seen no call fail, and after an addition the rules are saved. -/
structure FailSafe (list : IPList) (call : ListCall) (before : World) (result : Result Fault World Unit) : Prop where
  removes : ∀ ips, call = .delete ips → ∀ rule ∈ before.kernel.rules, remove rule ∉ before.queue →
    rule ∉ (final result).kernel.rules →
      ∀ table elements, (final result).kernel.sets table list.name = some elements → elements.entries = []
  reports : returned result = true → (final result).failed = [] ∧
    ∀ ips, call = .add ips → ips ≠ [] → ((final result).router.ruleMap.lookup list.name).isSome = true

/-- The rules of the list can be saved: no call that reads their chains or flushes fails, and the kernel takes what
waits, the elements and the rules that it lacks, and then has all of them. -/
def Saves (nft : Nft) (list : IPList) (ips : List Addr) (before : World) (faults : Site → Nat → Bool) : Prop :=
  (∀ index < list.rules.length, faults .saveGetRules index = false ∧ faults .saveGetHandles index = false) ∧
    faults .saveFlush 0 = false ∧
    ∃ after, before.kernel.commit nft (before.queue ++ [list.addMsg ips .ipv4, list.addMsg ips .ipv6] ++
        (before.kernel.missing list.rules).map .addRule) = .ok after ∧
      ∀ rule ∈ list.rules, (after.find rule).isSome = true

/-- No call fails whose error is dropped, and the rules of the allow list can be saved when they have to be. -/
def Audible (nft : Nft) (list : IPList) (before : World) (faults : Site → Nat → Bool) : ListCall → Prop
  | .add ips => ips ≠ [] → (faults .ipSetAddElements 0 = false ∧ faults .ipSetAddElements 1 = false) ∧
      (list = .allow → before.router.ruleMap.lookup list.name = none → Saves nft list ips before faults)
  | .delete _ => (faults .ipSetDeleteElements 0 = false ∧ faults .ipSetDeleteElements 1 = false) ∧
      faults .ipSetGetElements 0 = false ∧ faults .ipSetGetElements 1 = false

variable {faults : Site → Nat → Bool} {after : World}

theorem saves_iff (stocked : Stocked world) (heard : faults .ipSetAddElements 0 = false ∧ faults .ipSetAddElements 1 = false) :
    returned ((saveFilterRules nft list.name list.rules false).run
      ((world.begin faults).sentBoth .ipSetAddElements (list.addMsg ips))) = true ↔ Saves nft list ips world faults := by
  have queued : ((world.begin faults).sentBoth .ipSetAddElements (list.addMsg ips)).queue =
      world.queue ++ [list.addMsg ips .ipv4, list.addMsg ips .ipv6] := by
    simp [sentBoth, sent, tried, begin, heard]
  have standard : ∀ msg ∈ ((world.begin faults).sentBoth .ipSetAddElements (list.addMsg ips)).queue, msg.Standard :=
    fun msg member => (stocked.begun.sentBoth addMsg_sparing msg member).2
  have numbered : ((world.begin faults).sentBoth .ipSetAddElements (list.addMsg ips)).kernel.Numbered := stocked.numbered
  rw [saveFilterRules_returned numbered standard (fun rule member => (list.offered.built rule member).toStandard)
    list.rules_ne (by simp [queued]), World.batch, queued]
  have places : Msg.place false = Msg.addRule := rfl
  simp [Saves, sentBoth, sent, tried, begin, bump, places]

theorem commit_deletes_stays {kernel : Kernel} {rule} (stocked : Stocked world)
    (committed : world.kernel.commit nft (world.sentBoth .ipSetDeleteElements (list.deleteMsg ips)).queue = .ok kernel)
    (wanted : remove rule ∉ world.queue) (stands : rule ∈ world.kernel.rules) : rule ∈ kernel.rules := by
  refine commit_stays committed (stocked.sentBoth deleteMsg_sparing) ?_ stands
  intro member
  rcases mem_sentBoth member with old | ⟨table, same⟩
  · exact wanted old
  · cases same

theorem failSafe_of_error {call fault} (stocked : Stocked world)
    (ran : world.run deps ⟨call.op list, faults⟩ = .error fault after) :
    FailSafe list call world (.error fault after) := by
  refine ⟨?_, fun ended => by cases ended⟩
  rintro ips rfl rule stands wanted gone
  have begins : Stocked (world.begin faults) := stocked.begun
  rw [World.run, delete_exec] at ran
  refine absurd ?_ gone
  rcases @delete_ran deps list ips _ begins with ⟨_, _, refused, same⟩ | ⟨middle, calls, -, size4, size6, committed, -, -, -, -, ends⟩
  · cases ran.symm.trans refused
    exact same ▸ stands
  · have stays := commit_deletes_stays begins committed wanted stands
    rw [ends] at ran
    split at ran
    · have kept := @deleteFilter_refused deps.nft list.name middle
        (((world.begin faults).sentBoth .ipSetDeleteElements (list.deleteMsg ips)).sized middle calls) rfl
      rw [ran] at kept
      exact kept ▸ stays
    · cases ran

theorem World.sized_failed {kernel} {calls} : (world.sized kernel calls).failed = [] ↔
    world.failed = [] ∧ world.faults .ipSetGetElements (calls .ipSetGetElements) = false ∧
      world.faults .ipSetGetElements (calls .ipSetGetElements + 1) = false := by
  rw [sized, tried_failed, tried_failed, and_assoc]
  simp [tried]

theorem delete_failSafe_iff (stocked : Stocked world)
    (ran : world.run deps ⟨(ListCall.delete ips).op list, faults⟩ = .ok () after) :
    FailSafe list (.delete ips) world (.ok () after) ↔ Audible deps.nft list world faults (.delete ips) := by
  have begins : Stocked (world.begin faults) := stocked.begun
  rw [World.run, delete_exec] at ran
  rcases @delete_ran deps list ips _ begins with
    ⟨_, _, refused, -⟩ | ⟨middle, calls, elements, size4, size6, committed, known, index, heard4, heard6, ends⟩
  · cases ran.symm.trans refused
  rw [ends] at ran
  have logged : after.failed = [] ↔ Audible deps.nft list world faults (.delete ips) := by
    have same : after.failed = (((world.begin faults).sentBoth .ipSetDeleteElements (list.deleteMsg ips)).sized middle calls).failed := by
      split at ran
      · have silent := @deleteFilter_erases deps.nft _ _ list.name
          (((world.begin faults).sentBoth .ipSetDeleteElements (list.deleteMsg ips)).sized middle calls) ⟨rfl, rfl⟩
        rw [ran] at silent
        exact silent.1
      · cases ran
        rfl
    rw [same, sized_failed, sentBoth_failed, index]
    simp [Audible, begin, sentBoth, sent, tried]
  constructor
  · intro safe
    exact logged.mp (safe.reports rfl).1
  · intro audible
    refine ⟨?_, fun _ => ⟨logged.mpr audible, fun _ added => by cases added⟩⟩
    rintro _ - rule stands wanted gone table found there
    split at ran
    · rename_i empty
      have kept := @deleteFilter_removing deps.nft middle.sets list.name
        (((world.begin faults).sentBoth .ipSetDeleteElements (list.deleteMsg ips)).sized middle calls) ⟨rfl, [], rfl⟩
      rw [ran] at kept
      have same : some found = some (elements table) := by rw [← there, ← known table, ← kept.1]; rfl
      cases same
      rw [heard4 audible.2.1, heard6 audible.2.2] at empty
      cases table with
      | ipv4 => exact length_eq_zero_iff.mp empty.1
      | ipv6 => exact length_eq_zero_iff.mp empty.2
    · cases ran
      exact absurd (commit_deletes_stays begins committed wanted stands) gone

theorem add_ran (stocked : Stocked world) (some : ips ≠ []) :
    (((ListCall.add ips).op list).exec deps).run world =
      (if (world.router.ruleMap.lookup list.name).isNone then list.save deps else pure ()).run
        (world.sentBoth .ipSetAddElements (list.addMsg ips)) := by
  have queued := @sendBoth_ran world .ipSetAddElements (list.addMsg ips) stocked.made
  have open_ : getChain.run (world.sentBoth .ipSetAddElements (list.addMsg ips)) =
      .ok () (world.sentBoth .ipSetAddElements (list.addMsg ips)) := by
    simp [getChain, show (world.sentBoth .ipSetAddElements (list.addMsg ips)).router.tables = true from stocked.tables]
  simp only [add_exec, if_pos (length_pos_iff.mpr some), addIPSetElements_eq, run_bind, queued, run_get]
  have same : (world.sentBoth .ipSetAddElements (list.addMsg ips)).router = world.router := rfl
  rw [same]
  split
  · rw [run_bind, open_]
  · rfl

theorem save_ran {sent} (unfiled : sent.router.ruleMap.lookup list.name = none)
    (ran : (list.save deps).run sent = .ok () after) : (after.router.ruleMap.lookup list.name).isSome =
        returned ((saveFilterRules deps.nft list.name list.rules false).run sent) ∧
      (list = .deny → (after.router.ruleMap.lookup list.name).isSome = true) ∧
      ((after.router.ruleMap.lookup list.name).isSome = true → after.failed = sent.failed) := by
  have files := @saveFilterRules_files deps.nft _ _ list.name list.rules list.rules_ne false sent ⟨rfl, rfl⟩
  have filed {state : World} {saved : List Rule} (same : state.router.ruleMap = sent.router.ruleMap.insert list.name saved) :
      (state.router.ruleMap.lookup list.name).isSome = true := by
    rw [same, AList.lookup_insert]
    rfl
  cases list with
  | deny =>
    have ran : (saveFilterRules deps.nft deny.name deny.rules false).run sent = .ok () after := ran
    rw [ran] at files ⊢
    obtain ⟨silent, saved, same⟩ := files
    exact ⟨filed same, fun _ => filed same, fun _ => silent⟩
  | allow =>
    simp only [save, bind_pure_comp, map_run, attempt_run] at ran
    cases ends : (saveFilterRules deps.nft allow.name allow.rules false).run sent with
    | ok value state =>
      rw [ends] at ran files
      cases ran
      obtain ⟨silent, saved, same⟩ := files
      exact ⟨filed same, fun _ => filed same, fun _ => silent⟩
    | error fault state =>
      rw [ends] at ran files
      have same : after = state := by
        cases fault <;> cases ran
        rfl
      subst same
      have none := (congrArg _ files).trans unfiled
      simp [none, returned]

theorem add_failSafe_iff (stocked : Stocked world) (ran : world.run deps ⟨(ListCall.add ips).op list, faults⟩ = .ok () after) :
    FailSafe list (.add ips) world (.ok () after) ↔ Audible deps.nft list world faults (.add ips) := by
  have begins : Stocked (world.begin faults) := stocked.begun
  have reported : FailSafe list (.add ips) world (.ok () after) ↔
      after.failed = [] ∧ (ips ≠ [] → (after.router.ruleMap.lookup list.name).isSome = true) := by
    constructor
    · intro safe
      exact ⟨(safe.reports rfl).1, (safe.reports rfl).2 ips rfl⟩
    · rintro ⟨silent, filed⟩
      refine ⟨fun _ deleted => (by cases deleted), fun _ => ⟨silent, ?_⟩⟩
      intro _ same
      cases same
      exact filed
  rw [reported]
  by_cases nothing : ips = []
  · subst nothing
    simp only [World.run, add_exec, length_nil, Nat.lt_irrefl, if_false] at ran
    cases ran
    simp [Audible, begin]
  rw [World.run, add_ran begins nothing] at ran
  simp only [Audible, ne_eq, nothing, not_false_eq_true, forall_const]
  have logged : ((world.begin faults).sentBoth .ipSetAddElements (list.addMsg ips)).failed = [] ↔
      faults .ipSetAddElements 0 = false ∧ faults .ipSetAddElements 1 = false := by
    rw [sentBoth_failed]
    simp [begin]
  cases filed : world.router.ruleMap.lookup list.name with
  | some rules =>
    have before : (world.begin faults).router.ruleMap.lookup list.name = some rules := filed
    simp only [before, Option.isNone_some, Bool.false_eq_true, if_false] at ran
    cases ran
    have kept : ((world.begin faults).sentBoth .ipSetAddElements (list.addMsg ips)).router.ruleMap.lookup list.name = some rules := filed
    simp [logged, kept]
  | none =>
    have before : (world.begin faults).router.ruleMap.lookup list.name = none := filed
    simp only [before, Option.isNone_none, if_true] at ran
    have unfiled : ((world.begin faults).sentBoth .ipSetAddElements (list.addMsg ips)).router.ruleMap.lookup list.name = none := filed
    obtain ⟨saved, denied, silent⟩ := save_ran unfiled ran
    constructor
    · rintro ⟨quiet, isFiled⟩
      have heard := logged.mp (silent isFiled ▸ quiet)
      exact ⟨heard, fun _ _ => (saves_iff stocked heard).mp (saved ▸ isFiled)⟩
    · rintro ⟨heard, saves⟩
      have isFiled : (after.router.ruleMap.lookup list.name).isSome = true := by
        cases list with
        | deny => exact denied rfl
        | allow => exact saved.trans ((saves_iff stocked heard).mpr (saves rfl rfl))
      exact ⟨(silent isFiled).trans (logged.mpr heard), isFiled⟩

/-- After any run of operations on the lists, with whatever calls failing, an operation in which nothing fails unheard
is safe, and one that returns nil is safe only then. -/
theorem list_failSafe_iff {denyAll : Bool} {start : World} (fresh : Fresh deps denyAll start)
    (reached : Reaches deps OnLists start world) (list : IPList) (call : ListCall) (faults : Site → Nat → Bool) :
    (Audible deps.nft list world faults call → FailSafe list call world (world.run deps ⟨call.op list, faults⟩)) ∧
      (returned (world.run deps ⟨call.op list, faults⟩) = true →
        FailSafe list call world (world.run deps ⟨call.op list, faults⟩) → Audible deps.nft list world faults call) := by
  have stocked := reached.stocked fresh
  cases ran : world.run deps ⟨call.op list, faults⟩ with
  | error fault after => exact ⟨fun _ => failSafe_of_error stocked ran, fun ended => by cases ended⟩
  | ok value after =>
    have exact_ : FailSafe list call world (.ok () after) ↔ Audible deps.nft list world faults call := by
      cases call with
      | add ips => exact add_failSafe_iff stocked ran
      | delete ips => exact delete_failSafe_iff stocked ran
    exact ⟨exact_.mpr, fun _ => exact_.mp⟩

/-- Of two denied addresses one is deleted, and the other is still looked up. -/
theorem denied_failSafe :
    let deps : Deps := ⟨.counting, id⟩
    let start := fresh deps false
    let added := start.next deps { op := .addIPsToDenyList [.v4 0x0a000001, .v4 0x0a000002] }
    Fresh deps false start ∧ FailSafe .deny (.delete [.v4 0x0a000001]) added
      (added.run deps { op := .deleteIPsFromDenyList [.v4 0x0a000001] }) := by
  intro deps start added
  have fresh : Fresh deps false start := fresh_of_returned (by decide +kernel)
  have reached : Reaches deps OnLists start added :=
    Reaches.step .refl ⟨.deny, .add [.v4 0x0a000001, .v4 0x0a000002], rfl⟩
  refine ⟨fresh, (list_failSafe_iff fresh reached .deny (.delete [.v4 0x0a000001]) fun _ _ => false).1 ?_⟩
  exact ⟨⟨rfl, rfl⟩, rfl, rfl⟩

/-- The size of a set cannot be read: the deletion of one of two denied addresses
removes the rules that look the other one up, and returns nil. -/
theorem unread_size_not_failSafe :
    let deps : Deps := ⟨.counting, id⟩
    let start := fresh deps false
    let added := start.next deps { op := .addIPsToDenyList [.v4 0x0a000001, .v4 0x0a000002] }
    let deletion : Step := ⟨.deleteIPsFromDenyList [.v4 0x0a000001], fun site index => site == .ipSetGetElements && index == 0⟩
    let after := added.next deps deletion
    Fresh deps false start ∧ returned (added.run deps deletion) = true ∧
      (∀ rule ∈ deny.rules, rule.content ∈ added.kernel.rules.map Rule.content ∧
        rule.content ∉ after.kernel.rules.map Rule.content) ∧
      ((after.kernel.sets .ipv4 deny.name).bind (·.lookup [10, 0, 0, 2])).isSome = true ∧
      ¬ FailSafe .deny (.delete [.v4 0x0a000001]) added (added.run deps deletion) := by
  intro deps start added deletion after
  have ended : returned (added.run deps deletion) = true := by decide +kernel
  refine ⟨fresh_of_returned (by decide +kernel), ended, by decide +kernel, by decide +kernel, ?_⟩
  intro safe
  have logged : (final (added.run deps deletion)).failed ≠ [] := by decide +kernel
  exact logged (safe.reports ended).1

end MycsCommon.Network
