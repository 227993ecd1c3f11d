import MycsCommon.Proofs.ListFailures

/-! Operations on a router that has no tables: before `NewFilterRouter`, and after
`Clear`, which forgets the tables and keeps the rest. Only the forwardings ask for the
tables first. -/

namespace MycsCommon.Network
open Library Program EStateM Kernel Router World

variable {deps : Deps} {nft : Nft} {world : World} {key : String} {rules : List Rule}

/-- The router `NewRouteManager` makes, and the routers at the end of a run that ends in `Clear`. -/
inductive Idle (deps : Deps) : World → Prop where
  | unset : Idle deps .boot
  | cleared {start world : World} {faults : Site → Nat → Bool} (begins : start = .boot ∨ ∃ denyAll, Fresh deps denyAll start)
      (reached : Reaches deps (fun _ _ => True) start world) : Idle deps (world.next deps ⟨.clear, faults⟩)

/-- An error is returned; `Clear`, which returns none, does nothing. -/
def Inert (op : Op) (before : World) : Result Fault World Unit → Prop
  | .error (.error _) _ => True
  | .ok () after => op = .clear ∧ after = before
  | .error (.panic _) _ | .error .hang _ => False

/-! The conditions. -/

/-- The rules of a key that `DeleteFilter` deletes from the kernel. -/
def Router.removals : Router → List Rule → List Rule
  | _, [] => []
  | router, rule :: rules =>
    if router.refCount rule = 1 then
      rule :: removals { router with ruleRef := router.ruleRef.erase rule.refKey } rules
    else removals { router with ruleRef := router.ruleRef.insert rule.refKey (router.refCount rule - 1) } rules

def Blocked (world : World) (gone : List Rule) : Prop :=
  ∃ index rule, gone[index]? = some rule ∧
    (world.faults .deleteDelRule (world.calls .deleteDelRule + index) = true ∨ rule.handle = 0)

/-- The key is unknown, or its rules cannot be deleted. -/
def Refused (nft : Nft) (key : String) (world : World) : Prop :=
  ∀ rules, world.router.ruleMap.lookup key = some rules → Blocked world (world.router.removals rules) ∨
    Unsent nft .deleteFlush { world with queue := world.queue ++ (world.router.removals rules).map remove }

/-- The size of a set is zero or cannot be read. -/
def SeemsEmpty (world : World) (kernel : Kernel) (name : String) (table : Family) (index : Nat) : Prop :=
  world.faults .ipSetGetElements (world.calls .ipSetGetElements + index) = true ∨
    ∀ elements, kernel.sets table name = some elements → elements.entries = []

/-- The flush is refused, or both sets seem empty and the rules cannot be deleted. -/
def IPList.Refused (list : IPList) (nft : Nft) (ips : List Addr) (world : World) : Prop :=
  let sent := world.sentBoth .ipSetDeleteElements (list.deleteMsg ips)
  Unsent nft .ipSetFlush sent ∨ ∃ kernel, world.kernel.commit nft sent.queue = .ok kernel ∧
    SeemsEmpty world kernel list.name .ipv4 0 ∧ SeemsEmpty world kernel list.name .ipv6 1 ∧
    Network.Refused nft list.name { world with kernel, queue := [] }

/-- The state in which the group after these has its turn. -/
def afterGroups (deps : Deps) (iifName : String) (world : World) (sgs : List SecurityGroup) : World :=
  sgs.foldl (fun world sg => final ((deleteFilter deps.nft (sg.sgKey deps.sum64 iifName)).run world)) world

/-- When an operation on a router without tables returns an error. -/
def Op.Refuses (deps : Deps) (world : World) : Op → Prop
  -- the chains are indexed without asking for the tables, or no group is looked at
  | setSecurityGroups .. => False
  | deleteSecurityGroups sgs iifName => ∃ done sg rest, sgs = done ++ sg :: rest ∧
      (afterGroups deps iifName world done).router.ruleMap.lookup (sg.sgKey deps.sum64 iifName) = none
  | forwardPort .. | forwardPortOnIP .. | forwardTraffic .. => True
  | deleteForwardPort dstPort port forwardIP proto => Refused deps.nft (forwardPortKey dstPort port .zero forwardIP proto) world
  | deleteForwardPortOnIP dstPort port dstIP forwardIP proto =>
    Refused deps.nft (forwardPortKey dstPort port dstIP forwardIP proto) world
  | deleteForwardTraffic srcItfName dstItfName srcNetwork dstNetwork =>
    Refused deps.nft (forwardTrafficKey srcItfName dstItfName srcNetwork dstNetwork) world
  -- the sets or the chains are indexed, or there is nothing to do
  | addIPsToDenyList _ | addIPsToAllowList _ => False
  | deleteIPsFromDenyList ips => world.router.made = true ∧ IPList.deny.Refused deps.nft ips world
  | deleteIPsFromAllowList ips => world.router.made = true ∧ IPList.allow.Refused deps.nft ips world
  | deleteFilter key => Refused deps.nft key world
  | clear => True

theorem Refused.congr {other} (refused : Refused nft key world) (router : other.router = world.router)
    (kernel : other.kernel = world.kernel) (queue : other.queue = world.queue)
    (faults : other.faults = world.faults) (deletes : other.calls .deleteDelRule = world.calls .deleteDelRule)
    (flushes : other.calls .deleteFlush = world.calls .deleteFlush) : Refused nft key other := by
  intro rules held
  rw [router] at held
  rcases refused rules held with ⟨index, rule, listed, failing⟩ | ⟨some, failing⟩
  · exact .inl ⟨index, rule, by rwa [router], by rwa [faults, deletes]⟩
  · refine .inr ⟨by rwa [router, queue], ?_⟩
    simp only [router, queue, kernel, faults, flushes]
    exact failing

theorem Refused.of_unknown (unknown : world.router.ruleMap.lookup key = none) : Refused nft key world := by
  intro rules held
  rw [unknown] at held
  cases held

theorem releaseRules_ran (rules : List Rule) (world : World) :
    (Blocked world (world.router.removals rules) ∧ ∃ error after, (releaseRules rules).run world = .error (.error error) after) ∨
    (¬ Blocked world (world.router.removals rules) ∧ ∃ refs calls, calls .deleteFlush = world.calls .deleteFlush ∧
      (releaseRules rules).run world = .ok () { world with
        router := { world.router with ruleRef := refs }
        queue := world.queue ++ (world.router.removals rules).map remove, calls }) := by
  induction rules generalizing world with
  | nil =>
    refine .inr ⟨?_, world.router.ruleRef, world.calls, rfl, by simp [releaseRules, removals]⟩
    rintro ⟨index, rule, listed, -⟩
    simp [removals] at listed
  | cons rule rules ih =>
    obtain ⟨router, kernel, queue, faults, calls, failed⟩ := world
    simp only [releaseRules, removals, run_bind, run_get]
    split
    · rename_i one
      simp only [run_bind, delRule_run]
      cases failing : faults .deleteDelRule (calls .deleteDelRule) || rule.handle == 0 with
      | true =>
        simp only [if_true]
        refine .inl ⟨⟨0, rule, rfl, ?_⟩, _, _, rfl⟩
        simpa using failing
      | false =>
        simp only [Bool.false_eq_true, if_false, modifyRouter_run]
        have fine : faults .deleteDelRule (calls .deleteDelRule) = false ∧ rule.handle ≠ 0 := by simpa using failing
        have shift : ∀ gone, Blocked ⟨router, kernel, queue, faults, calls, failed⟩ (rule :: gone) ↔
            Blocked ⟨{ router with ruleRef := router.ruleRef.erase rule.refKey }, kernel, queue ++ [remove rule], faults,
              bump calls .deleteDelRule, failed⟩ gone := by
          intro gone
          constructor
          · rintro ⟨index, other, listed, failing⟩
            cases index with
            | zero =>
              cases listed
              simp [fine] at failing
            | succ index => exact ⟨index, other, listed, by simpa [Nat.add_assoc, Nat.add_comm 1] using failing⟩
          · rintro ⟨index, other, listed, failing⟩
            exact ⟨index + 1, other, listed, by simpa [Nat.add_assoc, Nat.add_comm 1] using failing⟩
        rw [shift]
        rcases ih ⟨{ router with ruleRef := router.ruleRef.erase rule.refKey }, kernel, queue ++ [remove rule], faults,
            bump calls .deleteDelRule, failed⟩ with ⟨blocked, error, after, ran⟩ | ⟨free, refs, calls', same, ran⟩
        · exact .inl ⟨blocked, error, after, ran⟩
        · refine .inr ⟨free, refs, calls', same, ?_⟩
          rw [ran]
          simp
    · simp only [run_bind, modifyRouter_run]
      exact ih ⟨{ router with ruleRef := _ }, kernel, queue, faults, calls, failed⟩

/-- How an operation can end that neither panics nor hangs: with an error exactly if the condition holds. -/
def FailsIff (condition : Prop) (result : Result Fault World Unit) : Prop :=
  (condition ∧ ∃ error after, result = .error (.error error) after) ∨ (¬ condition ∧ ∃ after, result = .ok () after)

theorem deleteFilter_ran (key : String) (world : World) : FailsIff (Refused nft key world) ((deleteFilter nft key).run world) := by
  simp only [deleteFilter, run_bind, run_get]
  cases held : world.router.ruleMap.lookup key with
  | none => exact .inl ⟨.of_unknown held, _, _, rfl⟩
  | some rules =>
    have refused_iff : Refused nft key world ↔ Blocked world (world.router.removals rules) ∨
        Unsent nft .deleteFlush { world with queue := world.queue ++ (world.router.removals rules).map remove } := by
      constructor
      · exact fun refused => refused rules held
      · intro failing other found
        cases held.symm.trans found
        exact failing
    rw [refused_iff, run_bind]
    rcases releaseRules_ran rules world with ⟨blocked, error, after, ran⟩ | ⟨free, refs, calls, same, ran⟩
    · rw [ran]
      exact .inl ⟨.inl blocked, error, after, rfl⟩
    · rw [ran]
      simp only [run_bind, modifyRouter_run]
      rcases @flush_ran nft .deleteFlush ⟨{ world.router with ruleRef := refs, ruleMap := world.router.ruleMap.erase key },
          world.kernel, world.queue ++ (world.router.removals rules).map remove, world.faults, calls, world.failed⟩ with
        ⟨⟨some, failing⟩, ran⟩ | ⟨sent, after, calls', -, -, ran⟩
      · refine .inl ⟨.inr ⟨some, ?_⟩, _, _, ran⟩
        simpa only [same] using failing
      · refine .inr ⟨?_, _, ran⟩
        rintro (blocked | ⟨some, failing⟩)
        · exact free blocked
        · exact sent ⟨some, by simpa only [same] using failing⟩

/-! The operations. -/

theorem Idle.tables (idle : Idle deps world) : world.router.tables = false := by
  cases idle with
  | unset => rfl
  | @cleared start world faults =>
    obtain ⟨router, kernel, queue, -⟩ := world
    simp only [World.next, World.run, World.begin, Op.exec, clear, EStateM.run_bind, EStateM.run_get]
    cases open_ : router.tables with
    | false => exact open_
    | true =>
      simp only [if_true, EStateM.run_bind, enqueue_run, attempt_run]
      rcases @flush_cases deps.nft router kernel (queue ++ [.delTable .ipv4] ++ [.delTable .ipv6]) faults (fun _ => 0) [] .clearFlush
        with ⟨after, calls', -, -, ran⟩ | ⟨-, calls', ran⟩ <;> rw [ran] <;> rfl

theorem inert_iff {op : Op} {result} (other : op ≠ .clear) :
    Inert op world result ↔ ∃ error after, result = .error (.error error) after := by
  match result with
  | .ok () after => exact iff_of_false (fun inert => other inert.1) (by simp)
  | .error (.error error) after => exact iff_of_true trivial ⟨error, after, rfl⟩
  | .error (.panic panic) after => exact iff_of_false id (by simp)
  | .error .hang after => exact iff_of_false id (by simp)

theorem FailsIff.inert {op : Op} {condition : Prop} {result} (fails : FailsIff condition result)
    (other : op ≠ .clear) : Inert op world result ↔ condition := by
  rw [inert_iff other]
  rcases fails with ⟨holds, error, after, rfl⟩ | ⟨fails, after, rfl⟩
  · exact iff_of_true ⟨error, after, rfl⟩ holds
  · exact iff_of_false (by simp) fails

theorem setSecurityGroups_idle {sgs} {iifName} (idle : world.router.tables = false) :
    (setSecurityGroups deps sgs iifName).run world = .ok () world ∨
      (setSecurityGroups deps sgs iifName).run world = .error (.panic .indexOutOfRange) world := by
  induction sgs with
  | nil => exact .inl rfl
  | cons sg sgs ih =>
    simp only [setSecurityGroups, List.forM_cons, run_bind] at ih ⊢
    cases mixed : sg.mixesFamilies with
    | true =>
      have skipped : (setSecurityGroup deps iifName sg).run world = .ok () world := by simp [setSecurityGroup, mixed]
      rw [skipped]
      exact ih
    | false =>
      have panics : (setSecurityGroup deps iifName sg).run world = .error (.panic .indexOutOfRange) world := by
        simp [setSecurityGroup, mixed, targetChain, getChain, idle]
      rw [panics]
      exact .inr rfl

theorem deleteFilter_tables (key : String) : Keeps (fun world : World => world.router.tables = false) (deleteFilter nft key) := by
  have steady : Steady nft (fun _ => True) (fun _ => True) fun world => world.router.tables = false :=
    ⟨fun _ _ holds => holds, fun _ _ holds => holds, fun _ _ _ holds => holds, fun _ _ _ holds => holds, fun _ => id,
      fun _ _ holds => holds, fun _ _ _ _ holds => holds, fun _ _ holds => holds⟩
  exact steady.deleteFilter fun _ _ _ _ _ => trivial

theorem deleteSecurityGroup_idle {sg} {iifName} (idle : world.router.tables = false) :
    (deleteSecurityGroup deps iifName [] sg).run world =
      if (world.router.ruleMap.lookup (sg.sgKey deps.sum64 iifName)).isNone then
        .error (.error (.noSecurityGroupRules (sg.sgKey deps.sum64 iifName) sg)) world
      else .ok [] (final ((deleteFilter deps.nft (sg.sgKey deps.sum64 iifName)).run world)) := by
  cases filed : world.router.ruleMap.lookup (sg.sgKey deps.sum64 iifName) with
  | none => simp [deleteSecurityGroup, SecurityGroup.createSecurityGroupKeys, requireRules, filed]
  | some rules =>
    have ends : (deleteGroupFilter deps (sg.sgKey deps.sum64 iifName) []).run world =
        .ok () (final ((deleteFilter deps.nft (sg.sgKey deps.sum64 iifName)).run world)) := by
      simp only [deleteGroupFilter, run_bind, attempt_run]
      rcases @deleteFilter_ran deps.nft (sg.sgKey deps.sum64 iifName) world with ⟨-, error, after, ran⟩ | ⟨-, after, ran⟩ <;>
        simp [ran]
    simp only [deleteSecurityGroup, requireRules, SecurityGroup.createSecurityGroupKeys, Option.isNone_iff_eq_none,
      routerTables, bind_pure_comp, bind_map_left, bind_assoc, run_bind, run_get, filed, reduceCtorEq, if_false, pure_bind,
      idle, Bool.false_eq_true, List.foldlM_nil, map_run, ends, Option.isNone_some]

theorem deleteSecurityGroups_idle {sgs} {iifName} (idle : world.router.tables = false) :
    FailsIff ((Op.deleteSecurityGroups sgs iifName).Refuses deps world) ((deleteSecurityGroups deps sgs iifName).run world) := by
  simp only [deleteSecurityGroups, discard_run, Op.Refuses]
  induction sgs generalizing world with
  | nil => exact .inr ⟨by simp, world, rfl⟩
  | cons sg sgs ih =>
    simp only [List.foldlM_cons, run_bind, deleteSecurityGroup_idle idle]
    cases filed : world.router.ruleMap.lookup (sg.sgKey deps.sum64 iifName) with
    | none => exact .inl ⟨⟨[], sg, sgs, rfl, filed⟩, _, _, rfl⟩
    | some rules =>
      simp only [Option.isNone_some, Bool.false_eq_true, if_false]
      have later := ih ((@deleteFilter_tables deps.nft (sg.sgKey deps.sum64 iifName)).final idle)
      have shift : (∃ done other rest, sg :: sgs = done ++ other :: rest ∧
            (afterGroups deps iifName world done).router.ruleMap.lookup (other.sgKey deps.sum64 iifName) = none) ↔
          ∃ done other rest, sgs = done ++ other :: rest ∧ (afterGroups deps iifName
            (final ((deleteFilter deps.nft (sg.sgKey deps.sum64 iifName)).run world)) done).router.ruleMap.lookup
              (other.sgKey deps.sum64 iifName) = none := by
        constructor
        · rintro ⟨done, other, rest, parts, unfiled⟩
          cases done with
          | nil =>
            cases parts
            simp [afterGroups, filed] at unfiled
          | cons first done =>
            cases parts
            exact ⟨done, other, rest, rfl, unfiled⟩
        · rintro ⟨done, other, rest, rfl, unfiled⟩
          exact ⟨sg :: done, other, rest, rfl, unfiled⟩
      rw [shift]
      exact later

theorem setSize_idle (list : IPList) (table : Family) (world : World) :
    ∃ size failed, (setSize list table).run world =
        .ok size { world with calls := bump world.calls .ipSetGetElements, failed } ∧
      (size = 0 ↔ SeemsEmpty world world.kernel list.name table 0) := by
  obtain ⟨-, kernel, -, faults, calls, failed⟩ := world
  by_cases failing : faults .ipSetGetElements (calls .ipSetGetElements) = true
  · exact ⟨0, _, by simp [setSize, attempt_run, getSetElements_run, failing]; rfl, iff_of_true rfl (.inl failing)⟩
  · cases known : kernel.sets table list.name with
    | none => exact ⟨0, _, by simp [setSize, attempt_run, getSetElements_run, failing, known]; rfl, iff_of_true rfl (.inr (by simp [known]))⟩
    | some elements =>
      refine ⟨elements.entries.length, _, by simp [setSize, attempt_run, getSetElements_run, failing, known]; rfl, ?_⟩
      simp [SeemsEmpty, failing, known]

theorem deleteIPsFromList_idle (list : IPList) (ips : List Addr) (made : world.router.made = true) :
    FailsIff (list.Refused deps.nft ips world) ((deleteIPsFromList deps list ips).run world) := by
  have queued := @sendBoth_ran world .ipSetDeleteElements (list.deleteMsg ips) made
  simp only [deleteIPsFromList, deleteIPSetElements_eq, run_bind, queued, IPList.Refused]
  generalize sets : world.sentBoth .ipSetDeleteElements (list.deleteMsg ips) = sent
  have kept : sent.router = world.router ∧ sent.kernel = world.kernel ∧ sent.faults = world.faults ∧
      ∀ site, site ≠ .ipSetDeleteElements → sent.calls site = world.calls site := by
    subst sets
    exact ⟨rfl, rfl, rfl, fun site other => by simp [sentBoth, sent, tried, bump_ne _ other]⟩
  obtain ⟨router, kernel, queue, faults, calls, failed⟩ := sent
  obtain ⟨rfl, rfl, rfl, counted⟩ := kept
  rcases @flush_ran deps.nft .ipSetFlush ⟨world.router, world.kernel, queue, world.faults, calls, failed⟩ with
    ⟨unsent, ran⟩ | ⟨sent, middle, calls', committed, same, ran⟩
  · simp only [ran]
    exact .inl ⟨.inl unsent, _, _, rfl⟩
  obtain ⟨size4, failed4, ran4, empty4⟩ := setSize_idle list .ipv4 ⟨world.router, middle, [], world.faults, calls', failed⟩
  obtain ⟨size6, failed6, ran6, empty6⟩ := setSize_idle list .ipv6
    ⟨world.router, middle, [], world.faults, bump calls' .ipSetGetElements, failed4⟩
  have index : calls' .ipSetGetElements = world.calls .ipSetGetElements := (same _ (by decide)).trans (counted _ (by decide))
  have seems4 : size4 = 0 ↔ SeemsEmpty world middle list.name .ipv4 0 := by simpa [SeemsEmpty, index] using empty4
  have seems6 : size6 = 0 ↔ SeemsEmpty world middle list.name .ipv6 1 := by simpa [SeemsEmpty, index] using empty6
  have others : ∀ site, site ∉ [Site.ipSetDeleteElements, .ipSetFlush, .ipSetGetElements] →
      bump (bump calls' .ipSetGetElements) .ipSetGetElements site = world.calls site := by
    intro site other
    simp only [List.mem_cons, List.not_mem_nil, or_false, not_or] at other
    rw [bump_ne _ other.2.2, bump_ne _ other.2.2, same _ other.2.1]
    exact counted _ other.1
  simp only [ran, ran4, ran6, run_pure]
  by_cases empty : size4 = 0 ∧ size6 = 0
  · rw [if_pos empty]
    have ends := @deleteFilter_ran deps.nft list.name ⟨world.router, middle, [], world.faults,
      bump (bump calls' .ipSetGetElements) .ipSetGetElements, failed6⟩
    rcases ends with ⟨refused, fails⟩ | ⟨deletes, returns⟩
    · refine .inl ⟨.inr ⟨middle, committed, seems4.mp empty.1, seems6.mp empty.2, ?_⟩, fails⟩
      exact refused.congr rfl rfl rfl rfl (others .deleteDelRule (by decide)).symm (others .deleteFlush (by decide)).symm
    · refine .inr ⟨?_, returns⟩
      rintro (unsent | ⟨other, found, -, -, refused⟩)
      · exact sent unsent
      · cases found.symm.trans committed
        exact deletes (refused.congr rfl rfl rfl rfl (others .deleteDelRule (by decide)) (others .deleteFlush (by decide)))
  · rw [if_neg empty]
    refine .inr ⟨?_, _, rfl⟩
    rintro (unsent | ⟨other, found, none4, none6, -⟩)
    · exact sent unsent
    · cases found.symm.trans committed
      exact empty ⟨seems4.mpr none4, seems6.mpr none6⟩

theorem sendBoth_unmade {site} {send} (unmade : world.router.made = false) :
    (sendBoth site send).run world = .error (.panic .indexOutOfRange) world := by
  simp [sendBoth, families, unmade]

theorem deleteIPs_inert_iff {op : Op} {list} {ips} (other : op ≠ .clear) :
    Inert op world ((deleteIPsFromList deps list ips).run world) ↔
      world.router.made = true ∧ list.Refused deps.nft ips world := by
  cases made : world.router.made with
  | true =>
    rw [(deleteIPsFromList_idle list ips made).inert other]
    simp
  | false =>
    have panics : (deleteIPsFromList deps list ips).run world = .error (.panic .indexOutOfRange) world := by
      simp [deleteIPsFromList, deleteIPSetElements_eq, sendBoth_unmade made]
    rw [panics]
    simp [Inert]

theorem addIPs_not_inert {op : Op} {list} {ips} (other : op ≠ .clear) (idle : world.router.tables = false) :
    ¬ Inert op world ((((ListCall.add ips).op list).exec deps).run world) := by
  rw [inert_iff other, add_exec]
  rintro ⟨error, after, ran⟩
  split at ran
  · simp only [addIPSetElements_eq, run_bind, run_get] at ran
    cases made : world.router.made with
    | false => simp [sendBoth_unmade made] at ran
    | true =>
      simp only [sendBoth_ran made] at ran
      split at ran
      · have panics : getChain.run (world.sentBoth .ipSetAddElements (list.addMsg ips)) =
            .error (.panic .indexOutOfRange) (world.sentBoth .ipSetAddElements (list.addMsg ips)) := by
          simp [getChain, show (world.sentBoth .ipSetAddElements (list.addMsg ips)).router.tables = false from idle]
        simp [run_bind, panics] at ran
      · cases ran
  · cases ran

theorem forwarding_inert {op : Op} {program : RouterM String} (idle : world.router.tables = false) :
    Inert op world ((discard (do getTable; program)).run world) := by
  have refused : (do getTable; program : RouterM String).run world = .error (.error .notInitialized) world := by
    simp [getTable, idle]
  rw [discard_run, refused]
  trivial

theorem op_inert_iff (idle : world.router.tables = false) (op : Op) :
    Inert op world ((op.exec deps).run world) ↔ op.Refuses deps world := by
  cases op with
  | setSecurityGroups sgs iifName =>
    refine iff_of_false ?_ id
    rw [inert_iff (by simp)]
    rintro ⟨error, after, ran⟩
    rcases @setSecurityGroups_idle deps world sgs iifName idle with ends | panics
    · cases ran.symm.trans ends
    · cases ran.symm.trans panics
  | deleteSecurityGroups sgs iifName => exact (deleteSecurityGroups_idle idle).inert (by simp)
  | forwardPort | forwardPortOnIP => exact iff_of_true (forwarding_inert idle) trivial
  | forwardTraffic srcItfName dstItfName srcNetwork dstNetwork withNat =>
    refine iff_of_true ?_ trivial
    simp only [Op.exec, forwardTraffic]
    split
    · trivial
    · exact forwarding_inert idle
  | deleteForwardPort | deleteForwardPortOnIP | deleteForwardTraffic | deleteFilter =>
    exact (deleteFilter_ran _ world).inert (by simp)
  | addIPsToDenyList ips => exact iff_of_false (@addIPs_not_inert deps world _ .deny ips (by simp) idle) id
  | addIPsToAllowList ips => exact iff_of_false (@addIPs_not_inert deps world _ .allow ips (by simp) idle) id
  | deleteIPsFromDenyList ips | deleteIPsFromAllowList ips => exact deleteIPs_inert_iff (by simp)
  | clear =>
    have nothing : (clear deps).run world = .ok () world := by simp [clear, idle]
    refine iff_of_true ?_ trivial
    rw [show Op.clear.exec deps = clear deps from rfl, nothing]
    exact ⟨rfl, rfl⟩

/-- On a router that was never initialised, or at the end of a run that ends in `Clear`,
an operation returns an error, or does nothing in the case of `Clear`, exactly under these conditions. -/
theorem idle_inert_iff (idle : Idle deps world) (op : Op) (faults : Site → Nat → Bool) :
    Inert op (world.begin faults) (world.run deps ⟨op, faults⟩) ↔ op.Refuses deps (world.begin faults) :=
  op_inert_iff (show (world.begin faults).router.tables = false from idle.tables) op

theorem Fresh.idle {denyAll start} (fresh : Fresh deps denyAll start) (faults : Site → Nat → Bool) :
    Idle deps (start.next deps ⟨.clear, faults⟩) :=
  .cleared (.inr ⟨denyAll, fresh⟩) .refl

/-- A port is not forwarded by a router that has been cleared. -/
theorem cleared_forwardPort_inert :
    let deps : Deps := ⟨.counting, id⟩
    let cleared := (fresh deps true).next deps ⟨.clear, fun _ _ => false⟩
    Idle deps cleared ∧ Inert (.forwardPort 80 8080 (.v4 0x0a000001) .TCP) (cleared.begin fun _ _ => false)
      (cleared.run deps ⟨.forwardPort 80 8080 (.v4 0x0a000001) .TCP, fun _ _ => false⟩) := by
  intro deps cleared
  have fresh : Fresh deps true (fresh deps true) := fresh_of_returned (by decide +kernel)
  have idle : Idle deps cleared := fresh.idle fun _ _ => false
  refine ⟨idle, ?_⟩
  -- all that counts of the router is that it is idle
  clear_value cleared
  exact (idle_inert_iff idle (.forwardPort 80 8080 (.v4 0x0a000001) .TCP) fun _ _ => false).mpr trivial

/-- An address for the deny list of a router that was never initialised makes it panic,
and a security group is not refused by a cleared router either. -/
theorem idle_router_panics :
    let deps : Deps := ⟨.counting, id⟩
    let addition : Step := ⟨.addIPsToDenyList [.v4 0x0a000001], fun _ _ => false⟩
    let cleared := (fresh deps true).next deps ⟨.clear, fun _ _ => false⟩
    let setting : Step := ⟨.setSecurityGroups [{}] "eth0", fun _ _ => false⟩
    Idle deps .boot ∧ boot.run deps addition = .error (.panic .indexOutOfRange) .boot ∧
      ¬ Inert addition.op .boot (boot.run deps addition) ∧
      Idle deps cleared ∧ ¬ Inert setting.op (cleared.begin fun _ _ => false) (cleared.run deps setting) := by
  intro deps addition cleared setting
  have fresh : Fresh deps true (fresh deps true) := fresh_of_returned (by decide +kernel)
  have idle : Idle deps cleared := fresh.idle fun _ _ => false
  refine ⟨.unset, rfl, id, idle, ?_⟩
  clear_value cleared
  have open_ : (cleared.begin fun _ _ => false).router.tables = false := idle.tables
  exact fun inert => (op_inert_iff open_ setting.op).mp inert

end MycsCommon.Network
