import MycsCommon.Proofs.Bookkeeping
import MycsCommon.Proofs.SetContents

/-! The deny list and the allow list over whole runs. A set is only flushed together
with the rules that look it up, so what is added while the rules stand waits in the
queue. -/

namespace MycsCommon.Network
open Library Program List AList Addr EStateM IPList Kernel RefCount Router World

/-- The table whose set an address goes into and its key there; the zone is in neither. -/
def Addr.element (ip : Addr) : Family × Bytes := (familyOf ip.is4, ip.asSlice)

def IPList.rules : IPList → List Rule
  | deny => families.flatMap denyListRules
  | allow => families.flatMap allowListRules

inductive ListCall where
  | add (ips : List Addr)
  | delete (ips : List Addr)

def ListCall.op (list : IPList) : ListCall → Op
  | add ips => match list with
    | .deny => .addIPsToDenyList ips
    | .allow => .addIPsToAllowList ips
  | delete ips => match list with
    | .deny => .deleteIPsFromDenyList ips
    | .allow => .deleteIPsFromAllowList ips

def ListCall.live (live : List Addr) : ListCall → List Addr
  | add ips => live ++ ips
  | delete ips => live.filter (· ∉ ips)

/-- The committed sets hold exactly these addresses, and the rules that look them up
are committed exactly when there are any. -/
structure Listed (list : IPList) (live : List Addr) (kernel : Kernel) : Prop where
  elements : ∀ table key, (∃ elements, kernel.sets table list.name = some elements ∧ key ∈ elements) ↔
    (table, key) ∈ live.map element
  rules : ∀ rule ∈ list.rules, rule.content ∈ kernel.rules.map Rule.content ↔ live ≠ []

/-- The calls whose errors the operations on a list drop. -/
def IPList.drops (list : IPList) : Site → Bool
  | .ipSetAddElements | .ipSetDeleteElements | .ipSetGetElements => true
  | .saveGetRules | .saveFlush | .saveGetHandles => list = .allow
  | _ => false

/-- No call fails without the caller hearing of it. -/
def IPList.Heard (list : IPList) (faults : Site → Nat → Bool) : Prop :=
  ∀ site index, list.drops site = true → faults site index = false

/-- An addition finds the list empty or brings nothing new, and a deletion does not take
along an address that differs from a deleted one in its zone only. -/
def ListCall.Clean (live : List Addr) : ListCall → Prop
  | add ips => live = [] ∨ ∀ ip ∈ ips, ip.element ∈ live.map element
  | delete ips => ∀ ip ∈ live, ip ∉ ips → ip.element ∉ ips.map element

/-- The runs of calls that all return nil and meet the conditions above. -/
inductive ListRun (deps : Deps) (list : IPList) (start : World) : World → List Addr → Prop where
  | start : ListRun deps list start start []
  | call {world after : World} {live : List Addr} {call : ListCall} {faults : Site → Nat → Bool}
      (ran : ListRun deps list start world live) (heard : list.Heard faults) (clean : call.Clean live)
      (returned : world.run deps ⟨call.op list, faults⟩ = .ok () after) :
      ListRun deps list start after (call.live live)

variable {deps : Deps} {nft : Nft} {list : IPList} {ips live : List Addr} {kernel after : Kernel} {base : List Rule}
  {world : World}

/-! The sets. -/

def among (live : List Addr) (table : Family) (key : Bytes) : Prop := (table, key) ∈ live.map element

theorem among_append (table : Family) (key : Bytes) :
    among (live ++ ips) table key ↔ among live table key ∨ among ips table key := by
  simp [among]

private theorem mem_createIPSetElements {table} {element} :
    element ∈ createIPSetElements ips table ↔ element.verdictData = none ∧ among ips table element.key := by
  obtain ⟨key, -⟩ := element
  cases table <;>
    simp [createIPSetElements, among, element]
  · constructor
    · rintro ⟨ip, ⟨member, is4⟩, rfl, rfl⟩
      exact ⟨rfl, ip, member, by simp [familyOf, is4], rfl⟩
    · rintro ⟨rfl, ip, member, family, rfl⟩
      exact ⟨ip, ⟨member, by_contra fun other => by simp [familyOf, other] at family⟩, rfl, rfl⟩
  · constructor
    · rintro ⟨ip, ⟨member, is6⟩, rfl, rfl⟩
      exact ⟨rfl, ip, member, by simp_all [familyOf], rfl⟩
    · rintro ⟨rfl, ip, member, family, rfl⟩
      exact ⟨ip, ⟨member, by_contra fun other => by simp_all [familyOf]⟩, rfl, rfl⟩

def IPList.addMsg (list : IPList) (ips : List Addr) (table : Family) : Msg :=
  .setAddElements table list.name (createIPSetElements ips table)

def IPList.deleteMsg (list : IPList) (ips : List Addr) (table : Family) : Msg :=
  .setDeleteElements table list.name (createIPSetElements ips table)

private theorem add_one {keys} (table : Family) (plain : kernel.Plain list.name keys) :
    ∃ after, kernel.apply nft (list.addMsg ips table) = .ok after ∧
      after.Plain list.name fun other key => keys other key ∨ other = table ∧ among ips other key := by
  obtain ⟨after, applied, plain⟩ := @Kernel.Plain.add nft kernel table list.name (createIPSetElements ips table) _ plain
    fun element member => (mem_createIPSetElements.mp member).1
  refine ⟨after, applied, plain.congr rfl ?_⟩
  intro other key
  rw [mem_createIPSetElements]
  constructor
  · rintro (old | ⟨rfl, -, new⟩)
    · exact .inl old
    · exact .inr ⟨rfl, new⟩
  · rintro (old | ⟨rfl, new⟩)
    · exact .inl old
    · exact .inr ⟨rfl, rfl, new⟩

/-- Additions that wait in the queue and bring nothing new. -/
def Redundant (list : IPList) (live : List Addr) (msg : Msg) : Prop :=
  ∃ ips table, msg = list.addMsg ips table ∧ ∀ ip ∈ ips, ip.element ∈ live.map element

private theorem commit_redundant {queue} (plain : kernel.Plain list.name (among live))
    (waiting : ∀ msg ∈ queue, Redundant list live msg) :
    ∃ after, kernel.commit nft queue = .ok after ∧ after.Plain list.name (among live) := by
  induction queue generalizing kernel with
  | nil => exact ⟨kernel, rfl, plain⟩
  | cons msg queue ih =>
    obtain ⟨ips, table, rfl, covered⟩ := waiting msg (by simp)
    obtain ⟨middle, applied, more⟩ := @add_one nft list ips kernel _ table plain
    have same : middle.Plain list.name (among live) := by
      refine more.congr rfl fun other key => ⟨?_, .inl⟩
      rintro (old | ⟨-, new⟩)
      · exact old
      · obtain ⟨ip, member, named⟩ := mem_map.mp new
        exact show (other, key) ∈ live.map element from named ▸ covered ip member
    obtain ⟨after, rest, plain⟩ := ih same fun other member => waiting other (by simp [member])
    exact ⟨after, commit_cons_ok applied rest, plain⟩

private theorem commit_adds (plain : kernel.Plain list.name (among live)) :
    ∃ after, kernel.commit nft (families.map (list.addMsg ips)) = .ok after ∧
      after.Plain list.name (among (live ++ ips)) := by
  obtain ⟨middle, first, more⟩ := @add_one nft list ips kernel _ .ipv4 plain
  obtain ⟨after, second, most⟩ := @add_one nft list ips middle _ .ipv6 more
  refine ⟨after, commit_cons_ok first (commit_cons_ok second rfl), most.congr rfl ?_⟩
  intro table key
  rw [among_append]
  cases table <;> simp

private theorem commit_deletes {keys} (plain : kernel.Plain list.name keys)
    (committed : kernel.commit nft (families.map (list.deleteMsg ips)) = .ok after) :
    after.Plain list.name fun table key => keys table key ∧ ¬ among ips table key := by
  obtain ⟨middle, first, rest⟩ := commit_cons committed
  obtain ⟨last, second, ends⟩ := commit_cons rest
  cases ends
  refine ((plain.delete first).delete second).congr rfl ?_
  intro table key
  have listed : (∃ element ∈ createIPSetElements ips table, element.key = key) ↔ among ips table key := by
    constructor
    · rintro ⟨element, member, rfl⟩
      exact (mem_createIPSetElements.mp member).2
    · intro member
      exact ⟨⟨key, none⟩, mem_createIPSetElements.mpr ⟨rfl, member⟩, rfl⟩
  cases table <;> simp [listed]

theorem Kernel.Plain.mem_iff {name} {keys} (plain : kernel.Plain name keys) (table : Family) (key : Bytes) :
    (∃ elements, kernel.sets table name = some elements ∧ key ∈ elements) ↔ keys table key := by
  obtain ⟨elements, known, holds⟩ := plain table
  constructor
  · rintro ⟨other, same, member⟩
    cases known.symm.trans same
    obtain ⟨data, found⟩ := Option.isSome_iff_exists.mp (lookup_isSome.mpr member)
    exact ((holds key data).mp found).2
  · intro listed
    exact ⟨elements, known, lookup_isSome.mp (by rw [(holds key none).mpr ⟨rfl, listed⟩]; rfl)⟩

/-! The rules. -/

theorem IPList.rules_ne (list : IPList) : list.rules ≠ [] := by
  cases list <;> simp [IPList.rules, families, denyListRules, allowListRules]

theorem IPList.offered (list : IPList) : Offered list.rules := by
  cases list with
  | deny => exact .denied
  | allow => exact .allowed

theorem IPList.rules_accepted {keys} (chains : ∀ table, (kernel.chains table "prerouting").isSome = true)
    (plain : kernel.Plain list.name keys) : ∀ rule ∈ list.rules, kernel.accepts rule = true := by
  have sets : ∀ table, (kernel.sets table list.name).isSome = true := by
    intro table
    obtain ⟨elements, known, -⟩ := plain table
    rw [known]
    rfl
  intro rule member
  cases list <;>
    simp only [rules, families, flatMap_cons, flatMap_nil, denyListRules, allowListRules,
      append_nil, cons_append, nil_append, mem_cons, not_mem_nil, or_false] at member
  · rcases member with rfl | rfl <;>
      simp [accepts, chains, Expr.setName?, saddrExprs, sets, show "ip_denylist" = deny.name from rfl]
  · rcases member with rfl | rfl | rfl | rfl <;>
      simp [accepts, chains, Expr.setName?, saddrExprs, sets, show "ip_allowlist" = allow.name from rfl]

/-- The router between two calls: the rules of the list are filed and committed exactly
while it has addresses, and what waits in the queue is already committed. -/
structure Tracks (list : IPList) (base : List Rule) (live : List Addr) (world : World) : Prop where
  books : Books base world
  made : world.router.made = true
  tables : world.router.tables = true
  chains : ∀ table, (world.kernel.chains table "prerouting").isSome = true
  waiting : ∀ msg ∈ world.queue, Redundant list live msg
  plain : world.kernel.Plain list.name (among live)
  open_iff : world.router.ruleMap.lookup list.name = none ↔ live = []
  filed : live ≠ [] → ∀ rule ∈ list.rules, rule.content ∈ (held world.router.ruleMap list.name).map Rule.content
  alone : ∀ key, key ≠ list.name → held world.router.ruleMap key = []

theorem Tracks.congr {other} (tracks : Tracks list base live world) (router : other.router = world.router)
    (kernel : other.kernel = world.kernel) (queue : other.queue = world.queue) : Tracks list base live other := by
  obtain ⟨_, _, _, faults, calls, failed⟩ := other
  subst router kernel queue
  exact ⟨tracks.books.congr rfl rfl rfl tracks.books.quiet, tracks.made, tracks.tables, tracks.chains, tracks.waiting,
    tracks.plain, tracks.open_iff, tracks.filed, tracks.alone⟩

theorem Tracks.listed (tracks : Tracks list base live world) : Listed list live world.kernel := by
  refine ⟨tracks.plain.mem_iff, ?_⟩
  intro rule member
  constructor
  · intro committed
    obtain ⟨found, standing, same⟩ := mem_map.mp committed
    rcases tracks.books.owned found standing with basic | referred
    · -- the rules of `NewFilterRouter` look up verdict maps
      obtain ⟨-, expr, said, basic⟩ := tracks.books.based found basic
      simp only [Rule.content, Prod.mk.injEq] at same
      simp [(list.offered.built rule member).added expr (same.2.2 ▸ said)] at basic
    · obtain ⟨key, filed, held, -⟩ := Router.references_pos.mp referred
      intro empty
      by_cases mine : key = list.name
      · subst mine
        simp [RefCount.held, tracks.open_iff.mpr empty] at held
      · simp [tracks.alone key mine] at held
  · intro some
    obtain ⟨filed, held, same⟩ := mem_map.mp (tracks.filed some rule member)
    obtain ⟨found, standing, equal, -⟩ := tracks.books.filed _ filed held
    exact mem_map.mpr ⟨found, standing, equal.trans same⟩

theorem Fresh.tracks {denyAll} (fresh : Fresh deps denyAll world) : Tracks list world.kernel.rules [] world := by
  obtain ⟨kernel, committed, router, sameKernel, queue, -⟩ := fresh.at
  have ends : empty.commit deps.nft (freshMsgs denyAll) = .ok _ := rfl
  refine ⟨fresh.books.1, by rw [router]; rfl, by rw [router]; rfl, ?_, by simp [queue], ?_, ?_, by simp, ?_⟩
  · rw [sameKernel, ← Except.ok.inj (ends.symm.trans committed)]
    intro table
    cases table <;> rfl
  · rw [sameKernel, ← Except.ok.inj (ends.symm.trans committed)]
    intro table
    refine ⟨∅, by cases table <;> cases list <;> rfl, ?_⟩
    simp [among]
  · rw [router]
    exact iff_of_true rfl rfl
  · intro key other
    rw [router]
    rfl

/-! What the calls of an operation on a list come to, as long as none fails unheard. -/

variable {router : Router} {queue : List Msg} {faults : Site → Nat → Bool} {calls : Site → Nat} {failed : List (Site × Nat)}

/-- A message for each table, sent regardless of errors. -/
def sendBoth (site : Site) (send : Family → Msg) : RouterM Unit :=
  forM families fun table => do
    if !(← get).router.made then throw (.panic .indexOutOfRange)
    let _ ← attempt (queueCall site (send table))

/-- The state after a call whose error is dropped. -/
def World.tried (world : World) (site : Site) : World :=
  { world with
    calls := bump world.calls site
    failed := if world.faults site (world.calls site) then world.failed ++ [(site, world.calls site)] else world.failed }

def World.sent (world : World) (site : Site) (msg : Msg) : World :=
  { world.tried site with queue := if world.faults site (world.calls site) then world.queue else world.queue ++ [msg] }

/-- The state after both set calls of an operation. -/
def World.sentBoth (world : World) (site : Site) (send : Family → Msg) : World :=
  (world.sent site (send .ipv4)).sent site (send .ipv6)

theorem sendBoth_ran {site} {send} (made : world.router.made = true) :
    (sendBoth site send).run world = .ok () (world.sentBoth site send) := by
  have turn : ∀ (world : World) (msg : Msg), world.router.made = true →
      run (do
        if !(← get).router.made then throw (.panic .indexOutOfRange)
        let _ ← attempt (queueCall site msg) : RouterM Unit) world = .ok () (world.sent site msg) := by
    rintro ⟨router, kernel, queue, faults, calls, failed⟩ msg made
    simp only at made
    simp only [run_bind, run_get, made, Bool.not_true, Bool.false_eq_true, if_false, bind_pure_comp, map_run,
      attempt_run, queueCall_run]
    cases failing : faults site (calls site) <;> simp [sent, tried, failing]
  simp only [sendBoth, families, forM_cons, forM_nil]
  rw [run_bind, turn world _ made]
  simp only
  rw [run_bind, turn (world.sent site (send .ipv4)) _ made]
  rfl

private theorem sendBoth_run {site} {send} (made : router.made = true) (heard : ∀ index, faults site index = false) :
    ∃ calls', (sendBoth site send).run ⟨router, kernel, queue, faults, calls, failed⟩ =
      .ok () ⟨router, kernel, queue ++ families.map send, faults, calls', failed⟩ := by
  rw [sendBoth_ran made]
  exact ⟨bump (bump calls site) site, by simp [sentBoth, sent, tried, heard, families]⟩

theorem addIPSetElements_eq (list : IPList) (ips : List Addr) :
    addIPSetElements list ips = sendBoth .ipSetAddElements (list.addMsg ips) := rfl

theorem deleteIPSetElements_eq (deps : Deps) (list : IPList) (ips : List Addr) :
    deleteIPSetElements deps list ips = (do
      sendBoth .ipSetDeleteElements (list.deleteMsg ips)
      flush deps.nft .ipSetFlush
      let size4 ← setSize list .ipv4
      let size6 ← setSize list .ipv6
      return (size4, size6)) := rfl

theorem setSize_ran {table elements} (known : world.kernel.sets table list.name = some elements) :
    (setSize list table).run world =
      .ok (if world.faults .ipSetGetElements (world.calls .ipSetGetElements) then 0 else elements.entries.length)
        (world.tried .ipSetGetElements) := by
  obtain ⟨router, kernel, queue, faults, calls, failed⟩ := world
  simp only at known
  by_cases failing : faults .ipSetGetElements (calls .ipSetGetElements) = true <;>
    simp [setSize, attempt_run, getSetElements_run, known, tried, failing]

private theorem setSize_run {elements table} (heard : ∀ index, faults .ipSetGetElements index = false)
    (known : kernel.sets table list.name = some elements) :
    ∃ calls', (setSize list table).run ⟨router, kernel, queue, faults, calls, failed⟩ =
      .ok elements.entries.length ⟨router, kernel, queue, faults, calls', failed⟩ := by
  rw [setSize_ran known]
  exact ⟨bump calls .ipSetGetElements, by simp [tried, heard]⟩

private theorem entries_empty_iff {elements : Elements} {keys : Bytes → Prop}
    (holds : ∀ key data, elements.lookup key = some data ↔ data = none ∧ keys key) :
    elements.entries.length = 0 ↔ ¬ ∃ key, keys key := by
  rw [length_eq_zero_iff]
  constructor
  · rintro empty ⟨key, listed⟩
    have found := (holds key none).mpr ⟨rfl, listed⟩
    simp [AList.lookup, empty] at found
  · intro none
    cases same : elements.entries with
    | nil => rfl
    | cons entry entries =>
      have found : elements.lookup entry.1 = some entry.2 := by
        rw [AList.lookup, same]
        exact dlookup_cons_eq ..
      exact absurd ⟨entry.1, ((holds _ _).mp found).2⟩ none

private theorem tracked_setsOnly (tracks : Tracks list base live world) {more}
    (only : ∀ msg ∈ more, msg.setsOnly = true) : ∀ msg ∈ world.queue ++ more, msg.setsOnly = true := by
  intro msg member
  rcases mem_append.mp member with old | new
  · obtain ⟨-, -, rfl, -⟩ := tracks.waiting msg old
    rfl
  · exact only msg new

private theorem ruleFree_of_setsOnly {msg : Msg} (only : msg.setsOnly = true) : msg.ruleFree = true := by
  cases msg <;> first | rfl | cases only

private theorem delete_cases {after : World} (tracks : Tracks list base live ⟨router, kernel, queue, faults, calls, failed⟩)
    (heard : list.Heard faults)
    (returned : (deleteIPsFromList deps list ips).run ⟨router, kernel, queue, faults, calls, failed⟩ = .ok () after) :
    ∃ middle calls', middle.Plain list.name (fun table key => among live table key ∧ ¬ among ips table key) ∧
      middle.rules = kernel.rules ∧ middle.chains = kernel.chains ∧
      ((∃ table key, among live table key ∧ ¬ among ips table key) → after = ⟨router, middle, [], faults, calls', failed⟩) ∧
      ((¬ ∃ table key, among live table key ∧ ¬ among ips table key) →
        (deleteFilter deps.nft list.name).run ⟨router, middle, [], faults, calls', failed⟩ = .ok () after) := by
  obtain ⟨sent, queued⟩ := @sendBoth_run kernel router queue faults calls failed .ipSetDeleteElements (list.deleteMsg ips)
    tracks.made fun index => heard _ _ rfl
  simp only [deleteIPsFromList, deleteIPSetElements_eq, run_bind, queued] at returned
  rcases @flush_cases deps.nft router kernel (queue ++ families.map (list.deleteMsg ips)) faults sent failed .ipSetFlush with
    ⟨middle, flushed, committed, -, ran⟩ | ⟨-, flushed, ran⟩
  · obtain ⟨settled, setup, rest⟩ := commit_append committed
    obtain ⟨same, redundant, plain⟩ := commit_redundant tracks.plain tracks.waiting
    cases setup.symm.trans redundant
    have left := commit_deletes plain rest
    have kept := commit_setsOnly (tracked_setsOnly tracks (by simp [families, deleteMsg, Msg.setsOnly])) committed
    obtain ⟨first, known4, holds4⟩ := left .ipv4
    obtain ⟨second, known6, holds6⟩ := left .ipv6
    obtain ⟨once, size4⟩ := @setSize_run list middle router [] faults flushed failed first .ipv4 (fun index => heard _ _ rfl) known4
    obtain ⟨twice, size6⟩ := @setSize_run list middle router [] faults once failed second .ipv6 (fun index => heard _ _ rfl) known6
    have some_iff : (first.entries.length = 0 ∧ second.entries.length = 0) ↔
        ¬ ∃ table key, among live table key ∧ ¬ among ips table key := by
      rw [entries_empty_iff holds4, entries_empty_iff holds6]
      constructor
      · rintro ⟨none4, none6⟩ ⟨table, listed⟩
        cases table with
        | ipv4 => exact none4 listed
        | ipv6 => exact none6 listed
      · exact fun none => ⟨fun listed => none ⟨_, listed⟩, fun listed => none ⟨_, listed⟩⟩
    simp only [ran, size4, size6, run_pure] at returned
    refine ⟨middle, twice, left, by rw [kept], by rw [kept], ?_, ?_⟩
    · intro some
      rw [if_neg (not_imp_not.mpr some_iff.mp (not_not.mpr some))] at returned
      cases returned
      rfl
    · intro none
      rwa [if_pos (some_iff.mpr none)] at returned
  · simp [ran] at returned

/-- What a call makes of the list: it is right afterwards exactly if the call was clean. -/
structure Follows (list : IPList) (base : List Rule) (live : List Addr) (call : ListCall) (after : World) : Prop where
  clean : Listed list (call.live live) after.kernel → call.Clean live
  tracks : call.Clean live → Tracks list base (call.live live) after

private theorem among_filter (clean : (ListCall.delete ips).Clean live) (table : Family) (key : Bytes) :
    (among live table key ∧ ¬ among ips table key) ↔ among ((ListCall.delete ips).live live) table key := by
  simp only [among, ListCall.live, mem_map, mem_filter, decide_eq_true_eq]
  constructor
  · rintro ⟨⟨ip, member, named⟩, outside⟩
    exact ⟨ip, ⟨member, fun deleted => outside ⟨ip, deleted, named⟩⟩, named⟩
  · rintro ⟨ip, ⟨member, kept⟩, named⟩
    refine ⟨⟨ip, member, named⟩, ?_⟩
    rintro ⟨other, deleted, same⟩
    exact clean ip member kept (mem_map.mpr ⟨other, deleted, same.trans named.symm⟩)

private theorem live_ne_nil (some : ∃ table key, among live table key) : live ≠ [] := by
  rintro rfl
  obtain ⟨table, key, listed⟩ := some
  simp [among] at listed

private theorem eq_nil_of_none (none : ¬ ∃ table key, among live table key) : live = [] := by
  cases live with
  | nil => rfl
  | cons ip live => exact absurd ⟨ip.element.1, ip.element.2, by simp [among]⟩ none

theorem Tracks.delete {after} (tracks : Tracks list base live world) (heard : list.Heard world.faults)
    (returned : (deleteIPsFromList deps list ips).run world = .ok () after) :
    Follows list base live (.delete ips) after := by
  obtain ⟨router, kernel, queue, faults, calls, failed⟩ := world
  obtain ⟨middle, calls', plain, rules, chains, some, none⟩ := delete_cases tracks heard returned
  have books : Books base ⟨router, middle, [], faults, calls', failed⟩ := tracks.books.congr rfl rfl rules (by simp)
  -- a set that is missing an address is missing it once the rules are gone, too
  have wanted {kernel' : Kernel} (sets : kernel'.sets = middle.sets)
      (listed : Listed list ((ListCall.delete ips).live live) kernel') : (ListCall.delete ips).Clean live := by
    intro ip member kept deleted
    have stays : among ((ListCall.delete ips).live live) ip.element.1 ip.element.2 :=
      mem_map.mpr ⟨ip, mem_filter.mpr ⟨member, by simpa using kept⟩, rfl⟩
    have found := (listed.elements ip.element.1 ip.element.2).mpr stays
    rw [sets, plain.mem_iff] at found
    exact found.2 deleted
  by_cases left : ∃ table key, among live table key ∧ ¬ among ips table key
  · have ends := some left
    subst ends
    refine ⟨wanted rfl, ?_⟩
    intro clean
    have remain : (ListCall.delete ips).live live ≠ [] := by
      apply live_ne_nil
      obtain ⟨table, key, listed⟩ := left
      exact ⟨table, key, (among_filter clean table key).mp listed⟩
    have present : live ≠ [] := by
      apply live_ne_nil
      obtain ⟨table, key, listed, -⟩ := left
      exact ⟨table, key, listed⟩
    refine ⟨books, tracks.made, tracks.tables, ?_, by simp, plain.congr rfl (among_filter clean), ?_, ?_, tracks.alone⟩
    · rw [chains]
      exact tracks.chains
    · exact iff_of_false (fun gone => present (tracks.open_iff.mp gone)) remain
    · exact fun _ => tracks.filed present
  · have outcome : DeleteOutcome deps.nft list.name ⟨router, middle, [], faults, calls', failed⟩ _ :=
      deleteFilter_outcome books.counted fun rule => books.handle_pos
    rw [none left] at outcome
    cases outcome with
    | @deleted rules refs calls'' final held counted committed =>
      have sets : final.sets = middle.sets := by rw [commit_remove committed]
      have stand : final.chains = middle.chains := by rw [commit_remove committed]
      refine ⟨wanted sets, ?_⟩
      intro clean
      have empty : (ListCall.delete ips).live live = [] := by
        apply eq_nil_of_none
        rintro ⟨table, key, listed⟩
        exact left ⟨table, key, (among_filter clean table key).mpr listed⟩
      have gone := books.removed held counted (books.deleted committed)
      refine ⟨gone.congr rfl rfl rfl (by simp), tracks.made, tracks.tables, ?_, by simp,
        plain.congr sets (among_filter clean), ?_, fun some => absurd empty some, ?_⟩
      · simp only [stand, chains]
        exact tracks.chains
      · exact iff_of_true (by simp [without]) empty
      · intro key other
        simp only [without, held_erase, if_neg other]
        exact tracks.alone key other

private def World.adding (world : World) (list : IPList) (ips : List Addr) (calls : Site → Nat) : World :=
  { world with queue := world.queue ++ families.map (list.addMsg ips), calls }

private theorem Tracks.adding_books (tracks : Tracks list base live world) (calls : Site → Nat) :
    Books base (world.adding list ips calls) := by
  refine tracks.books.congr rfl rfl rfl ?_
  intro msg member
  exact ruleFree_of_setsOnly (tracked_setsOnly tracks (by simp [families, addMsg, Msg.setsOnly]) msg member)

private theorem Tracks.commit_batch (tracks : Tracks list base live world) (calls : Site → Nat) :
    ∃ final, world.kernel.commit nft ((world.adding list ips calls).batch list.rules false) = .ok final ∧
      final.Plain list.name (among (live ++ ips)) ∧ final.chains = world.kernel.chains := by
  obtain ⟨settled, redundant, plain⟩ := @commit_redundant nft list live world.kernel _ tracks.plain tracks.waiting
  obtain ⟨added, adds, plain⟩ := @commit_adds nft list ips live settled plain
  have queued := commit_append_ok redundant adds
  have chains : added.chains = world.kernel.chains := by
    rw [commit_setsOnly (tracked_setsOnly tracks (by simp [families, addMsg, Msg.setsOnly])) queued]
  obtain ⟨final, placed⟩ := @commit_placing nft added (world.kernel.missing list.rules) false
    (fun rule member => rules_accepted (chains ▸ tracks.chains) plain rule (mem_filter.mp member).1)
    fun inserts => by cases inserts
  obtain ⟨same, sets⟩ := commit_places placed
  exact ⟨final, commit_append_ok queued placed, plain.congr sets fun _ _ => Iff.rfl, same.trans chains⟩

/-- The save of an addition; the allow list drops its error. -/
def IPList.save (deps : Deps) : IPList → RouterM Unit
  | deny => saveFilterRules deps.nft deny.name deny.rules false
  | allow => do
    let _ ← attempt (saveFilterRules deps.nft allow.name allow.rules false)

theorem add_exec (deps : Deps) (list : IPList) (ips : List Addr) :
    ((ListCall.add ips).op list).exec deps = (do
      if 0 < ips.length then
        addIPSetElements list ips
        if (← get).router.ruleMap.lookup list.name |>.isNone then
          getChain
          list.save deps) := by
  cases list <;> rfl

theorem delete_exec (deps : Deps) (list : IPList) (ips : List Addr) :
    ((ListCall.delete ips).op list).exec deps = deleteIPsFromList deps list ips := by
  cases list <;> rfl

private theorem save_returned {after} (ready : Ready world list.rules) (heard : list.Heard world.faults)
    (accepted : ∃ final, world.kernel.commit deps.nft (world.batch list.rules false) = .ok final)
    (returned : (list.save deps).run world = .ok () after) :
    ∃ calls final, world.kernel.commit deps.nft (world.batch list.rules false) = .ok final ∧
      after = { world.saved list.name list.rules final with calls } := by
  cases list with
  | deny =>
    have outcome : SaveOutcome deps.nft deny.name deny.rules false world _ := saveFilterRules_outcome ready
    rw [show (saveFilterRules deps.nft deny.name deny.rules false).run world = _ from returned] at outcome
    cases outcome with
    | saved committed => exact ⟨_, _, committed, rfl⟩
  | allow =>
    obtain ⟨final, committed⟩ := accepted
    obtain ⟨calls, ran⟩ := @saveFilterRules_saved deps.nft _ _ allow.name _ _ ready.savable
      (fun index => ⟨heard _ _ rfl, heard _ _ rfl, heard _ _ rfl⟩) committed
    simp only [save, bind_pure_comp, map_run, attempt_run, ran] at returned
    cases returned
    exact ⟨calls, final, committed, rfl⟩

/-- An addition that returns nil has queued its addresses, and it has saved the rules if they were not. -/
private theorem add_cases {after} (tracks : Tracks list base live world) (heard : list.Heard world.faults)
    (some : ips ≠ []) (returned : (((ListCall.add ips).op list).exec deps).run world = .ok () after) :
    ∃ sent, (live ≠ [] → after = world.adding list ips sent) ∧
      (live = [] → ∃ calls final,
        world.kernel.commit deps.nft ((world.adding list ips sent).batch list.rules false) = .ok final ∧
        after = { (world.adding list ips sent).saved list.name list.rules final with calls }) := by
  obtain ⟨sent, queued⟩ := @sendBoth_run world.kernel world.router world.queue world.faults world.calls world.failed
    .ipSetAddElements (list.addMsg ips) tracks.made fun index => heard _ _ rfl
  have sentTo : (addIPSetElements list ips).run world = .ok () (world.adding list ips sent) := queued
  have filed_iff : ((world.adding list ips sent).router.ruleMap.lookup list.name).isNone = true ↔ live = [] := by
    rw [Option.isNone_iff_eq_none]
    exact tracks.open_iff
  simp only [add_exec, if_pos (length_pos_iff.mpr some), run_bind, sentTo, run_get] at returned
  refine ⟨sent, ?_, ?_⟩
  · intro present
    rw [if_neg fun unfiled => present (filed_iff.mp unfiled)] at returned
    cases returned
    rfl
  · intro empty
    have open_ : getChain.run (world.adding list ips sent) = .ok () (world.adding list ips sent) := by
      simp [getChain, show (world.adding list ips sent).router.tables = true from tracks.tables]
    rw [if_pos (filed_iff.mpr empty), run_bind, open_] at returned
    have books : Books base (world.adding list ips sent) := tracks.adding_books sent
    obtain ⟨final, accepted, -⟩ := @Tracks.commit_batch deps.nft list ips live base world tracks sent
    exact save_returned ⟨books.sound, books.quiet, fun rule member => (list.offered.built rule member).toStandard,
      list.offered.distinct⟩ heard ⟨final, accepted⟩ returned

private theorem Tracks.saved (tracks : Tracks list base live world) (sent : Site → Nat) {final} {calls}
    (committed : world.kernel.commit nft ((world.adding list ips sent).batch list.rules false) = .ok final)
    (plain : final.Plain list.name (among (live ++ ips))) (chains : final.chains = world.kernel.chains)
    (more : live ++ ips ≠ []) :
    Tracks list base (live ++ ips) { (world.adding list ips sent).saved list.name list.rules final with calls } := by
  have queued : Books base (world.adding list ips sent) := tracks.adding_books sent
  have books : Books base ((world.adding list ips sent).saved list.name list.rules final) :=
    queued.saved list.offered.built list.offered.distinct committed
  obtain ⟨refs, shape, -⟩ := @saved_shape (world.adding list ips sent) list.rules list.name final queued.counted
    list.rules_ne
  refine ⟨books.congr rfl rfl rfl books.quiet, ?_, ?_, ?_, by simp [World.saved], plain, ?_, ?_, ?_⟩
  · simp only [shape]
    exact tracks.made
  · simp only [shape]
    exact tracks.tables
  · exact chains ▸ tracks.chains
  · exact iff_of_false (by simp [shape, file]) more
  · intro _ rule member
    simp only [shape, file, held_insert, if_pos, map_append, mem_append, map_map]
    exact .inr (mem_map.mpr ⟨rule, member, rfl⟩)
  · intro key other
    simp only [shape, file, held_insert, if_neg other]
    exact tracks.alone key other

theorem Tracks.add {after} (tracks : Tracks list base live world) (heard : list.Heard world.faults)
    (returned : (((ListCall.add ips).op list).exec deps).run world = .ok () after) :
    Follows list base live (.add ips) after := by
  by_cases none : ips = []
  · subst none
    simp only [add_exec, length_nil, Nat.lt_irrefl, if_false] at returned
    cases returned
    exact ⟨fun _ => .inr (by simp), fun _ => by simpa [ListCall.live] using tracks⟩
  obtain ⟨sent, waits, saves⟩ := add_cases tracks heard none returned
  have more : live ++ ips ≠ [] := by simp [none]
  by_cases empty : live = []
  · obtain ⟨-, final, committed, rfl⟩ := saves empty
    obtain ⟨other, accepted, plain, chains⟩ := @Tracks.commit_batch deps.nft list ips live base world tracks sent
    cases committed.symm.trans accepted
    refine ⟨fun _ => .inl empty, fun _ => ?_⟩
    exact tracks.saved sent committed plain chains more
  · cases waits empty
    constructor
    · intro listed
      refine .inr fun ip member => ?_
      have wanted : among (live ++ ips) ip.element.1 ip.element.2 :=
        mem_map.mpr ⟨ip, mem_append_right _ member, rfl⟩
      have found := (listed.elements _ _).mpr wanted
      exact (tracks.plain.mem_iff _ _).mp found
    · intro clean
      have covered := clean.resolve_left empty
      have same : ∀ table key, among live table key ↔ among (live ++ ips) table key := by
        intro table key
        rw [among_append, or_iff_left_of_imp]
        intro new
        obtain ⟨ip, member, named⟩ := mem_map.mp new
        exact show (table, key) ∈ live.map element from named ▸ covered ip member
      refine ⟨tracks.adding_books sent, tracks.made, tracks.tables, tracks.chains, ?_, tracks.plain.congr rfl same,
        ?_, fun _ => tracks.filed empty, tracks.alone⟩
      · intro msg member
        rcases mem_append.mp member with old | new
        · obtain ⟨others, table, named, known⟩ := tracks.waiting msg old
          exact ⟨others, table, named, fun ip member => (same _ _).mp (known ip member)⟩
        · obtain ⟨table, -, rfl⟩ := mem_map.mp new
          exact ⟨ips, table, rfl, fun ip member => (same _ _).mp (covered ip member)⟩
      · exact iff_of_false (fun gone => empty (tracks.open_iff.mp gone)) more

/-! Whole runs. -/

theorem Tracks.call {after call} (tracks : Tracks list base live world) (heard : list.Heard faults)
    (returned : world.run deps ⟨call.op list, faults⟩ = .ok () after) : Follows list base live call after := by
  have begins : Tracks list base live (world.begin faults) := tracks.congr rfl rfl rfl
  cases call with
  | add ips => exact begins.add heard returned
  | delete ips =>
    rw [World.run, delete_exec] at returned
    exact begins.delete heard returned

theorem ListRun.tracks {denyAll start} (fresh : Fresh deps denyAll start) (ran : ListRun deps list start world live) :
    Tracks list start.kernel.rules live world := by
  induction ran with
  | start => exact fresh.tracks
  | call _ heard clean returned ih => exact (ih.call heard returned).tracks clean

/-- In every run of clean calls that fail nowhere unheard, the list is right after each
call, and the next call leaves it right exactly if it is clean, too. -/
theorem list_run_iff {denyAll : Bool} {start : World} (fresh : Fresh deps denyAll start)
    (ran : ListRun deps list start world live) :
    Listed list live world.kernel ∧ ∀ (call : ListCall) (faults : Site → Nat → Bool) (after : World), list.Heard faults →
      world.run deps ⟨call.op list, faults⟩ = .ok () after →
        (Listed list (call.live live) after.kernel ↔ call.Clean live) := by
  have tracks := ran.tracks fresh
  refine ⟨tracks.listed, ?_⟩
  intro call faults after heard returned
  have follows := tracks.call heard returned
  exact ⟨follows.clean, fun clean => (follows.tracks clean).listed⟩

/-- Two addresses are added and one of them is deleted. -/
theorem list_run_deleted :
    let deps : Deps := ⟨.counting, id⟩
    let start := fresh deps true
    let first := start.next deps { op := .addIPsToDenyList [.v4 0x0a000001, .v6 1 ""] }
    let second := first.next deps { op := .deleteIPsFromDenyList [.v4 0x0a000001] }
    Fresh deps true start ∧ Listed .deny [.v6 1 ""] second.kernel := by
  intro deps start first second
  have fresh : Fresh deps true start := fresh_of_returned (by decide +kernel)
  have quiet : deny.Heard fun _ _ => false := fun _ _ _ => rfl
  have added : ListRun deps .deny start first [.v4 0x0a000001, .v6 1 ""] :=
    have clean : (ListCall.add [.v4 0x0a000001, .v6 1 ""]).Clean [] := .inl rfl
    .call .start quiet clean (eq_ok_of_returned (by decide +kernel))
  have deleted : ListRun deps .deny start second ((ListCall.delete [.v4 0x0a000001]).live [.v4 0x0a000001, .v6 1 ""]) :=
    .call added quiet (by unfold ListCall.Clean; decide) (eq_ok_of_returned (by decide +kernel))
  exact ⟨fresh, (list_run_iff fresh deleted).1⟩

theorem Listed.lookup {table key} (listed : Listed list live kernel) (member : among live table key) :
    ((kernel.sets table list.name).bind (·.lookup key)).isSome = true := by
  obtain ⟨elements, known, present⟩ := (listed.elements table key).mpr member
  rw [known]
  exact lookup_isSome.mpr present

/-- The second of two additions stays in the queue. -/
theorem second_addition_not_listed :
    let deps : Deps := ⟨.counting, id⟩
    let start := fresh deps true
    let first : Step := { op := .addIPsToDenyList [.v4 0x0a000001] }
    let second : Step := { op := .addIPsToDenyList [.v4 0x0a000002] }
    let world := start.next deps first
    let after := world.next deps second
    Fresh deps true start ∧ returned (start.run deps first) = true ∧ returned (world.run deps second) = true ∧
      ¬ Listed .deny [.v4 0x0a000001, .v4 0x0a000002] after.kernel := by
  intro deps start first second world after
  refine ⟨fresh_of_returned (by decide +kernel), by decide +kernel, by decide +kernel, ?_⟩
  have missing : ((after.kernel.sets .ipv4 deny.name).bind (·.lookup [10, 0, 0, 2])).isSome = false := by
    decide +kernel
  intro listed
  exact Bool.false_ne_true (missing.symm.trans (listed.lookup (by unfold among; decide)))

end MycsCommon.Network
