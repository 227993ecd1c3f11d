import MycsCommon.Network.NetworkContext

/-! The families of the routes that the context records. The source of a route without one is
the interface's first address, whatever its family, and an address of a wrong length is
logged with an error that is nil. -/

namespace MycsCommon.Network
open List Addr Context Except Interface NetlinkRoute Option

variable {Fault : Type} {host : Host Fault} {iface : Interface Fault} {family : Family} {route : NetlinkRoute}

def Addr.isOf : Family → Addr → Bool
  | .ipv4 => is4
  | .ipv6 => is6

def Family.width : Family → Nat
  | .ipv4 => 4
  | .ipv6 => 16

def Route.Consistent (family : Family) (r : Route) : Prop :=
  r.srcIP.isValid = true → r.srcIP.isOf family = true ∧ r.destIP.isOf family = true ∧ r.destCIDR.addr.isOf family = true

/-- Every recorded route fits the table it was read from. -/
structure Context.Consistent (network : Context) : Prop where
  ipv4 : ∀ r ∈ network.defaultIPv4Route, r.Consistent .ipv4
  ipv6 : ∀ r ∈ network.defaultIPv6Route, r.Consistent .ipv6
  static : ∀ recorded ∈ network.staticRoutes, recorded.2.Consistent recorded.1

/-- The length of an address of either family. -/
def Sized (slice : Bytes) : Prop := slice.length = 4 ∨ slice.length = 16

/-- The first address of the interface, where there is one that parses. -/
def Interface.first (host : Host Fault) (iface : Interface Fault) : Option Addr :=
  (iface.addrs.toOption.bind head?).bind fun text => (host.parsePrefix text).toOption.map (·.addr)

/-- The interface's addresses cannot be read, or the first of them cannot be parsed. -/
def Interface.Unread (host : Host Fault) (iface : Interface Fault) : Prop :=
  iface.addrs.toOption = none ∨ ∃ first rest, iface.addrs.toOption = some (first :: rest) ∧ (host.parsePrefix first).toOption = none

/-- The route has a source address, or its interface has one. -/
def NetlinkRoute.Sourced (host : Host Fault) (iface : Interface Fault) (route : NetlinkRoute) : Prop :=
  match route.src with
  | some _ => True
  | none => ∃ addr ∈ iface.first host, addr.isValid = true

/-- The source address, where there is one, is of the family. -/
def NetlinkRoute.SourceFits (host : Host Fault) (iface : Interface Fault) (family : Family) (route : NetlinkRoute) : Prop :=
  match route.src with
  | some src => src.length = family.width
  | none => ∀ addr ∈ iface.first host, addr.isValid = true → addr.isOf family = true

/-- No address of the route is malformed, but for a destination after an error that is still there to be logged. -/
structure NetlinkRoute.Loggable (host : Host Fault) (iface : Interface Fault) (route : NetlinkRoute) : Prop where
  gw : ∀ gw ∈ route.gw, Sized gw
  src : ∀ src ∈ route.src, Sized src
  dst : ∀ dst ∈ route.dst, Sized dst.1 ∨ route.src = none ∧ iface.Unread host

/-- A route with a source and a destination has both of the family. -/
def NetlinkRoute.DestFits (host : Host Fault) (iface : Interface Fault) (family : Family) (route : NetlinkRoute) : Prop :=
  ∀ dst ∈ route.dst, route.Sourced host iface → route.SourceFits host iface family ∧ dst.1.length = family.width

theorem addrFromSlice_none {slice} (malformed : ¬ Sized slice) : addrFromSlice slice = none := by
  rw [Sized, not_or] at malformed
  rw [addrFromSlice, if_neg malformed.1, if_neg malformed.2]

theorem addrFromSlice_some {slice} (sized : Sized slice) : ∃ addr, addrFromSlice slice = some addr ∧
    addr.isValid = true ∧ ∀ family, addr.isOf family = true ↔ slice.length = family.width := by
  unfold addrFromSlice
  obtain four | sixteen := sized
  · refine ⟨_, if_pos four, rfl, fun family => ?_⟩
    cases family <;> simp [isOf, Family.width, four, is4, is6]
  · refine ⟨_, by rw [if_neg (by omega), if_pos sixteen], rfl, fun family => ?_⟩
    cases family <;> simp [isOf, Family.width, sixteen, is4, is6]

theorem srcIP_none (malformed : ∃ src ∈ route.src, ¬ Sized src) : route.srcIP host iface = none := by
  obtain ⟨src, given, malformed⟩ := malformed
  rw [mem_def] at given
  simp only [srcIP, given, addrFromSlice_none malformed, map_none]

theorem srcIP_some (sized : ∀ src ∈ route.src, Sized src) : ∃ addr err, route.srcIP host iface = some (addr, err) ∧
    (addr.isValid = true ↔ route.Sourced host iface) ∧
    (∀ family, route.SourceFits host iface family ↔ addr.isValid = true → addr.isOf family = true) ∧
    (err.isSome ↔ route.src = none ∧ iface.Unread host) := by
  unfold srcIP Sourced SourceFits Unread first
  cases given : route.src with
  | some src =>
    obtain ⟨addr, parsed, valid, families⟩ := addrFromSlice_some (sized src given)
    exact ⟨addr, none, by simp [parsed], by simp [valid], by simp [valid, families], by simp⟩
  | none =>
    cases read : iface.addrs with
    | error fault => exact ⟨.zero, some fault, rfl, by simp [Addr.isValid, Except.toOption]⟩
    | ok addrs =>
      cases addrs with
      | nil => exact ⟨.zero, none, rfl, by simp [Addr.isValid, Except.toOption]⟩
      | cons first rest =>
        cases parsed : host.parsePrefix first with
        | error fault => exact ⟨.zero, some fault, by simp [parsed], by simp [Addr.isValid, Except.toOption, parsed]⟩
        | ok network => exact ⟨network.addr, none, by simp [parsed], by simp [Except.toOption, parsed]⟩

theorem not_sourced (given : route.src = none) (unread : iface.Unread host) : ¬ route.Sourced host iface := by
  have none : iface.first host = none := by
    obtain failed | ⟨first, rest, read, unparsed⟩ := unread
    · simp [first, failed]
    · simp [Interface.first, read, unparsed]
  simp [Sourced, given, none]

theorem isOf_prefix (addr : Addr) (bits : Int) (family : Family) : (Prefix.of addr bits).addr.isOf family = addr.isOf family := by
  unfold Prefix.of
  split <;> cases addr <;> cases family <;> rfl

theorem gatewayIP_none (malformed : ∃ gw ∈ route.gw, ¬ Sized gw) : route.gatewayIP = none := by
  obtain ⟨gw, given, malformed⟩ := malformed
  rw [mem_def] at given
  rw [gatewayIP, given, elim_some, addrFromSlice_none malformed]

theorem gatewayIP_some (sized : ∀ gw ∈ route.gw, Sized gw) : ∃ addr, route.gatewayIP = some addr := by
  unfold gatewayIP
  cases given : route.gw with
  | none => exact ⟨.zero, rfl⟩
  | some gw =>
    obtain ⟨addr, parsed, -⟩ := addrFromSlice_some (sized gw given)
    exact ⟨addr, parsed⟩

theorem readRoute_panics (looked : host.interfaceByIndex route.linkIndex = .ok iface) (malformed : ¬ route.Loggable host iface) :
    readRoute host family route = .error .nilError := by
  simp only [readRoute, looked]
  by_cases gwSized : ∀ gw ∈ route.gw, Sized gw
  · obtain ⟨gateway, gatewayIs⟩ := gatewayIP_some gwSized
    rw [gatewayIs]
    by_cases srcSized : ∀ src ∈ route.src, Sized src
    · obtain ⟨addr, err, source, -, -, left⟩ := @srcIP_some _ host iface _ srcSized
      simp only [source]
      cases given : route.dst with
      | none => exact absurd ⟨gwSized, srcSized, by simp [given]⟩ malformed
      | some dst =>
        have wrong : ¬ (Sized dst.1 ∨ route.src = none ∧ iface.Unread host) :=
          fun fine => malformed ⟨gwSized, srcSized, by simpa [given] using fine⟩
        rw [not_or, ← left, not_isSome_iff_eq_none] at wrong
        simp only [addrFromSlice_none wrong.1, wrong.2, logInvalid]
    · rw [srcIP_none (by simpa using srcSized)]
      rfl
  · rw [gatewayIP_none (by simpa using gwSized)]
    rfl

/-- What a turn records, where it does not fail on its own log message. -/
theorem readRoute_spec (looked : host.interfaceByIndex route.linkIndex = .ok iface) (loggable : route.Loggable host iface) :
    (route.dst = none ∧ ∃ r, readRoute host family route = .ok (.default r) ∧
      (r.Consistent family ↔ route.SourceFits host iface family)) ∨
    (route.dst ≠ none ∧ ∃ r, readRoute host family route = .ok (.static r) ∧
      (r.Consistent family ↔ route.DestFits host iface family)) ∨
    (route.dst ≠ none ∧ readRoute host family route = .ok .skip ∧ route.DestFits host iface family) := by
  obtain ⟨gateway, gatewayIs⟩ := gatewayIP_some loggable.gw
  obtain ⟨addr, err, source, valid, fits, left⟩ := @srcIP_some _ host iface _ loggable.src
  simp only [readRoute, looked, gatewayIs, source]
  cases given : route.dst with
  | none =>
    refine .inl ⟨rfl, _, rfl, ?_⟩
    rw [fits]
    cases family <;> simp [Route.Consistent, defaultRoute, isOf_prefix] <;> simp [isOf, is4, is6]
  | some dst =>
    obtain ⟨ip, mask⟩ := dst
    by_cases sized : Sized ip
    · obtain ⟨destIP, parsed, -, families⟩ := addrFromSlice_some sized
      refine .inr (.inl ⟨some_ne_none _, _, by simp only [parsed]; rfl, ?_⟩)
      simp only [Route.Consistent, isOf_prefix, DestFits, given, mem_some_iff, forall_eq', ← valid, fits, families]
      tauto
    · have unread := (loggable.dst (ip, mask) given).resolve_left sized
      obtain ⟨fault, rfl⟩ := isSome_iff_exists.mp (left.mpr unread)
      refine .inr (.inr ⟨some_ne_none _, by simp only [addrFromSlice_none sized]; rfl, fun dst _ sourced => ?_⟩)
      exact absurd sourced (not_sourced unread.1 unread.2)

def Context.default : Family → Context → Option Route
  | .ipv4 => defaultIPv4Route
  | .ipv6 => defaultIPv6Route

/-- The routes before the first whose interface is not found: that one ends the loop. -/
def processed (host : Host Fault) (routes : List NetlinkRoute) : List NetlinkRoute :=
  routes.takeWhile fun route => (host.interfaceByIndex route.linkIndex).toOption.isSome

/-- The turn for a route does not panic, and a static route has both its addresses of the family if it has a source. -/
def NetlinkRoute.Fits (host : Host Fault) (family : Family) (route : NetlinkRoute) : Prop :=
  ∀ iface, host.interfaceByIndex route.linkIndex = .ok iface → route.Loggable host iface ∧ route.DestFits host iface family

/-- The last default route, which replaces those before it, has no source of another family. -/
def LastFits (host : Host Fault) (family : Family) (routes : List NetlinkRoute) : Prop :=
  ∀ route ∈ (routes.filter (·.dst.isNone)).getLast?, ∀ iface, host.interfaceByIndex route.linkIndex = .ok iface →
    route.SourceFits host iface family

/-- What is recorded for the table so far. -/
def Context.Fine (family : Family) (network : Context) : Prop :=
  (∀ recorded ∈ network.staticRoutes, recorded.2.Consistent recorded.1) ∧ ∀ r ∈ network.default family, r.Consistent family

theorem default_setDefault (network : Context) (r : Route) (family other : Family) :
    (network.setDefault r family).default other = if other = family then some r else network.default other := by
  cases family <;> cases other <;> rfl

theorem readRoutes_frame {routes network after err} (ran : readRoutes host family routes network = .ok (err, after)) :
    (∀ other ≠ family, after.default other = network.default other) ∧ (err = none ↔ processed host routes = routes) := by
  induction routes generalizing network with
  | nil =>
    obtain ⟨rfl, rfl⟩ : none = err ∧ network = after := by simpa [readRoutes] using ran
    exact ⟨fun _ _ => rfl, by simp [processed]⟩
  | cons route routes ih =>
    cases looked : host.interfaceByIndex route.linkIndex with
    | error fault =>
      obtain ⟨rfl, rfl⟩ : some fault = err ∧ network = after := by simpa [readRoutes, readRoute, looked] using ran
      exact ⟨fun _ _ => rfl, by simp [processed, looked, Except.toOption]⟩
    | ok iface =>
      have more : processed host (route :: routes) = route :: processed host routes := by
        simp [processed, looked, Except.toOption]
      rw [more, List.cons.injEq, and_iff_right rfl]
      by_cases loggable : route.Loggable host iface
      · obtain ⟨-, r, turn, -⟩ | ⟨-, r, turn, -⟩ | ⟨-, turn, -⟩ := @readRoute_spec _ _ _ family _ looked loggable <;>
          simp only [readRoutes, turn] at ran
        · obtain ⟨kept, complete⟩ := ih ran
          refine ⟨fun other different => ?_, complete⟩
          rw [kept other different, default_setDefault, if_neg different]
        · obtain ⟨kept, complete⟩ := ih ran
          refine ⟨fun other different => ?_, complete⟩
          rw [kept other different]
          cases other <;> rfl
        · exact ih ran
      · simp [readRoutes, readRoute_panics looked loggable] at ran

theorem lastFits_cons_iff {routes} (looked : host.interfaceByIndex route.linkIndex = .ok iface)
    (default : route.dst = none) : LastFits host family (route :: routes) ↔
      LastFits host family routes ∧ (routes.filter (·.dst.isNone) = [] → route.SourceFits host iface family) := by
  unfold LastFits
  rw [filter_cons, if_pos (by simp [default]), getLast?_cons]
  cases last : (routes.filter (·.dst.isNone)).getLast? with
  | none => simp [getLast?_eq_none_iff.mp last, looked]
  | some final =>
    have some : routes.filter (·.dst.isNone) ≠ [] := fun none => by simp [none] at last
    simp [some]

theorem readRoutes_fine_iff (routes : List NetlinkRoute) (network : Context) :
    (∃ err after, readRoutes host family routes network = .ok (err, after) ∧ after.Fine family) ↔
      (∀ route ∈ processed host routes, route.Fits host family) ∧
      (∀ recorded ∈ network.staticRoutes, recorded.2.Consistent recorded.1) ∧ LastFits host family (processed host routes) ∧
      ((processed host routes).filter (·.dst.isNone) = [] → ∀ r ∈ network.default family, r.Consistent family) := by
  induction routes generalizing network with
  | nil => simp [readRoutes, processed, LastFits, Fine]
  | cons route routes ih =>
    cases looked : host.interfaceByIndex route.linkIndex with
    | error fault => simp [readRoutes, readRoute, looked, processed, LastFits, Context.Fine, Except.toOption]
    | ok iface =>
      have more : processed host (route :: routes) = route :: processed host routes := by
        simp [processed, looked, Except.toOption]
      have here : route.Fits host family ↔ route.Loggable host iface ∧ route.DestFits host iface family := by
        simp [Fits, looked]
      rw [more, forall_mem_cons, here]
      by_cases loggable : route.Loggable host iface
      · rw [and_iff_right loggable]
        obtain ⟨default, r, turn, consistent⟩ | ⟨static, r, turn, consistent⟩ | ⟨static, turn, fits⟩ :=
          @readRoute_spec _ _ _ family _ looked loggable <;> simp only [readRoutes, turn, ih]
        · have vacuous : route.DestFits host iface family := by simp [DestFits, default]
          have statics : (network.setDefault r family).staticRoutes = network.staticRoutes := by cases family <;> rfl
          rw [and_iff_right vacuous, lastFits_cons_iff looked default, ← consistent, statics, default_setDefault, if_pos rfl,
            and_assoc]
          simp [default]
        · have kept : ({ network with staticRoutes := network.staticRoutes ++ [(family, r)] } : Context).default family =
              network.default family := by cases family <;> rfl
          have other : filter (·.dst.isNone) (route :: processed host routes) = filter (·.dst.isNone) (processed host routes) :=
            filter_cons_of_neg (by simpa using static)
          rw [kept, forall_mem_append, forall_mem_singleton, consistent, LastFits, LastFits, other]
          tauto
        · have other : filter (·.dst.isNone) (route :: processed host routes) = filter (·.dst.isNone) (processed host routes) :=
            filter_cons_of_neg (by simpa using static)
          rw [and_iff_right fits, LastFits, LastFits, other]
      · simp [readRoutes, readRoute_panics looked loggable, loggable]

/-- The condition on one table: on the routes that are read, and on the last default route among them. -/
def TableFits (host : Host Fault) (family : Family) : Prop :=
  ∀ routes, host.routeList family = .ok routes →
    (∀ route ∈ processed host routes, route.Fits host family) ∧ LastFits host family (processed host routes)

/-- The table is read to its end. -/
def Complete (host : Host Fault) (family : Family) : Prop :=
  ∃ routes, host.routeList family = .ok routes ∧ processed host routes = routes

theorem readTable_fine_iff {network} (unset : network.default family = none) :
    (∃ err after, readTable host family network = .ok (err, after) ∧ after.Fine family) ↔
      (∀ recorded ∈ network.staticRoutes, recorded.2.Consistent recorded.1) ∧ TableFits host family := by
  unfold readTable TableFits
  cases host.routeList family with
  | error fault => simp [Fine, unset]
  | ok routes =>
    have read := @readRoutes_fine_iff _ host family routes network
    simp only [unset, not_mem_none, false_implies, implies_true, and_true] at read
    simp only [ok.injEq, forall_eq']
    exact read.trans and_left_comm

theorem readTable_frame {network after err} (ran : readTable host family network = .ok (err, after)) :
    (∀ other ≠ family, after.default other = network.default other) ∧ (err = none ↔ Complete host family) := by
  unfold readTable at ran
  unfold Complete
  cases listed : host.routeList family with
  | error fault =>
    obtain ⟨rfl, rfl⟩ : some fault = err ∧ network = after := by simpa [listed] using ran
    simp
  | ok routes => simpa using readRoutes_frame (by simpa [listed] using ran)

theorem readNetworkInfo_leaves_iff (host : Host Fault) (holds : Context → Prop) :
    (∃ err network, readNetworkInfo host {} = .ok (err, network) ∧ holds network) ↔
      ∃ err network, readTable host .ipv4 {} = .ok (err, network) ∧
        (err ≠ none ∧ holds network ∨ err = none ∧ ∃ err last, readTable host .ipv6 network = .ok (err, last) ∧ holds last) := by
  simp only [readNetworkInfo, bind, Except.bind]
  cases readTable host .ipv4 {} with
  | error panic => simp
  | ok result =>
    obtain ⟨err, network⟩ := result
    cases err with
    | some fault => simp [pure, Except.pure]
    | none =>
      cases six : readTable host .ipv6 network with
      | error panic => simp [six]
      | ok result =>
        obtain ⟨err, last⟩ := result
        cases err <;> simp [six, pure, Except.pure]

/-- The routes that are recorded at the start of the program fit their tables. -/
theorem recordedRoutes_consistent_iff (host : Host Fault) :
    (∃ err network, readNetworkInfo host {} = .ok (err, network) ∧ network.Consistent) ↔
      TableFits host .ipv4 ∧ (Complete host .ipv4 → TableFits host .ipv6) := by
  have first := @readTable_fine_iff _ host .ipv4 {} rfl
  rw [and_iff_right (by simp)] at first
  rw [← first, readNetworkInfo_leaves_iff]
  constructor
  · rintro ⟨err, network, four, ⟨failed, consistent⟩ | ⟨rfl, err, last, six, consistent⟩⟩
    · exact ⟨⟨err, network, four, consistent.static, consistent.ipv4⟩, fun all => absurd ((readTable_frame four).2.mpr all) failed⟩
    · obtain ⟨statics, fits⟩ := (readTable_fine_iff ((readTable_frame four).1 .ipv6 nofun)).mp
        ⟨err, last, six, consistent.static, consistent.ipv6⟩
      have same := (readTable_frame six).1 .ipv4 nofun
      exact ⟨⟨none, network, four, statics, same ▸ consistent.ipv4⟩, fun _ => fits⟩
  · rintro ⟨⟨err, network, four, statics, default⟩, rest⟩
    obtain ⟨kept, complete⟩ := readTable_frame four
    have unset : network.default .ipv6 = none := kept .ipv6 nofun
    refine ⟨err, network, four, ?_⟩
    cases err with
    | some fault => exact .inl ⟨nofun, default, fun r given => (nomatch unset.symm.trans given), statics⟩
    | none =>
      obtain ⟨err, last, six, lastStatics, lastDefault⟩ := (readTable_fine_iff unset).mpr ⟨statics, rest (complete.mp rfl)⟩
      have same := (readTable_frame six).1 .ipv4 nofun
      exact .inr ⟨rfl, err, last, six, fun r given => default r (same ▸ given), lastDefault, lastStatics⟩

/-- One interface, with an IPv4 address before its IPv6 one. The IPv6 table has the link's own network, without a source. -/
def linkLocalHost : Host Unit where
  routeList
    | .ipv4 => .ok [⟨2, 0, some [192, 168, 1, 1], some [192, 168, 1, 10], none⟩]
    | .ipv6 => .ok [⟨2, 0, none, none, some (0xfe :: 0x80 :: replicate 14 0, replicate 8 0xff ++ replicate 8 0)⟩]
  interfaceByIndex _ := .ok ⟨"eth0", .ok ["192.168.1.10/24", "fe80::1/64"]⟩
  parsePrefix
    | "192.168.1.10/24" => .ok (.of (.v4 0xc0a8010a) 24)
    | "fe80::1/64" => .ok (.of (.v6 0xfe800000000000000000000000000001 "") 64)
    | _ => .error ()

/-- The link's own IPv6 route gets the IPv4 address as its source, and a gateway of three bytes panics. -/
theorem recordedRoutes_mixed :
    (∃ network, readNetworkInfo linkLocalHost {} = .ok (none, network) ∧ ¬ network.Consistent) ∧
      readNetworkInfo { linkLocalHost with routeList := fun _ => .ok [⟨2, 0, some [10, 0, 1], none, none⟩] } {} = .error .nilError := by
  refine ⟨⟨_, rfl, fun consistent => ?_⟩, rfl⟩
  have mixed := consistent.static _ (mem_singleton.mpr rfl)
  exact absurd (mixed rfl).1 (by decide)

end MycsCommon.Network
