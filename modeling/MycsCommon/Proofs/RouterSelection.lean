import Mathlib.Data.List.Basic
import MycsCommon.Network.PortMapper

/-! Which router the port mapper connects to. A service with one client is passed over as if it had none. -/

namespace MycsCommon.Network
open List

variable {Fault : Type} {services : List (UpnpService × List (UpnpClient Fault))} {service : UpnpService}
  {clients : List (UpnpClient Fault)}

/-- Two of the clients report different addresses. -/
def Differ (clients : List (UpnpClient Fault)) : Prop :=
  ∃ client ∈ clients, ∃ other ∈ clients, ∃ addr otherAddr, client.externalIPAddress = .ok addr ∧
    other.externalIPAddress = .ok otherAddr ∧ addr ≠ otherAddr

def firstFound (services : List (UpnpService × List (UpnpClient Fault))) : Option (UpnpService × List (UpnpClient Fault)) :=
  services.find? fun found => !found.2.isEmpty

/-- What is to come of the first service that has clients: no other is asked. -/
structure Uses (service : UpnpService) (clients : List (UpnpClient Fault))
    (outcome : List UpnpService × Except (ConnectError Fault) (PortMapper Fault)) : Prop where
  asked : ∀ other ∈ outcome.1, other = service
  multiple : outcome.2 = .error .multipleRoutesFound ↔ Differ clients
  selects : ∀ mapper, outcome.2 = .ok mapper → ∃ first rest, clients = first :: rest ∧ mapper.upnpClient = (service, first) ∧
    first.externalIPAddress = .ok mapper.externalAddr

structure Selects (services : List (UpnpService × List (UpnpClient Fault)))
    (outcome : List UpnpService × Except (ConnectError Fault) (PortMapper Fault)) : Prop where
  none : outcome.2 = .error .noRoutersFound ↔ firstFound services = none
  uses : ∀ service clients, firstFound services = some (service, clients) → Uses service clients outcome

theorem compareOthers_differs (routerEIP : Addr) (clients : List (UpnpClient Fault)) :
    (compareOthers routerEIP clients).2 = true ↔ ∃ client ∈ clients, ∃ addr, client.externalIPAddress = .ok addr ∧ addr ≠ routerEIP := by
  induction clients with
  | nil => simp [compareOthers]
  | cons client clients ih =>
    cases answer : client.externalIPAddress with
    | error fault => simp [compareOthers, answer, ih]
    | ok addr =>
      by_cases same : addr = routerEIP <;> simp [compareOthers, answer, same, ih]

theorem differ_cons_iff {client addr} (answer : client.externalIPAddress = .ok addr) :
    Differ (client :: clients) ↔ ∃ other ∈ clients, ∃ otherAddr, other.externalIPAddress = .ok otherAddr ∧ otherAddr ≠ addr := by
  constructor
  · rintro ⟨one, member, two, otherMember, first, second, firstAnswer, secondAnswer, different⟩
    -- one of the two does not report the first client's address
    have find : ∀ {other : UpnpClient Fault} {otherAddr}, other ∈ client :: clients → other.externalIPAddress = .ok otherAddr →
        otherAddr ≠ addr → ∃ other ∈ clients, ∃ otherAddr, other.externalIPAddress = .ok otherAddr ∧ otherAddr ≠ addr := by
      intro other otherAddr listed answered unlike
      obtain rfl | later := mem_cons.mp listed
      · exact absurd (Except.ok.inj (answered.symm.trans answer)) unlike
      · exact ⟨other, later, otherAddr, answered, unlike⟩
    by_cases same : first = addr
    · exact find otherMember secondAnswer fun equal => different (same.trans equal.symm)
    · exact find member firstAnswer same
  · rintro ⟨other, member, otherAddr, answered, different⟩
    exact ⟨other, by simp [member], client, by simp, otherAddr, addr, answered, answer, different⟩

/-- A service that is used is used as it should be, unless its first client fails and two others differ. -/
theorem selectRouter_uses_iff {client} : Uses service (client :: clients) (selectRouter service (client :: clients)) ↔
      (∃ addr, client.externalIPAddress = .ok addr) ∨ ¬ Differ (client :: clients) := by
  cases answer : client.externalIPAddress with
  | error fault =>
    have outcome : selectRouter service (client :: clients) = ([service], .error (.failed fault)) := by simp [selectRouter, answer]
    rw [outcome]
    constructor
    · exact fun uses => .inr fun differ => nomatch uses.multiple.mpr differ
    · rintro (⟨addr, answered⟩ | alike)
      · cases answered
      · exact ⟨by simp, ⟨nofun, fun differ => absurd differ alike⟩, nofun⟩
  | ok addr =>
    refine iff_of_true ?_ (.inl ⟨addr, rfl⟩)
    have differs := (compareOthers_differs addr clients).trans (differ_cons_iff answer).symm
    simp only [selectRouter, answer]
    refine ⟨fun other member => eq_of_mem_replicate member, ?_, fun mapper selected => ?_⟩
    · rw [← differs]
      split
      next yes => simp [yes]
      next no => simp [no]
    · split at selected
      · cases selected
      · obtain rfl := Except.ok.inj selected
        exact ⟨client, clients, rfl, rfl, answer⟩

theorem selectRouter_ne_none {client} : (selectRouter service (client :: clients)).2 ≠ .error .noRoutersFound := by
  cases answer : client.externalIPAddress with
  | error fault => simp [selectRouter, answer]
  | ok addr =>
    simp only [selectRouter, answer]
    split <;> simp

/-- Either nobody is asked, or some client of one of the services is. -/
theorem connectFirst_asks (services : List (UpnpService × List (UpnpClient Fault))) :
    connectFirst services = ([], .error .noRoutersFound) ∨ ∃ service ∈ (connectFirst services).1, service ∈ services.map Prod.fst := by
  induction services with
  | nil => exact .inl rfl
  | cons head services ih =>
    obtain ⟨service, clients⟩ := head
    unfold connectFirst
    split
    next many =>
      cases clients with
      | nil => simp at many
      | cons client clients =>
        refine .inr ⟨service, ?_, by simp⟩
        cases answer : client.externalIPAddress <;> simp [selectRouter, answer]
    next => exact ih.imp id fun ⟨other, asked, listed⟩ => ⟨other, asked, by simp [mem_map.mp listed]⟩

theorem connectFirst_selects_iff (distinct : (services.map Prod.fst).Nodup) :
    Selects services (connectFirst services) ↔ ∀ service clients, firstFound services = some (service, clients) →
      2 ≤ clients.length ∧ ((∃ client addr, clients.head? = some client ∧ client.externalIPAddress = .ok addr) ∨ ¬ Differ clients) := by
  induction services with
  | nil => exact iff_of_true ⟨by simp [connectFirst, firstFound], by simp [firstFound]⟩ (by simp [firstFound])
  | cons head services ih =>
    obtain ⟨service, clients⟩ := head
    obtain ⟨alone, rest⟩ := nodup_cons.mp distinct
    match clients with
    | [] =>
      have skipped : firstFound ((service, []) :: services) = firstFound services := by simp [firstFound]
      have passed : connectFirst ((service, []) :: services) = connectFirst services := by simp [connectFirst]
      rw [passed]
      have same : Selects ((service, []) :: services) (connectFirst services) ↔ Selects services (connectFirst services) := by
        constructor <;> exact fun held => ⟨skipped ▸ held.none, skipped ▸ held.uses⟩
      rw [same, skipped]
      exact ih rest
    | [client] =>
      have found : firstFound ((service, [client]) :: services) = some (service, [client]) := by simp [firstFound]
      have passed : connectFirst ((service, [client]) :: services) = connectFirst services := by simp [connectFirst]
      refine iff_of_false (fun held => ?_) fun held => absurd (held service [client] found).1 (by simp)
      rw [passed] at held
      obtain nobody | ⟨other, asked, listed⟩ := connectFirst_asks services
      · have none := held.none.mp (by rw [nobody])
        cases found.symm.trans none
      · have own := (held.uses service [client] found).asked other asked
        exact alone (own ▸ listed)
    | client :: second :: clients =>
      have found : firstFound ((service, client :: second :: clients) :: services) = some (service, client :: second :: clients) := by simp [firstFound]
      have used : connectFirst ((service, client :: second :: clients) :: services) = selectRouter service (client :: second :: clients) := by
        simp [connectFirst]
      have decided : (∃ first addr, (client :: second :: clients).head? = some first ∧ first.externalIPAddress = .ok addr) ↔
          ∃ addr, client.externalIPAddress = .ok addr := by simp
      rw [used]
      constructor
      · intro held given answering chosen
        obtain ⟨rfl, rfl⟩ := Prod.mk.inj (Option.some.inj (found.symm.trans chosen))
        exact ⟨by simp, (selectRouter_uses_iff.mp (held.uses _ _ found)).imp decided.mpr id⟩
      · intro fits
        refine ⟨iff_of_false selectRouter_ne_none (by simp [found]), fun given answering chosen => ?_⟩
        obtain ⟨rfl, rfl⟩ := Prod.mk.inj (Option.some.inj (found.symm.trans chosen))
        exact selectRouter_uses_iff.mpr ((fits _ _ found).2.imp decided.mp id)

/-- The three services, in the order of the switch. -/
def discoveredServices (ip1Clients ip2Clients ppp1Clients : List (UpnpClient Fault)) : List (UpnpService × List (UpnpClient Fault)) :=
  [(.wanIPConnection1, ip1Clients), (.wanIPConnection2, ip2Clients), (.wanPPPConnection1, ppp1Clients)]

theorem connect_selects_iff (ip1Clients ip2Clients ppp1Clients : List (UpnpClient Fault)) :
    Selects (discoveredServices ip1Clients ip2Clients ppp1Clients) (connect (.ok (ip1Clients, ip2Clients, ppp1Clients))) ↔
      ∀ service clients, firstFound (discoveredServices ip1Clients ip2Clients ppp1Clients) = some (service, clients) →
        2 ≤ clients.length ∧ ((∃ client addr, clients.head? = some client ∧ client.externalIPAddress = .ok addr) ∨ ¬ Differ clients) :=
  connectFirst_selects_iff (by simp [discoveredServices])

/-- A single router is not found. -/
theorem connect_single :
    (connect (.ok ([⟨.ok (.v4 0xcb007107), .v4 0xc0a8010a⟩], [], [])) : _ × Except (ConnectError Unit) _).2 = .error .noRoutersFound ∧
      ¬ Selects (discoveredServices [⟨.ok (.v4 0xcb007107), .v4 0xc0a8010a⟩] [] [])
        (connect (.ok ([⟨.ok (.v4 0xcb007107), .v4 0xc0a8010a⟩], [], [])) : _ × Except (ConnectError Unit) _) :=
  ⟨rfl, fun held => nomatch held.none.mp rfl⟩

end MycsCommon.Network
