import MycsCommon.Network.Operations
import MycsCommon.Proofs.FiledRules
import MycsCommon.Proofs.NetipText

/-! The keys of forwardings in the rule map. A key is read back from its separators: no
address and no network is written with '>' or '|', and of the colons the last before a
port and the first behind an interface name are the ones that count. -/

namespace MycsCommon.Network
open Library Program Text List AList Addr Triple

/-- An interface name without a colon, a slash or whitespace. -/
@[ext] structure ItfName where
  name : String
  plain : ∀ char ∈ name.toList, char ≠ ':' ∧ char ≠ '/' ∧ char.isWhitespace = false

@[ext] structure ZoneFree where
  addr : Addr
  zoneless : addr.withoutZone = addr

inductive Forwarding where
  | port (dstIP : ZoneFree) (dstPort : Int) (forwardIP : ZoneFree) (forwardPort : Int) (proto : Protocol)
  | traffic (srcItf : ItfName) (srcNetwork : Prefix) (dstItf : ItfName) (dstNetwork : Prefix)

namespace Forwarding

def key : Forwarding → String
  | port dstIP dstPort forwardIP forwardPort proto => forwardPortKey dstPort forwardPort dstIP.addr forwardIP.addr proto
  | traffic srcItf srcNetwork dstItf dstNetwork => forwardTrafficKey srcItf.name dstItf.name srcNetwork dstNetwork

def add (deps : Deps) (withNat : Bool) : Forwarding → RouterM String
  | port dstIP dstPort forwardIP forwardPort proto =>
    forwardPortOnIP deps dstPort forwardPort dstIP.addr forwardIP.addr proto
  | traffic srcItf srcNetwork dstItf dstNetwork =>
    forwardTraffic deps srcItf.name dstItf.name srcNetwork dstNetwork withNat

def delete (deps : Deps) : Forwarding → RouterM Unit
  | port dstIP dstPort forwardIP forwardPort proto =>
    deleteForwardPortOnIP deps dstPort forwardPort dstIP.addr forwardIP.addr proto
  | traffic srcItf srcNetwork dstItf dstNetwork =>
    deleteForwardTraffic deps srcItf.name dstItf.name srcNetwork dstNetwork

end Forwarding

/-- An invalid prefix has no text of its own, whatever address it carries. -/
def Prefix.cleared (network : Prefix) : Prefix := if network.isValid then network else .none

def Forwarding.cleared : Forwarding → Forwarding
  | port dstIP dstPort forwardIP forwardPort proto => port dstIP dstPort forwardIP forwardPort proto
  | traffic srcItf srcNetwork dstItf dstNetwork => traffic srcItf srcNetwork.cleared dstItf dstNetwork.cleared

/-! The texts. -/

namespace ZoneFree

theorem mem_text {ip : ZoneFree} {char} (member : char ∈ ip.addr.text.toList) :
    char ∈ "invalid IP".toList ∨ char = '.' ∨ char = ':' ∨ ∃ digit < 16, char = digit.digitChar := by
  cases valid : ip.addr.isValid with
  | true => exact .inr (Addr.mem_text ip.zoneless valid member)
  | false =>
    obtain ⟨addr, zoneless⟩ := ip
    cases addr with
    | zero => exact .inl member
    | v4 | v6 => cases valid

theorem text_injective {ip other : ZoneFree} (same : ip.addr.text.toList = other.addr.text.toList) : ip = other := by
  have apart : ∀ {ip other : ZoneFree}, ip.addr.isValid = true → other.addr.isValid = false →
      ip.addr.text.toList ≠ other.addr.text.toList := by
    rintro ip ⟨addr, zoneless⟩ valid invalid same
    cases addr with
    | zero =>
      have letter := same ▸ (by decide : 'v' ∈ "invalid IP".toList)
      have digits : ∀ digit < 16, 'v' ≠ digit.digitChar := by decide
      rcases Addr.mem_text ip.zoneless valid letter with dot | colon | ⟨digit, low, equal⟩
      · cases dot
      · cases colon
      · exact digits digit low equal
    | v4 | v6 => cases invalid
  have zero : ∀ {ip : ZoneFree}, ip.addr.isValid = false → ip.addr = .zero := by
    rintro ⟨addr, zoneless⟩ invalid
    cases addr with
    | zero => rfl
    | v4 | v6 => cases invalid
  ext1
  cases valid : ip.addr.isValid <;> cases otherValid : other.addr.isValid
  · rw [zero valid, zero otherValid]
  · exact absurd same.symm (apart otherValid valid)
  · exact absurd same (apart valid otherValid)
  · exact Addr.text_injective ip.zoneless other.zoneless valid otherValid same

end ZoneFree

def endpoint (ip : ZoneFree) (port : Int) : List Char := ip.addr.text.toList ++ ':' :: port.repr.toList

theorem endpoint_free {ip : ZoneFree} {port char} (member : char ∈ endpoint ip port) : char ≠ '>' ∧ char ≠ '|' := by
  have digits : ∀ digit < 16, digit.digitChar ≠ '>' ∧ digit.digitChar ≠ '|' := by decide
  rcases mem_append.mp member with address | number
  · rcases ZoneFree.mem_text address with letter | rfl | rfl | ⟨digit, low, rfl⟩
    · have letters : '>' ∉ "invalid IP".toList ∧ '|' ∉ "invalid IP".toList := by decide
      exact ⟨fun same => letters.1 (same ▸ letter), fun same => letters.2 (same ▸ letter)⟩
    · decide
    · decide
    · exact digits digit low
  · rcases mem_cons.mp number with rfl | number
    · decide
    · rcases mem_int_repr number with digit | rfl
      · constructor <;> rintro rfl <;> cases digit
      · decide

theorem endpoint_injective {ip other port otherPort} (same : endpoint ip port = endpoint other otherPort) :
    ip = other ∧ port = otherPort := by
  have free : ∀ port : Int, ':' ∉ port.repr.toList := by
    intro port member
    rcases mem_int_repr member with digit | sign
    · cases digit
    · cases sign
  obtain ⟨address, number⟩ := split_last same (free port) (free otherPort)
  have ports := @int_repr_split port otherPort [] [] (by simpa using number) (by simp) (by simp)
  exact ⟨ZoneFree.text_injective address, ports.1⟩

namespace Prefix

theorem text_free (network : Prefix) : '>' ∉ network.text.toList := by
  have digits : ∀ digit < 16, '>' ≠ digit.digitChar := by decide
  cases valid : network.isValid with
  | false => simp [text, valid]
  | true =>
    intro member
    rw [text_toList valid] at member
    rcases mem_append.mp member with address | rest
    · rcases mem_text network.zoneless (addr_isValid valid) address with dot | colon | ⟨digit, low, same⟩
      · cases dot
      · cases colon
      · exact digits digit low same
    · rcases mem_cons.mp rest with slash | bits
      · cases slash
      · cases repr_isDigit bits

theorem text_ne {network : Prefix} {field after rest} (free : '>' ∉ field) (unmarked : '/' ∉ field ∧ 'v' ∉ field) :
    network.text.toList ++ '>' :: rest ≠ field ++ '>' :: after := by
  intro same
  obtain ⟨rfl, -⟩ := @split _ (· = '>') _ _ _ _ same (fun _ member equal => network.text_free (equal ▸ member))
    (fun _ member equal => free (equal ▸ member)) (by simp) (by simp)
  cases valid : network.isValid with
  | true => exact unmarked.1 (by simp [text_toList valid])
  | false => exact unmarked.2 (by simp [text, valid])

theorem text_eq_iff {network other : Prefix} : network.text.toList = other.text.toList ↔ network.cleared = other.cleared := by
  have apart : ∀ {network other : Prefix}, network.isValid = true → other.isValid = false →
      network.text.toList ≠ other.text.toList := by
    intro network other valid invalid same
    have slash : '/' ∈ other.text.toList := same ▸ (by simp [text_toList valid])
    simp [text, invalid] at slash
  cases valid : network.isValid <;> cases otherValid : other.isValid
  · simp [text, cleared, valid, otherValid]
  · refine iff_of_false (apart otherValid valid).symm ?_
    rintro equal
    rw [cleared, cleared, valid, otherValid] at equal
    exact Bool.false_ne_true ((congrArg isValid equal).trans otherValid)
  · refine iff_of_false (apart valid otherValid) ?_
    rintro equal
    rw [cleared, cleared, valid, otherValid] at equal
    exact Bool.false_ne_true ((congrArg isValid equal.symm).trans valid)
  · simp only [cleared, valid, otherValid, if_true]
    exact ⟨text_injective valid otherValid, fun equal => by rw [equal]⟩

end Prefix

/-! The keys. -/

theorem port_toList (dstIP : ZoneFree) (dstPort : Int) (forwardIP : ZoneFree) (forwardPort : Int) (proto : Protocol) :
    (Forwarding.port dstIP dstPort forwardIP forwardPort proto).key.toList =
      endpoint dstIP dstPort ++ '>' :: (endpoint forwardIP forwardPort ++ '|' :: proto.name.toList) := by
  simp [Forwarding.key, forwardPortKey, endpoint]

theorem traffic_toList (srcItf : ItfName) (srcNetwork : Prefix) (dstItf : ItfName) (dstNetwork : Prefix) :
    (Forwarding.traffic srcItf srcNetwork dstItf dstNetwork).key.toList =
      srcItf.name.toList ++ ':' :: (srcNetwork.text.toList ++ '>' :: (dstItf.name.toList ++ ':' :: dstNetwork.text.toList)) := by
  simp [Forwarding.key, forwardTrafficKey]

theorem colon_mem_key (forwarding : Forwarding) : ':' ∈ forwarding.key.toList := by
  cases forwarding with
  | port => simp [port_toList, endpoint]
  | traffic => simp [traffic_toList]

theorem ItfName.colonFree (itf : ItfName) : ∀ char ∈ itf.name.toList, ¬ char = ':' :=
  fun char member => (itf.plain char member).1

theorem mem_port {port : Int} {char} (member : char ∈ port.repr.toList) :
    char ≠ '>' ∧ char ≠ '/' ∧ char ≠ 'v' ∧ char ≠ ':' := by
  refine ⟨?_, ?_, ?_, ?_⟩ <;> rintro rfl <;> rcases mem_int_repr member with digit | sign
  all_goals first | cases digit | cases sign

/-- Between the first colon and the next '>' there is a network in one kind of key and the
rest of an address and a port in the other. -/
theorem port_ne_traffic {ip : ZoneFree} {port} {itf : ItfName} {network : Prefix} {after rest} :
    endpoint ip port ++ '>' :: after ≠ itf.name.toList ++ ':' :: (network.text.toList ++ '>' :: rest) := by
  intro same
  simp only [endpoint, append_assoc, cons_append] at same
  obtain ⟨more, address, behind⟩ := skip same.symm fun member => itf.colonFree _ member rfl
  cases more with
  | nil =>
    simp only [nil_append, List.cons.injEq, true_and] at behind
    exact Prefix.text_ne (fun member => (mem_port member).1 rfl)
      ⟨fun member => (mem_port member).2.1 rfl, fun member => (mem_port member).2.2.1 rfl⟩ behind
  | cons first more =>
    simp only [cons_append, List.cons.injEq] at behind
    obtain ⟨rfl, behind⟩ := behind
    -- an address that is written with a colon is a valid one
    have colon : ':' ∈ ip.addr.text.toList := by simp [address]
    have valid : ip.addr.isValid = true := by
      obtain ⟨addr, zoneless⟩ := ip
      cases addr with
      | zero => simp [text] at colon
      | v4 | v6 => rfl
    have digits : ∀ digit < 16, digit.digitChar ≠ '>' ∧ digit.digitChar ≠ '/' ∧ digit.digitChar ≠ 'v' := by decide
    have plain : ∀ char ∈ more ++ ':' :: port.repr.toList, char ≠ '>' ∧ char ≠ '/' ∧ char ≠ 'v' := by
      intro char member
      rcases mem_append.mp member with inside | behind
      · rcases mem_text ip.zoneless valid (by simp [address, inside] : char ∈ _) with rfl | rfl | ⟨digit, low, rfl⟩
        · decide
        · decide
        · exact digits digit low
      · rcases mem_cons.mp behind with rfl | number
        · decide
        · exact ⟨(mem_port number).1, (mem_port number).2.1, (mem_port number).2.2.1⟩
    have whole : network.text.toList ++ '>' :: rest = (more ++ ':' :: port.repr.toList) ++ '>' :: after := by
      simpa using behind
    exact Prefix.text_ne (fun member => (plain _ member).1 rfl)
      ⟨fun member => (plain _ member).2.1 rfl, fun member => (plain _ member).2.2 rfl⟩ whole

/-- Two forwardings have one key only if they are the same but for the addresses of invalid prefixes. -/
theorem key_eq_iff (forwarding other : Forwarding) : forwarding.key = other.key ↔ forwarding.cleared = other.cleared := by
  rw [← String.toList_inj]
  cases forwarding with
  | port dstIP dstPort forwardIP forwardPort proto =>
    cases other with
    | port otherDst otherDstPort otherIP otherPort otherProto =>
      rw [port_toList, port_toList]
      constructor
      · intro same
        obtain ⟨dst, rest⟩ := @split _ (· = '>') _ _ _ _ same (fun _ member equal => (endpoint_free member).1 equal)
          (fun _ member equal => (endpoint_free member).1 equal) (by simp) (by simp)
        obtain ⟨forward, protos⟩ := @split _ (· = '|') _ _ _ _ (List.cons.inj rest).2 (fun _ member equal => (endpoint_free member).2 equal)
          (fun _ member equal => (endpoint_free member).2 equal) (by simp) (by simp)
        obtain ⟨rfl, rfl⟩ := endpoint_injective dst
        obtain ⟨rfl, rfl⟩ := endpoint_injective forward
        have names : proto = otherProto := by
          cases proto
          cases otherProto
          exact congrArg _ (String.toList_inj.mp (List.cons.inj protos).2)
        rw [names]
      · intro same
        cases same
        rfl
    | traffic srcItf srcNetwork dstItf dstNetwork =>
      rw [port_toList, traffic_toList]
      exact iff_of_false port_ne_traffic fun same => by cases same
  | traffic srcItf srcNetwork dstItf dstNetwork =>
    cases other with
    | port otherDst otherDstPort otherIP otherPort otherProto =>
      rw [port_toList, traffic_toList]
      exact iff_of_false (fun same => port_ne_traffic same.symm) fun same => by cases same
    | traffic otherSrc otherSrcNetwork otherDst otherDstNetwork =>
      rw [traffic_toList, traffic_toList]
      simp only [Forwarding.cleared, Forwarding.traffic.injEq, ← Prefix.text_eq_iff]
      constructor
      · intro same
        obtain ⟨src, rest⟩ := @split _ (· = ':') _ _ _ _ same srcItf.colonFree otherSrc.colonFree (by simp) (by simp)
        obtain ⟨srcText, rest⟩ := @split _ (· = '>') _ _ _ _ (List.cons.inj rest).2
          (fun _ member equal => srcNetwork.text_free (equal ▸ member))
          (fun _ member equal => otherSrcNetwork.text_free (equal ▸ member)) (by simp) (by simp)
        obtain ⟨dst, rest⟩ := @split _ (· = ':') _ _ _ _ (List.cons.inj rest).2 dstItf.colonFree otherDst.colonFree
          (by simp) (by simp)
        exact ⟨ItfName.ext (String.toList_inj.mp src), srcText, ItfName.ext (String.toList_inj.mp dst),
          (List.cons.inj rest).2⟩
      · rintro ⟨rfl, srcText, rfl, dstText⟩
        rw [srcText, dstText]

theorem key_ne_of_colonFree {forwarding : Forwarding} {key} (free : ':' ∉ key.toList) : forwarding.key ≠ key :=
  fun same => free (same ▸ colon_mem_key forwarding)

theorem sgKey_colonFree (sum64 : Bytes → Bytes) (sg : SecurityGroup) (iifName : String) : ':' ∉ (sg.sgKey sum64 iifName).toList := by
  have digits : ∀ digit < 16, ':' ≠ digit.digitChar := by decide
  simp only [SecurityGroup.sgKey, hashString, Hex.encode, String.toList_append, String.toList_ofList, mem_append, not_or]
  refine ⟨by decide, fun member => ?_⟩
  obtain ⟨digit, low, same⟩ := Hex.mem_encode _ member
  exact digits digit low same

variable {α : Type}

/-- The program changes no entry of the rule map but that of the key. -/
def Touches (key : String) (program : RouterM α) : Prop :=
  ∀ world, ∀ other ≠ key, (final (program.run world)).router.ruleMap.lookup other = world.router.ruleMap.lookup other

theorem add_files (deps : Deps) (withNat : Bool) (forwarding : Forwarding) (map : RefCount.Owners String Rule) :
    Triple (fun world => world.router.ruleMap = map) (forwarding.add deps withNat)
      (fun key world => key = forwarding.key ∧ ∃ saved, world.router.ruleMap = map.insert forwarding.key saved)
      (fun _ world => world.router.ruleMap = map) := by
  have saves {rules : List Rule} (some : rules ≠ []) :
      Triple (fun world => world.router.ruleMap = map)
        (do saveFilterRules deps.nft forwarding.key rules false; return forwarding.key)
        (fun key world => key = forwarding.key ∧ ∃ saved, world.router.ruleMap = map.insert forwarding.key saved)
        (fun _ world => world.router.ruleMap = map) := by
    apply bind (fun _ world => ∃ saved, world.router.ruleMap = map.insert forwarding.key saved)
    · intro world holds
      exact (saveFilterRules_files some false).consequence (fun _ same => same) (fun _ _ filed => filed.2)
        (fun _ _ holds => holds) world ⟨rfl, holds⟩
    · exact fun _ => pure _ fun _ filed => ⟨rfl, filed⟩
  have opened {program : RouterM String} {post : String → World → Prop}
      (rest : Triple (fun world => world.router.ruleMap = map) program post fun _ world => world.router.ruleMap = map) :
      Triple (fun world => world.router.ruleMap = map) (do getTable; program) post fun _ world => world.router.ruleMap = map := by
    apply bind (fun _ world => world.router.ruleMap = map) _ fun _ => rest
    apply Triple.read
    intro state _
    split
    · exact throw _ fun _ => id
    · exact skip _
  cases forwarding with
  | port dstIP dstPort forwardIP forwardPort proto =>
    apply opened
    split
    · exact throw _ fun _ => id
    · exact saves (by simp [forwardPortRules])
  | traffic srcItf srcNetwork dstItf dstNetwork =>
    simp only [Forwarding.add, forwardTraffic]
    split
    · exact throw _ fun _ => id
    · exact opened (saves (by simp [forwardTrafficRules]))

theorem delete_erases (deps : Deps) (forwarding : Forwarding) (map : RefCount.Owners String Rule) :
    Triple (fun world => world.router.ruleMap = map) (forwarding.delete deps)
      (fun _ world => world.router.ruleMap = map.erase forwarding.key)
      (fun _ world => world.router.ruleMap = map ∨ world.router.ruleMap = map.erase forwarding.key) := by
  have same : forwarding.delete deps = deleteFilter deps.nft forwarding.key := by cases forwarding <;> rfl
  rw [same]
  intro world holds
  exact deleteFilter_erases.consequence (fun _ same => same) (fun _ _ gone => gone.2) (fun _ _ holds => holds) world ⟨rfl, holds⟩

theorem add_touches (deps : Deps) (withNat : Bool) (forwarding : Forwarding) :
    Touches forwarding.key (forwarding.add deps withNat) := by
  intro world other different
  have after := add_files deps withNat forwarding _ world rfl
  cases ran : (forwarding.add deps withNat).run world with
  | ok key state =>
    simp only [ran] at after
    obtain ⟨-, saved, filed⟩ := after
    rw [final_ok, filed, lookup_insert_ne different]
  | error fault state =>
    simp only [ran] at after
    rw [final_error, after]

theorem delete_touches (deps : Deps) (forwarding : Forwarding) : Touches forwarding.key (forwarding.delete deps) := by
  intro world other different
  have after := delete_erases deps forwarding _ world rfl
  cases ran : (forwarding.delete deps).run world with
  | ok value state =>
    simp only [ran] at after
    rw [final_ok, after, lookup_erase_ne different]
  | error fault state =>
    simp only [ran] at after
    rcases after with same | erased
    · rw [final_error, same]
    · rw [final_error, erased, lookup_erase_ne different]

/-- The keys identify their forwardings, but for the addresses of invalid prefixes, and no
other entry has such a key. What is added is filed under the key that the deletion
erases, so that a deletion leaves the entry of every other forwarding. -/
theorem forwarding_keys (deps : Deps) (forwarding : Forwarding) :
    (∀ other : Forwarding, forwarding.key = other.key ↔ forwarding.cleared = other.cleared) ∧
    (forwarding.key ≠ IPList.deny.name ∧ forwarding.key ≠ IPList.allow.name ∧
      ∀ (sg : SecurityGroup) iifName, forwarding.key ≠ sg.sgKey deps.sum64 iifName) ∧
    (∀ withNat world key after, (forwarding.add deps withNat).run world = .ok key after →
      key = forwarding.key ∧ (after.router.ruleMap.lookup forwarding.key).isSome = true) ∧
    (∀ world after, (forwarding.delete deps).run world = .ok () after → after.router.ruleMap.lookup forwarding.key = none) ∧
    (∀ withNat, Touches forwarding.key (forwarding.add deps withNat)) ∧ Touches forwarding.key (forwarding.delete deps) ∧
    ∀ other : Forwarding, forwarding.cleared ≠ other.cleared → ∀ world,
      (final ((forwarding.delete deps).run world)).router.ruleMap.lookup other.key = world.router.ruleMap.lookup other.key := by
  refine ⟨key_eq_iff forwarding, ⟨key_ne_of_colonFree (by decide), key_ne_of_colonFree (by decide),
    fun sg iifName => key_ne_of_colonFree (sgKey_colonFree _ sg iifName)⟩, ?_, ?_,
    fun withNat => add_touches deps withNat forwarding, delete_touches deps forwarding, ?_⟩
  · intro withNat world key after ran
    have filed := add_files deps withNat forwarding _ world rfl
    simp only [ran] at filed
    obtain ⟨rfl, saved, filed⟩ := filed
    refine ⟨rfl, ?_⟩
    rw [filed, lookup_insert]
    rfl
  · intro world after ran
    have gone := delete_erases deps forwarding _ world rfl
    simp only [ran] at gone
    rw [gone, lookup_erase]
  · intro other different world
    exact delete_touches deps forwarding world other.key fun same => different ((key_eq_iff forwarding other).mp same.symm)

/-- Forwardings between networks that are none have one key. -/
theorem invalid_networks_share_key :
    let first : Forwarding := .traffic ⟨"eth0", by simp⟩ (Prefix.of (.v4 0x0a000001) 33) ⟨"eth1", by simp⟩ prefixWorld4
    let second : Forwarding := .traffic ⟨"eth0", by simp⟩ (Prefix.of (.v4 0x0a000002) 33) ⟨"eth1", by simp⟩ prefixWorld4
    first ≠ second ∧ first.key = second.key := by
  intro first second
  refine ⟨?_, by decide +kernel⟩
  intro same
  have networks := (Forwarding.traffic.inj same).2.1
  exact absurd networks (by decide)

end MycsCommon.Network
