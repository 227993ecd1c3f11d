import Mathlib.Data.List.Basic
import Mathlib.Logic.Function.Basic

/-! The DNS manager of network/dns_manager_darwin.go. It sets the DNS servers and the
search domains of the network service through `networksetup`, whose answers arrive as
text in a shared buffer, and keeps in the network context what it found. The two lists
are handled alike. Flushing the DNS cache afterwards changes neither list. -/

namespace MycsCommon.Network.DnsManager

/-- `unicode.IsSpace`. -/
def isSpace (char : Char) : Bool :=
  char.toNat ∈ [9, 10, 11, 12, 13, 32, 0x85, 0xA0, 0x1680, 0x2028, 0x2029, 0x202f, 0x205f, 0x3000] ||
    (0x2000 ≤ char.toNat && char.toNat ≤ 0x200a)

/-- The text is a single word. -/
def Word (text : List Char) : Prop := text ≠ [] ∧ ∀ char ∈ text, isSpace char = false

instance (text : List Char) : Decidable (Word text) :=
  @instDecidableAnd _ _ inferInstance (List.decidableBAll (isSpace · = false) text)

/-- The name of a server or a domain. -/
abbrev Name := { text : List Char // Word text }

/-- The word that stands for no names at all. -/
def Name.empty : Name := ⟨"empty".toList, by decide⟩

/-- What is set on the service. -/
abbrev Setting := { names : List Name // names ≠ [Name.empty] }

inductive Listing where
  | dnsServers | searchDomains
deriving DecidableEq, Repr

def Listing.label : Listing → String
  | dnsServers => "DNS Servers"
  | searchDomains => "Search Domains"

/-- The text `networksetup` prints when nothing is set. -/
def notSet (serviceName : String) (listing : Listing) : List Char :=
  "There aren't any ".toList ++ listing.label.toList ++ " set on ".toList ++ serviceName.toList ++ ".\n".toList

/-- `strings.Fields`. -/
def fields (text : List Char) : List Name :=
  (text.splitOnP isSpace).filterMap fun word =>
    if plain : Word word then some ⟨word, plain⟩ else none

structure World where
  lists : Listing → Setting
  /-- `origDNSServers` and `origSearchDomains` of the network context. -/
  orig : Listing → List Name
  outputBuffer : List Char
  calls : Nat

/-- A new network context, on a service with these lists. -/
def newWorld (initial : Listing → Setting) : World :=
  { lists := initial, orig := fun _ => [Name.empty], outputBuffer := [], calls := 0 }

inductive Request where
  | get (listing : Listing)
  | set (listing : Listing) (names : List Name)

def setting (names : List Name) : Setting :=
  if none : names = [Name.empty] then ⟨[], by simp⟩ else ⟨names, none⟩

def report (serviceName : String) (listing : Listing) (found : Setting) : List Char :=
  if found.val = [] then notSet serviceName listing else found.val.flatMap fun name => name.val ++ ['\n']

variable (fails : Nat → Bool) (serviceName : String)

/-- One run of `networksetup`; `fails` says which of them fail. -/
def networksetup (request : Request) (world : World) : Bool × World :=
  let after := { world with calls := world.calls + 1 }
  if fails world.calls then (false, after)
  else
    match request with
    | .get listing =>
      (true, { after with outputBuffer := world.outputBuffer ++ report serviceName listing (world.lists listing) })
    | .set listing names => (true, { after with lists := Function.update world.lists listing (setting names) })

def World.resetBuffer (world : World) : World := { world with outputBuffer := [] }

/-- Whether the addition succeeded, and what it leaves. The buffer is reset on every way out. -/
def addNames (listing : Listing) (names : List Name) (world : World) : Bool × World :=
  if names.length > 0 then
    match networksetup fails serviceName (.get listing) world with
    | (false, world) => (false, world.resetBuffer)
    | (true, world) =>
      let saved :=
        if world.outputBuffer ≠ notSet serviceName listing then
          { world with orig := Function.update world.orig listing (fields world.outputBuffer) }
        else world
      let (done, world) := networksetup fails serviceName (.set listing names) saved.resetBuffer
      (done, world.resetBuffer)
  else (true, world.resetBuffer)

def addDNSServers (servers : List Name) : World → Bool × World := addNames fails serviceName .dnsServers servers

def addSearchDomains (domains : List Name) : World → Bool × World := addNames fails serviceName .searchDomains domains

/-- Failures are only logged. -/
def clear (world : World) : World :=
  let (_, world) := networksetup fails serviceName (.set .dnsServers (world.orig .dnsServers)) world
  let world := world.resetBuffer
  let (_, world) := networksetup fails serviceName (.set .searchDomains (world.orig .searchDomains)) world
  { world.resetBuffer with orig := fun _ => [Name.empty] }

inductive Call where
  | addDNSServers (servers : List Name)
  | addSearchDomains (domains : List Name)

def Call.exec : Call → World → World
  | .addDNSServers servers, world => (DnsManager.addDNSServers fails serviceName servers world).2
  | .addSearchDomains domains, world => (DnsManager.addSearchDomains fails serviceName domains world).2

/-- Some calls, then `Clear`. -/
def session (initial : Listing → Setting) (calls : List Call) : World :=
  clear fails serviceName (calls.foldl (fun world call => call.exec fails serviceName world) (newWorld initial))

end MycsCommon.Network.DnsManager
