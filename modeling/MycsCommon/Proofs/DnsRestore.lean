import MycsCommon.Network.DnsManager
import Mathlib.Data.List.Induction

/-! What `Clear` of the macOS DNS manager restores: the last list, among those in force
when an addition was made, that was not empty. -/

namespace MycsCommon.Network.DnsManager
open List

variable {fails : Nat → Bool} {serviceName : String} {initial : Listing → Setting} {listing : Listing} {names : List Name}

theorem fields_lines (names : List Name) : fields (names.flatMap fun name => name.val ++ ['\n']) = names := by
  induction names with
  | nil => simp [fields, Word]
  | cons name names ih =>
    have words : ((name :: names).flatMap fun name => name.val ++ ['\n']).splitOnP isSpace =
        name.val :: (names.flatMap fun name => name.val ++ ['\n']).splitOnP isSpace := by
      rw [flatMap_cons, append_assoc, singleton_append]
      exact splitOnP_append_cons_of_forall_mem name.property.2 '\n' rfl _
    unfold fields at ih ⊢
    rw [words, filterMap_cons_some (dif_pos name.property), ih]

theorem report_ne_notSet {found} (some : found.val ≠ []) :
    report serviceName listing found ≠ notSet serviceName listing := by
  intro same
  have blank : ' ' ∈ notSet serviceName listing := by
    have word : ' ' ∈ "There aren't any ".toList := by decide
    unfold notSet
    iterate 4 apply mem_append_left
    exact word
  rw [← same, report, if_neg some, mem_flatMap] at blank
  obtain ⟨name, -, inside⟩ := blank
  rcases mem_append.mp inside with own | newline
  · exact absurd (name.property.2 ' ' own) (by decide)
  · exact absurd newline (by decide)

/-- The lists in force when each of some additions is made. -/
def standing (initial : Setting) (additions : List (List Name)) : List Setting := (initial :: additions.map setting).dropLast

def remembered (initial : Setting) (additions : List (List Name)) : List Name :=
  (((standing initial additions).map Subtype.val).filter (· ≠ [])).getLast?.getD []

/-- The additions to one of the lists that name something. -/
def additions (listing : Listing) (calls : List Call) : List (List Name) :=
  calls.filterMap fun call =>
    match listing, call with
    | .dnsServers, .addDNSServers names | .searchDomains, .addSearchDomains names => if names = [] then none else some names
    | _, _ => none

def inForce (initial : Setting) (additions : List (List Name)) : Setting := (additions.map setting).getLast?.getD initial

def asArguments (names : List Name) : List Name := if names = [] then [Name.empty] else names

theorem standing_concat (initial : Setting) (additions : List (List Name)) (names : List Name) :
    standing initial (additions ++ [names]) = standing initial additions ++ [inForce initial additions] := by
  have whole : initial :: (additions ++ [names]).map setting = (initial :: additions.map setting) ++ [setting names] := by
    simp
  rw [standing, whole, dropLast_concat, standing, inForce]
  cases last : (additions.map setting).getLast? with
  | none => simp [getLast?_eq_none_iff.mp last]
  | some value =>
    obtain ⟨front, is⟩ := getLast?_eq_some_iff.mp last
    rw [is, ← cons_append, dropLast_concat]
    rfl

theorem inForce_concat (initial : Setting) (additions : List (List Name)) (names : List Name) :
    inForce initial (additions ++ [names]) = setting names := by
  simp [inForce]

theorem remembered_concat (initial : Setting) (additions : List (List Name)) (names : List Name) :
    remembered initial (additions ++ [names]) =
      if (inForce initial additions).val = [] then remembered initial additions else (inForce initial additions).val := by
  rw [remembered, standing_concat, map_append, filter_append]
  by_cases none : (inForce initial additions).val = []
  · simp [none, remembered]
  · simp [none]

theorem remembered_ne_empty (initial : Setting) (additions : List (List Name)) :
    remembered initial additions ≠ [Name.empty] := by
  unfold remembered
  cases last : (((standing initial additions).map Subtype.val).filter (· ≠ [])).getLast? with
  | none => simp
  | some names =>
    obtain ⟨value, -, rfl⟩ := mem_map.mp (mem_of_mem_filter (mem_of_getLast? last))
    exact value.property

theorem setting_asArguments {names} (named : names ≠ [Name.empty]) : (setting (asArguments names)).val = names := by
  by_cases none : names = []
  · simp [setting, asArguments, none]
  · simp [setting, asArguments, none, named]

/-! One call. -/

theorem addNames_none (world : World) : addNames fails serviceName listing [] world = (true, world.resetBuffer) := by
  simp [addNames]

theorem addNames_some (works : ∀ call, fails call = false) (some : names ≠ []) {world}
    (empty : world.outputBuffer = []) : addNames fails serviceName listing names world =
      (true,
        { lists := Function.update world.lists listing (setting names)
          orig := if (world.lists listing).val = [] then world.orig
            else Function.update world.orig listing (world.lists listing).val
          outputBuffer := []
          calls := world.calls + 2 }) := by
  have positive := length_pos_iff.mpr some
  by_cases none : (world.lists listing).val = []
  · simp [addNames, positive, networksetup, works, World.resetBuffer, empty, report, none]
  · have told := @report_ne_notSet serviceName listing (world.lists listing) none
    have read : fields (report serviceName listing (world.lists listing)) = (world.lists listing).val := by
      rw [report, if_neg none, fields_lines]
    simp [addNames, positive, networksetup, works, World.resetBuffer, empty, told, read, none]

theorem clear_lists (works : ∀ call, fails call = false) (world : World) (listing : Listing) :
    (clear fails serviceName world).lists listing = setting (world.orig listing) := by
  cases listing <;> simp [clear, networksetup, works, World.resetBuffer]

/-! Whole sessions. -/

/-- What the calls so far have set and kept. -/
structure Follows (initial : Listing → Setting) (calls : List Call) (world : World) : Prop where
  lists : ∀ listing, world.lists listing = inForce (initial listing) (additions listing calls)
  orig : ∀ listing, world.orig listing = asArguments (remembered (initial listing) (additions listing calls))
  buffer : world.outputBuffer = []

theorem follows_new : Follows initial [] (newWorld initial) := by
  refine ⟨fun listing => ?_, fun listing => ?_, rfl⟩
  · simp [newWorld, inForce, additions]
  · simp [newWorld, remembered, standing, asArguments, additions]

theorem Follows.addNames {calls} {call world} (follows : Follows initial calls world)
    (works : ∀ call, fails call = false)
    (own : additions listing (calls ++ [call]) = additions listing calls ++ if names = [] then [] else [names])
    (other : ∀ listing', listing' ≠ listing → additions listing' (calls ++ [call]) = additions listing' calls) :
    Follows initial (calls ++ [call]) (addNames fails serviceName listing names world).2 := by
  obtain ⟨lists, orig, buffer⟩ := follows
  by_cases none : names = []
  · subst none
    rw [addNames_none]
    have same : ∀ listing', additions listing' (calls ++ [call]) = additions listing' calls := by
      intro listing'
      by_cases is : listing' = listing
      · subst is
        simpa using own
      · exact other listing' is
    exact ⟨fun listing' => by rw [same]; exact lists listing', fun listing' => by rw [same]; exact orig listing', rfl⟩
  · rw [if_neg none] at own
    rw [addNames_some works none buffer]
    refine ⟨fun listing' => ?_, fun listing' => ?_, rfl⟩
    · by_cases is : listing' = listing
      · subst is
        simp [own, inForce_concat]
      · simpa [is, other listing' is] using lists listing'
    · by_cases is : listing' = listing
      · subst is
        simp only [own, remembered_concat, ← lists]
        by_cases empty : (world.lists listing').val = []
        · simp [empty, orig]
        · simp [empty, asArguments]
      · rw [other listing' is]
        split
        · exact orig listing'
        · simpa [is] using orig listing'

theorem Follows.exec {calls} {world} (follows : Follows initial calls world) (works : ∀ call, fails call = false)
    (call : Call) : Follows initial (calls ++ [call]) (call.exec fails serviceName world) := by
  cases call with
  | addDNSServers servers =>
    refine follows.addNames works ?_ ?_
    · by_cases none : servers = [] <;> simp [additions, none]
    · intro listing different
      cases listing with
      | dnsServers => exact absurd rfl different
      | searchDomains => simp [additions]
  | addSearchDomains domains =>
    refine follows.addNames works ?_ ?_
    · by_cases none : domains = [] <;> simp [additions, none]
    · intro listing different
      cases listing with
      | dnsServers => simp [additions]
      | searchDomains => exact absurd rfl different

theorem follows_calls (works : ∀ call, fails call = false) (calls : List Call) :
    Follows initial calls (calls.foldl (fun world call => call.exec fails serviceName world) (newWorld initial)) := by
  induction calls using List.reverseRecOn with
  | nil => exact follows_new
  | append_singleton calls call ih =>
    rw [foldl_append, foldl_cons, foldl_nil]
    exact ih.exec works call

/-- After `Clear` the service has its initial lists again exactly when, for both lists,
the last non-empty one in force at an addition is the initial one. -/
theorem restored_iff (works : ∀ call, fails call = false) (serviceName : String) (initial : Listing → Setting)
    (calls : List Call) :
    (∀ listing, (session fails serviceName initial calls).lists listing = initial listing) ↔
      ∀ listing, remembered (initial listing) (additions listing calls) = (initial listing).val := by
  have follows := @follows_calls fails serviceName initial works calls
  apply forall_congr'
  intro listing
  rw [session, clear_lists works, follows.orig, Subtype.ext_iff, setting_asArguments (remembered_ne_empty _ _)]

def one : Name := ⟨"1.1.1.1".toList, by decide⟩

def eight : Name := ⟨"8.8.8.8".toList, by decide⟩

def nine : Name := ⟨"9.9.9.9".toList, by decide⟩

def oneServer : Listing → Setting
  | .dnsServers => ⟨[eight], by decide⟩
  | .searchDomains => ⟨[], by decide⟩

theorem restored_once :
    (session (fun _ => false) "Wi-Fi" oneServer [.addDNSServers [one], .addSearchDomains [nine]]).lists .dnsServers =
      oneServer .dnsServers :=
  (restored_iff (fun _ => rfl) "Wi-Fi" oneServer [.addDNSServers [one], .addSearchDomains [nine]]).mpr
    (by intro listing; cases listing <;> decide) .dnsServers

/-- The second addition keeps the servers of the first as the original ones. -/
theorem first_addition_restored :
    (session (fun _ => false) "Wi-Fi" oneServer [.addDNSServers [one], .addDNSServers [nine]]).lists .dnsServers ≠
      oneServer .dnsServers := by
  decide

end MycsCommon.Network.DnsManager
