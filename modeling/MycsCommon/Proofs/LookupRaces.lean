import MycsCommon.Library.Machine
import MycsCommon.Network.Operations
import MycsCommon.Network.RuleSearch
import MycsCommon.Proofs.RuleLookup

/-! The goroutines of `findRuleInList` compare what another one may have marshalled. Where each compares what it
wrote itself, their results are those of the comparisons made one after another. -/

namespace MycsCommon.Network
open List Library.Machine Option Reachable Search

namespace Search

variable {nft : Nft} {rule : Rule} {rules : List Rule} {data : List nft.Wire}

/-- The goroutine is about to compare what another one has written. -/
def disturbed (search : Search nft) (index : Nat) : Bool :=
  match search.goroutines[index]? with
  | some (_, .compare ..) => search.writer ≠ some index
  | _ => false

/-- The steps in which no goroutine compares what another one has written. -/
def undisturbed (rule : Rule) (data : List nft.Wire) (index : Nat) (search : Search nft) : Option (Search nft) :=
  if search.disturbed index then none else step rule data index search

/-- The search does not panic, it returns once no goroutine has a step left, and it returns a rule like the searched one
if the list holds one. -/
structure Exact (rule : Rule) (data : List nft.Wire) (rules : List Rule) (search : Search nft) : Prop where
  running : search.panicked = false
  returns : (∀ index, step rule data index search = none) → ∃ found, search.answer = some found
  right : ∀ found, search.answer = some found →
    (found = none ↔ ∀ candidate ∈ rules, ¬ candidate.Same rule) ∧ ∀ candidate ∈ found, candidate ∈ rules ∧ candidate.Same rule

def isSent : Rule × Phase nft → Bool
  | (_, .sent) => true
  | _ => false

def report (candidate : Rule) (matched : Bool) : Option Rule := if matched then some candidate else none

/-- What a goroutine still has to do comes to what the comparison gives when it runs alone. -/
def OnCourse (rule : Rule) (data : List nft.Wire) (search : Search nft) (index : Nat) (candidate : Rule) : Phase nft → Prop
  | .start => True
  | .marshal exprs rest => matchExprs nft candidate.table exprs rest = checkRuleMatch nft rule data candidate
  | .compare expr exprs rest =>
    matchExprs nft candidate.table (expr :: exprs) rest = checkRuleMatch nft rule data candidate ∧
      (search.writer = some index → search.exprData = nft.marshal candidate.table expr)
  | .sent => ∃ matched, checkRuleMatch nft rule data candidate = .ok matched ∧ report candidate matched ∈ search.results

structure Steady (rule : Rule) (data : List nft.Wire) (rules : List Rule) (search : Search nft) : Prop where
  candidates : search.goroutines.map Prod.fst = rules
  onCourse : ∀ index candidate phase, search.goroutines[index]? = some (candidate, phase) → OnCourse rule data search index candidate phase
  counted : search.results.length = search.goroutines.countP isSent
  matched : ∀ candidate, some candidate ∈ search.results → candidate ∈ rules ∧ checkRuleMatch nft rule data candidate = .ok true
  panics : search.panicked = true → ∃ candidate ∈ rules, ∃ panic, checkRuleMatch nft rule data candidate = .error panic

theorem steady_start : Steady rule data rules (start data rules) where
  candidates := by simp [start, Function.comp_def]
  onCourse := by
    intro index candidate phase here
    obtain ⟨_, -, same⟩ : ∃ other, rules[index]? = some other ∧ (other, Phase.start) = (candidate, phase) := by simpa [start] using here
    rw [← (Prod.mk.inj same).2]
    trivial
  counted := by simp [start, isSent, countP_map, Function.comp_def]
  matched := by simp [start]
  panics := by simp [start]

variable {search after : Search nft} {index : Nat} {candidate : Rule} {phase : Phase nft}

theorem Steady.mem (steady : Steady rule data rules search) (here : search.goroutines[index]? = some (candidate, phase)) :
    candidate ∈ rules := by
  rw [← steady.candidates]
  exact mem_map_of_mem (mem_of_getElem? here)

/-- A turn that leaves the variable alone or writes it in the goroutine's own name keeps the others on their course. -/
theorem OnCourse.other {position} (course : OnCourse rule data search position candidate phase)
    (different : position ≠ index)
    (written : after.writer = search.writer ∧ after.exprData = search.exprData ∨ after.writer = some index)
    (more : ∀ result ∈ search.results, result ∈ after.results) : OnCourse rule data after position candidate phase := by
  cases phase with
  | start => trivial
  | marshal => exact course
  | compare =>
    refine ⟨course.1, fun own => ?_⟩
    obtain ⟨writer, exprData⟩ | writer := written
    · rw [exprData]
      exact course.2 (writer ▸ own)
    · exact absurd (some.inj (own.symm.trans writer)) different
  | sent =>
    obtain ⟨matched, verdict, sent⟩ := course
    exact ⟨matched, verdict, more _ sent⟩

section

variable (steady : Steady rule data rules search)
include steady

theorem Steady.turn (next : Phase nft) (added : List (Option Rule))
    (here : search.goroutines[index]? = some (candidate, phase))
    (unsent : isSent (candidate, phase) = false) (moved : after.goroutines = search.goroutines.set index (candidate, next))
    (results : after.results = search.results ++ added) (counted : added.length = (isSent (candidate, next)).toNat)
    (matched : ∀ other, some other ∈ added → other = candidate ∧ checkRuleMatch nft rule data candidate = .ok true)
    (written : after.writer = search.writer ∧ after.exprData = search.exprData ∨ after.writer = some index)
    (panicked : after.panicked = search.panicked) (course : OnCourse rule data after index candidate next) :
    Steady rule data rules after where
  candidates := by
    obtain ⟨inside, same⟩ := List.getElem?_eq_some_iff.mp here
    rw [moved, map_set, ← steady.candidates]
    apply ext_getElem?
    intro position
    by_cases there : index = position
    · subst there
      simp [inside, same]
    · rw [getElem?_set_ne there]
  onCourse := by
    intro position other state there
    rw [moved] at there
    by_cases same : index = position
    · subst same
      obtain ⟨inside, -⟩ := List.getElem?_eq_some_iff.mp here
      obtain ⟨rfl, rfl⟩ : candidate = other ∧ next = state := by simpa [getElem?_set_self inside] using there
      exact course
    · rw [getElem?_set_ne same] at there
      exact (steady.onCourse position other state there).other (Ne.symm same) written fun result member => by simp [results, member]
  counted := by
    have turned := @countP_set _ _ _ _ (candidate, next) isSent here
    have before := steady.counted
    rw [unsent, Bool.toNat_false] at turned
    rw [results, moved, length_append]
    omega
  matched := by
    intro other member
    obtain early | late := mem_append.mp (results ▸ member)
    · exact steady.matched other early
    · obtain ⟨rfl, verdict⟩ := matched other late
      exact ⟨steady.mem here, verdict⟩
  panics := fun failed => steady.panics (panicked ▸ failed)

theorem Steady.send (matched : Bool) (here : search.goroutines[index]? = some (candidate, phase))
    (unsent : isSent (candidate, phase) = false) (verdict : checkRuleMatch nft rule data candidate = .ok matched) :
    Steady rule data rules (search.send index candidate (report candidate matched)) := by
  refine steady.turn .sent _ here unsent rfl rfl rfl (fun other member => ?_) (.inl ⟨rfl, rfl⟩) rfl
    ⟨matched, verdict, by simp [Search.send]⟩
  cases matched with
  | true => exact ⟨by simpa [report] using member, verdict⟩
  | false => simp [report] at member

theorem Steady.step (taken : undisturbed rule data index search = some after) :
    Steady rule data rules after := by
  obtain ⟨quiet, stepped⟩ : search.disturbed index = false ∧ Search.step rule data index search = some after := by
    simpa [undisturbed] using taken
  obtain ⟨running, ⟨candidate, phase⟩, here, turned⟩ : search.panicked = false ∧ ∃ goroutine, search.goroutines[index]? = some goroutine ∧
      search.turn rule data index goroutine.1 goroutine.2 = some after := by
    simpa [Search.step, Option.bind_eq_some_iff] using stepped
  have course := steady.onCourse index candidate phase here
  cases phase with
  | start =>
    simp only [Search.turn] at turned
    split at turned
    next same =>
      obtain rfl := Option.some.inj turned
      exact steady.turn _ [] here rfl rfl (by simp [Search.move]) rfl (by simp) (.inl ⟨rfl, rfl⟩) rfl
        (by rw [OnCourse, checkRuleMatch, if_pos same])
    next different =>
      obtain rfl := Option.some.inj turned
      exact steady.send false here rfl (by rw [checkRuleMatch, if_neg different])
  | marshal exprs rest =>
    cases exprs with
    | nil =>
      obtain rfl := Option.some.inj turned
      exact steady.send true here rfl course.symm
    | cons expr exprs =>
      obtain ⟨wire, marshalled⟩ := Option.isSome_iff_exists.mp (nft.marshal_total candidate.table expr)
      simp only [Search.turn, marshalled] at turned
      obtain rfl := Option.some.inj turned
      exact steady.turn _ [] here rfl rfl (by simp [Search.move]) rfl (by simp) (.inr rfl) rfl
        ⟨course, fun _ => marshalled.symm⟩
  | compare expr exprs rest =>
    obtain ⟨verdict, written⟩ := course
    have own : search.writer = some index := by simpa [disturbed, here] using quiet
    obtain ⟨wire, marshalled⟩ := Option.isSome_iff_exists.mp (nft.marshal_total candidate.table expr)
    have wrote := (written own).trans marshalled
    cases rest with
    | nil =>
      obtain rfl := Option.some.inj turned
      simp only [matchExprs, marshalled] at verdict
      exact { steady with
        onCourse := fun position other state there => steady.onCourse position other state there
        panics := fun _ => ⟨candidate, steady.mem here, _, verdict.symm⟩ }
    | cons expected rest =>
      simp only [matchExprs, marshalled] at verdict
      simp only [Search.turn, wrote, Option.some.injEq] at turned
      by_cases same : wire = expected
      · rw [if_pos same] at turned verdict
        obtain rfl := Option.some.inj turned
        exact steady.turn _ [] here rfl rfl (by simp [Search.move]) rfl (by simp) (.inl ⟨rfl, rfl⟩) rfl verdict
      · rw [if_neg same] at turned verdict
        obtain rfl := Option.some.inj turned
        exact steady.send false here rfl verdict.symm
  | sent => cases turned

end

/-- How many steps a goroutine has left at most. -/
def weight : Rule × Phase nft → Nat
  | (candidate, .start) => 2 * candidate.exprs.length + 2
  | (_, .marshal exprs _) => 2 * exprs.length + 1
  | (_, .compare _ exprs _) => 2 * exprs.length + 2
  | (_, .sent) => 0

/-- A goroutine that has not sent its result panics or comes closer to it. -/
theorem exists_turn (unsent : phase ≠ .sent) : ∃ after, search.turn rule data index candidate phase = some after ∧
    (after = { search with panicked := true } ∨ ∃ next, after.goroutines = search.goroutines.set index (candidate, next) ∧
      after.panicked = search.panicked ∧ weight (candidate, next) < weight (candidate, phase)) := by
  have sends : ∀ result, ∃ next, (search.send index candidate result).goroutines = search.goroutines.set index (candidate, next) ∧
      (search.send index candidate result).panicked = search.panicked ∧ weight (candidate, next) < weight (candidate, phase) :=
    fun result => ⟨.sent, rfl, rfl, by cases phase <;> simp [weight] at unsent ⊢⟩
  cases phase with
  | start =>
    simp only [turn]
    split
    · exact ⟨_, rfl, .inr ⟨_, rfl, rfl, by simp [weight]⟩⟩
    · exact ⟨_, rfl, .inr (sends _)⟩
  | marshal exprs rest =>
    cases exprs with
    | nil => exact ⟨_, rfl, .inr (sends _)⟩
    | cons expr exprs =>
      simp only [turn]
      split
      · exact ⟨_, rfl, .inr (sends _)⟩
      · exact ⟨_, rfl, .inr ⟨_, rfl, rfl, by simp [weight]; omega⟩⟩
  | compare expr exprs rest =>
    cases rest with
    | nil => exact ⟨_, rfl, .inl rfl⟩
    | cons expected rest =>
      simp only [turn]
      split
      · exact ⟨_, rfl, .inr ⟨_, rfl, rfl, by simp [weight]⟩⟩
      · exact ⟨_, rfl, .inr (sends _)⟩
  | sent => exact absurd rfl unsent

theorem Steady.sent_of_full (steady : Steady rule data rules search) (full : search.results.length = search.goroutines.length)
    (member : candidate ∈ rules) : ∃ matched, checkRuleMatch nft rule data candidate = .ok matched ∧ report candidate matched ∈ search.results := by
  rw [← steady.candidates] at member
  obtain ⟨⟨_, phase⟩, listed, rfl⟩ := mem_map.mp member
  obtain ⟨index, here⟩ := mem_iff_getElem?.mp listed
  have sent := countP_eq_length.mp (steady.counted.symm.trans full) _ listed
  have course := steady.onCourse index _ phase here
  cases phase <;> first | exact course | cases sent

theorem Steady.exact (steady : Steady rule data rules search)
    (verdicts : ∀ candidate ∈ rules, checkRuleMatch nft rule data candidate = .ok (decide (candidate.Same rule))) :
    Exact rule data rules search := by
  have running : search.panicked = false := by
    by_contra failed
    obtain ⟨candidate, member, panic, verdict⟩ := steady.panics (by simpa using failed)
    cases (verdicts candidate member).symm.trans verdict
  refine ⟨running, fun stuck => ?_, fun found returned => ?_⟩
  · have all : ∀ goroutine ∈ search.goroutines, isSent goroutine = true := by
      rintro ⟨candidate, phase⟩ member
      obtain ⟨index, here⟩ := mem_iff_getElem?.mp member
      have none := stuck index
      rw [Search.step, running, if_neg Bool.false_ne_true, here, Option.bind_some] at none
      by_contra unsent
      obtain ⟨after, turned, -⟩ := @exists_turn _ rule data search index candidate phase fun sent => unsent (by rw [sent]; rfl)
      cases none.symm.trans turned
    have full := steady.counted.trans (countP_eq_length.mpr all)
    unfold answer
    split
    next found _ => exact ⟨found, rfl⟩
    next => exact ⟨none, if_pos full⟩
  · unfold answer at returned
    split at returned
    next result first =>
      obtain rfl := some.inj returned
      obtain ⟨candidate, rfl⟩ := isSome_iff_exists.mp (find?_some first)
      obtain ⟨member, verdict⟩ := steady.matched candidate (mem_of_find?_eq_some first)
      have same : candidate.Same rule := by simpa using (verdicts candidate member).symm.trans verdict
      refine ⟨⟨nofun, fun none => absurd same (none candidate member)⟩, fun other given => ?_⟩
      obtain rfl := some.inj given
      exact ⟨member, same⟩
    next nothing =>
      obtain ⟨full, rfl⟩ : search.results.length = search.goroutines.length ∧ none = found := by simpa using returned
      refine ⟨⟨fun _ candidate member same => ?_, fun _ => rfl⟩, nofun⟩
      obtain ⟨matched, verdict, sent⟩ := steady.sent_of_full full member
      obtain rfl : true = matched := by simpa [same] using (verdicts candidate member).symm.trans verdict
      exact absurd (find?_eq_none.mp nothing _ sent) (by simp [report])

/-- A goroutine that runs alone comes to the result of its comparison. -/
theorem solo {exprs rest} (running : search.panicked = false)
    (here : search.goroutines[index]? = some (candidate, .marshal exprs rest)) :
    ∃ after, Reachable (undisturbed rule data) search after ∧
      (matchExprs nft candidate.table exprs rest = .ok true → after.results = search.results ++ [some candidate]) ∧
      (∀ panic, matchExprs nft candidate.table exprs rest = .error panic → after.panicked = true) := by
  obtain ⟨inside, -⟩ := List.getElem?_eq_some_iff.mp here
  induction exprs generalizing search rest with
  | nil =>
    refine ⟨_, Reachable.start.next index (by simp [undisturbed, disturbed, Search.step, Search.turn, here, running]; rfl), ?_⟩
    simp [matchExprs, send]
  | cons expr exprs ih =>
    obtain ⟨wire, marshalled⟩ := isSome_iff_exists.mp (nft.marshal_total candidate.table expr)
    have first : undisturbed rule data index search =
        some { search.move index candidate (.compare expr exprs rest) with exprData := some wire, writer := some index } := by
      simp [undisturbed, disturbed, step, turn, here, running, marshalled]
    have there : (search.goroutines.set index (candidate, .compare expr exprs rest))[index]? = some (candidate, .compare expr exprs rest) :=
      getElem?_set_self inside
    cases rest with
    | nil =>
      refine ⟨_, (Reachable.start.next index first).next index
        (by simp [undisturbed, disturbed, step, turn, move, there, running]; rfl), ?_⟩
      simp [matchExprs, marshalled]
    | cons expected rest =>
      simp only [matchExprs, marshalled]
      by_cases same : wire = expected
      · have second : undisturbed rule data index
            { search.move index candidate (.compare expr exprs (expected :: rest)) with exprData := some wire, writer := some index } =
            some { search.move index candidate (.marshal exprs rest) with exprData := some wire, writer := some index } := by
          simp [undisturbed, disturbed, step, turn, move, there, running, same]
        obtain ⟨after, reached, results⟩ := @ih
          { search.move index candidate (.marshal exprs rest) with exprData := some wire, writer := some index } rest running
          (getElem?_set_self inside) (by simpa [move] using inside)
        refine ⟨after, ((Reachable.start.next index first).next index second).trans reached, ?_⟩
        simpa [same, move] using results
      · exact ⟨search, .start, by simp [same], by simp [same]⟩

def rank (search : Search nft) : Nat := (search.goroutines.map weight).sum + (!search.panicked).toNat

theorem rank_step (taken : step rule data index search = some after) : after.rank < search.rank := by
  obtain ⟨running, ⟨candidate, phase⟩, here, turned⟩ : search.panicked = false ∧ ∃ goroutine, search.goroutines[index]? = some goroutine ∧
      search.turn rule data index goroutine.1 goroutine.2 = some after := by
    simpa [step, bind_eq_some_iff] using taken
  have unsent : phase ≠ .sent := by
    rintro rfl
    cases turned
  obtain ⟨_, same, shape⟩ := @exists_turn _ rule data search index candidate phase unsent
  obtain rfl := some.inj (turned.symm.trans same)
  obtain rfl | ⟨next, moved, kept, less⟩ := shape
  · simp [rank, running]
  · obtain ⟨front, back, whole, set, -⟩ := exists_around here
    rw [rank, rank, kept, moved, set, whole]
    simpa using less

/-- Every run ends. Where each goroutine compares what it wrote itself, the search is exact for the lists in which no
candidate with the same flags and user data is continued by the searched rule or continues it. -/
theorem search_exact_iff {nft : Nft} {rule : Rule} {rules : List Rule}
    (uniform : ∀ candidate ∈ rules, ∀ expr, nft.marshal candidate.table expr = nft.marshal rule.table expr) :
    (∀ data index (search after : Search nft), step rule data index search = some after → after.rank < search.rank) ∧
    ((∀ data, rule.exprs.mapM (nft.marshal rule.table) = some data →
        ∀ search, Reachable (undisturbed rule data) (start data rules) search → Exact rule data rules search) ↔
      ∀ candidate ∈ rules, candidate.flags = rule.flags → candidate.userData = rule.userData →
        candidate.exprs <+: rule.exprs ∨ rule.exprs <+: candidate.exprs → candidate.exprs = rule.exprs) := by
  refine ⟨fun data index search after taken => rank_step taken, fun exact candidate member => ?_, fun distinct data marshalled search reached => ?_⟩
  · obtain ⟨data, marshalled⟩ := marshal_all nft rule.table rule.exprs
    obtain ⟨index, here⟩ := mem_iff_getElem?.mp member
    by_contra overlapping
    have wrong := mt (checkRuleMatch_iff marshalled (uniform candidate member)).mp overlapping
    simp only [Classical.not_imp] at overlapping
    obtain ⟨flags, userData, -, different⟩ := overlapping
    have unlike : ¬ candidate.Same rule := fun same => different same.2.2
    have first : undisturbed rule data index (start data rules) = some ((start data rules).move index candidate (.marshal candidate.exprs data)) := by
      simp [undisturbed, disturbed, step, turn, start, here, flags, userData]
    obtain ⟨inside, -⟩ := List.getElem?_eq_some_iff.mp here
    obtain ⟨after, reached, results, panics⟩ := @solo _ rule data ((start data rules).move index candidate (.marshal candidate.exprs data))
      index candidate _ _ rfl (getElem?_set_self (by simpa [start] using inside))
    have fine := exact data marshalled after ((Reachable.start.next index first).trans reached)
    rw [checkRuleMatch, if_pos ⟨flags, userData⟩, decide_eq_false unlike] at wrong
    cases verdict : matchExprs nft candidate.table candidate.exprs data with
    | error panic => exact absurd (panics panic verdict) (by simp [fine.running])
    | ok matched =>
      cases matched with
      | false => exact wrong verdict
      | true =>
        have returned : after.answer = some (some candidate) := by simp [answer, results verdict, move, start]
        exact unlike ((fine.right _ returned).2 candidate rfl).2
  · have steady := reached.invariant (Steady rule data rules) steady_start fun _ _ _ => Steady.step
    exact steady.exact fun candidate member => (checkRuleMatch_iff marshalled (uniform candidate member)).mpr (distinct candidate member)

end Search

/-- The rules that masquerade and accept what is forwarded to an address, as they are saved for a forwarded port. -/
def forwardedRule (lastByte : BitVec 8) (verdict : Expr) : Rule :=
  { table := .ipv4, chain := if verdict = .masq then "nat_postrouting" else "forward"
    exprs := destExprs .ipv4 (.v4 (0x0a0000#24 ++ lastByte)) ++ [verdict] }

/-- Two goroutines take turns so that the rule that is in the list is missed, and so that one for another address is found. -/
theorem lookup_raced :
    [forwardedRule 2 .masq, forwardedRule 2 (.verdict .accept)] =
        (forwardPortRules .ipv4 6 80 8080 .zero (.v4 (0x0a0000#24 ++ 2#8))).drop 1 ∧
      (∃ search, run (@step .counting (forwardedRule 2 .masq) (forwardedRule 2 .masq).exprs) [0, 1, 0, 0, 0, 1, 0, 1, 1, 1]
        (.start (forwardedRule 2 .masq).exprs [forwardedRule 2 .masq, forwardedRule 3 .masq]) = some search ∧
          search.answer = some none) ∧
      ∃ search, run (@step .counting (forwardedRule 2 .masq) (forwardedRule 2 .masq).exprs) [0, 1, 0, 0, 1, 1, 0, 1, 0, 0, 0, 0]
        (.start (forwardedRule 2 .masq).exprs [forwardedRule 3 .masq, forwardedRule 2 (.verdict .accept)]) = some search ∧
          search.answer = some (some (forwardedRule 3 .masq)) :=
  ⟨rfl, ⟨_, rfl, rfl⟩, _, rfl, rfl⟩

theorem search_exact_undisturbed : ∃ data, (forwardedRule 2 .masq).exprs.mapM (Nft.counting.marshal .ipv4) = some data ∧
    ∀ search, Reachable (undisturbed (forwardedRule 2 .masq) data) (.start data [forwardedRule 2 .masq, forwardedRule 3 .masq]) search →
      search.Exact (forwardedRule 2 .masq) data [forwardedRule 2 .masq, forwardedRule 3 .masq] :=
  ⟨_, rfl, (@search_exact_iff .counting (forwardedRule 2 .masq) [forwardedRule 2 .masq, forwardedRule 3 .masq] fun _ _ _ => rfl).2.mpr
    (by decide) _ rfl⟩

end MycsCommon.Network
