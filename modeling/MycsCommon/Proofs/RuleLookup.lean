import MycsCommon.Network.FilterRouter

/-! What `findRuleInList` finds. The comparison reads as many expressions as the
candidate has, so it accepts any candidate that is an initial part of the rule and
indexes past the end of the rule for one that continues it. Neither can happen to
rules whose only terminal expression is their last. -/

namespace MycsCommon.Network
open Except Option

/-- A verdict, a verdict map lookup or an address translation: what ends a rule. -/
def Expr.terminal : Expr → Bool
  | .verdict _ => true
  | .lookup _ _ isDestRegSet _ => isDestRegSet
  | .dnat .. => true
  | .masq => true
  | _ => false

/-- The rule has a terminal expression and it is the last one. -/
def Terminated : List Expr → Prop
  | [] => False
  | [expr] => expr.terminal = true
  | expr :: exprs => expr.terminal = false ∧ Terminated exprs

instance decidableTerminated : (exprs : List Expr) → Decidable (Terminated exprs)
  | [] => isFalse id
  | [expr] => inferInstanceAs (Decidable (expr.terminal = true))
  | expr :: next :: exprs =>
    have := decidableTerminated (next :: exprs)
    inferInstanceAs (Decidable (expr.terminal = false ∧ Terminated (next :: exprs)))

theorem Terminated.cons {expr} {exprs} (continues : expr.terminal = false) (rest : Terminated exprs) :
    Terminated (expr :: exprs) := by
  cases exprs with
  | nil => exact absurd rest id
  | cons next exprs => exact ⟨continues, rest⟩

theorem Terminated.append {first rest} (continues : ∀ expr ∈ first, expr.terminal = false) (ends : Terminated rest) :
    Terminated (first ++ rest) := by
  induction first with
  | nil => exact ends
  | cons expr first ih =>
    exact .cons (continues expr (by simp)) (ih fun other member => continues other (by simp [member]))

theorem Terminated.eq_of_initial {exprs other} (ends : Terminated exprs) (otherEnds : Terminated other)
    (initial : exprs <+: other) : exprs = other := by
  induction exprs generalizing other with
  | nil => exact absurd ends id
  | cons expr exprs ih =>
    cases other with
    | nil => exact absurd otherEnds id
    | cons first other =>
      obtain ⟨rfl, more⟩ := List.cons_prefix_cons.mp initial
      -- where one list ends with this expression, the other must end with it too
      cases exprs with
      | nil =>
        cases other with
        | nil => rfl
        | cons => exact absurd (show expr.terminal = true from ends) (by simp [otherEnds.1])
      | cons =>
        cases other with
        | nil => simp at more
        | cons => rw [ih ends.2 otherEnds.2 more]

/-- A rule as the router builds them: nothing but a table, a chain and expressions. -/
structure Rule.Standard (rule : Rule) : Prop where
  flags : rule.flags = 0
  userData : rule.userData = []
  terminated : Terminated rule.exprs

instance (rule : Rule) : Decidable rule.Standard :=
  decidable_of_iff (rule.flags = 0 ∧ rule.userData = [] ∧ Terminated rule.exprs)
    ⟨fun ⟨flags, userData, terminated⟩ => ⟨flags, userData, terminated⟩,
      fun standard => ⟨standard.flags, standard.userData, standard.terminated⟩⟩

variable {nft : Nft}

theorem marshal_all (nft : Nft) (family : Family) (exprs : List Expr) :
    ∃ data, exprs.mapM (nft.marshal family) = some data := by
  induction exprs with
  | nil => exact ⟨[], rfl⟩
  | cons expr exprs ih =>
    obtain ⟨data, marshalled⟩ := ih
    obtain ⟨wire, sent⟩ := isSome_iff_exists.mp (nft.marshal_total family expr)
    exact ⟨wire :: data, by simp [sent, marshalled]⟩

/-- The comparison accepts an initial part of the rule and runs past the end of the rule in one that continues it. -/
theorem matchExprs_spec {family other} {exprs found data} (marshalled : exprs.mapM (nft.marshal family) = some data)
    (uniform : ∀ expr, nft.marshal other expr = nft.marshal family expr) :
    matchExprs nft other found data =
      if found <+: exprs then .ok true else if exprs <+: found then .error .indexOutOfRange else .ok false := by
  induction found generalizing exprs data with
  | nil => simp [matchExprs]
  | cons candidate found ih =>
    obtain ⟨wire, received⟩ := isSome_iff_exists.mp (nft.marshal_total family candidate)
    cases exprs with
    | nil =>
      obtain rfl : [] = data := by simpa using marshalled
      simp [matchExprs, uniform, received]
    | cons expr exprs =>
      obtain ⟨expected, sent⟩ := isSome_iff_exists.mp (nft.marshal_total family expr)
      simp only [List.mapM_cons, sent, pure_def, bind_eq_bind, bind_some, bind_eq_some_iff, some.injEq] at marshalled
      obtain ⟨rest, remaining, rfl⟩ := marshalled
      have same : wire = expected ↔ candidate = expr := by
        rw [← (nft.marshal_injective family).eq_iff, received, sent, some.injEq]
      simp only [matchExprs, uniform, received, same, List.cons_prefix_cons, ih remaining, eq_comm (a := expr)]
      by_cases equal : candidate = expr <;> simp [equal]

/-- What the lookup compares of a candidate and the searched rule. -/
def Rule.Same (candidate rule : Rule) : Prop :=
  candidate.flags = rule.flags ∧ candidate.userData = rule.userData ∧ candidate.exprs = rule.exprs

instance (candidate rule : Rule) : Decidable (candidate.Same rule) := inferInstanceAs (Decidable (_ ∧ _))

/-- Neither of two rules with the same flags and user data is an initial part of the other, unless they are the same. -/
def Rule.Distinct (candidate rule : Rule) : Prop :=
  candidate.flags = rule.flags → candidate.userData = rule.userData →
    candidate.exprs <+: rule.exprs ∨ rule.exprs <+: candidate.exprs → candidate.exprs = rule.exprs

theorem checkRuleMatch_iff {rule candidate} {data}
    (marshalled : rule.exprs.mapM (nft.marshal rule.table) = some data)
    (uniform : ∀ expr, nft.marshal candidate.table expr = nft.marshal rule.table expr) :
    checkRuleMatch nft rule data candidate = .ok (decide (candidate.Same rule)) ↔ candidate.Distinct rule := by
  unfold checkRuleMatch Rule.Same Rule.Distinct
  by_cases flags : candidate.flags = rule.flags
  · by_cases userData : candidate.userData = rule.userData
    · simp only [flags, userData, and_self, if_true, true_and, forall_const, matchExprs_spec marshalled uniform]
      by_cases equal : candidate.exprs = rule.exprs
      · simp [equal]
      · by_cases initial : candidate.exprs <+: rule.exprs
        · simp [initial, equal]
        · by_cases continued : rule.exprs <+: candidate.exprs <;> simp [initial, continued, equal]
    · simp [userData]
  · simp [flags]

theorem Rule.Standard.distinct {candidate rule : Rule} (standard : candidate.Standard) (other : rule.Standard) :
    candidate.Distinct rule := by
  rintro - - (initial | continued)
  · exact standard.terminated.eq_of_initial other.terminated initial
  · exact (other.terminated.eq_of_initial standard.terminated continued).symm

private theorem filterAuxM_ok {candidates : List Rule} {check : Rule → Except Panic Bool} {accept}
    (checked : ∀ rule ∈ candidates, check rule = .ok (accept rule)) (taken : List Rule) :
    candidates.filterAuxM check taken = .ok ((candidates.filter accept).reverse ++ taken) := by
  induction candidates generalizing taken with
  | nil => rfl
  | cons rule candidates ih =>
    rw [List.filterAuxM, checked rule (by simp)]
    have rest := fun more => ih (fun other member => checked other (by simp [member])) more
    cases accepted : accept rule with
    | true => simpa [accepted, bind, Except.bind] using rest (rule :: taken)
    | false => simpa [accepted, bind, Except.bind] using rest taken

private theorem filterM_ok {candidates : List Rule} {check : Rule → Except Panic Bool} {accept}
    (checked : ∀ rule ∈ candidates, check rule = .ok (accept rule)) :
    candidates.filterM check = .ok (candidates.filter accept) := by
  unfold List.filterM
  rw [filterAuxM_ok checked]
  simp [bind, Except.bind, pure, Except.pure]

theorem findRuleInList_exact {rule : Rule} {candidates : List Rule}
    (checked : ∀ candidate ∈ candidates, candidate.Distinct rule ∧ ∀ expr, nft.marshal candidate.table expr = nft.marshal rule.table expr) :
    findRuleInList nft rule candidates = .ok (candidates.find? fun candidate => candidate.Same rule) := by
  obtain ⟨data, marshalled⟩ := marshal_all nft rule.table rule.exprs
  have each := fun candidate member =>
    (checkRuleMatch_iff marshalled (checked candidate member).2).mpr (checked candidate member).1
  unfold findRuleInList
  rw [marshalled]
  simp only [filterM_ok each, bind, Except.bind, pure, Except.pure]
  rw [List.head?_filter]

theorem findRuleInList_eq {rule candidates} (standard : rule.Standard)
    (committed : ∀ candidate ∈ candidates, candidate.Standard ∧ candidate.table = rule.table) :
    findRuleInList nft rule candidates = .ok (candidates.find? fun candidate => candidate.exprs = rule.exprs) := by
  rw [findRuleInList_exact fun candidate member => ?_]
  · rw [← List.head?_filter, ← List.head?_filter, List.filter_congr fun candidate member => ?_]
    have found := (committed candidate member).1
    simp [Rule.Same, found.flags, standard.flags, found.userData, standard.userData]
  · obtain ⟨found, sameTable⟩ := committed candidate member
    exact ⟨found.distinct standard, fun expr => by rw [sameTable]⟩

end MycsCommon.Network
