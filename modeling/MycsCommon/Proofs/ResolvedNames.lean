import MycsCommon.Network.NetworkUtils

/-! The addresses of names. The slice that is recorded for a name stays empty, since it is recorded before
it grows. -/

namespace MycsCommon.Network
open List Library Prod Slices

variable {Fault : Type}

/-- What `ResolveNames` is to return: an error if a name fails, and otherwise the addresses of each name, flat or the first of each. -/
def Resolves (dnsNames : List (String × Except Fault (List String))) (flatten : Bool)
    (result : Except Fault (List String × List (List String))) : Prop :=
  match dnsNames.mapM snd with
  | .error err => result = .error err
  | .ok lists => result = .ok (if flatten then lists.flatten else lists.filterMap head?, lists)

theorem appendIPs_flat (flatten : Bool) (resolvedIPs : List String) (i : Nat) (heap : Heap String) (ips : Slice)
    (ipsFlat : List String) : (appendIPs flatten resolvedIPs i heap ips ipsFlat).2 =
      ipsFlat ++ (if flatten then resolvedIPs else if i = 0 then resolvedIPs.head?.toList else []) := by
  induction resolvedIPs generalizing i heap ips ipsFlat with
  | nil => cases flatten <;> simp [appendIPs]
  | cons ipAddr resolvedIPs ih =>
    rw [appendIPs, ih]
    cases flatten with
    | true => simp
    | false => by_cases first : i = 0 <;> simp [first]

theorem resolveEach_eq (flatten : Bool) (dnsNames : List (String × Except Fault (List String))) (heap : Heap String)
    (ipsFlat : List String) (namedIPs : List Slice) :
    match dnsNames.mapM snd with
    | .error err => resolveEach flatten dnsNames heap ipsFlat namedIPs = .error err
    | .ok lists => ∃ after, resolveEach flatten dnsNames heap ipsFlat namedIPs =
        .ok (after, ipsFlat ++ (if flatten then lists.flatten else lists.filterMap head?), namedIPs ++ lists.map fun _ => empty) := by
  induction dnsNames generalizing heap ipsFlat namedIPs with
  | nil => exact ⟨heap, by cases flatten <;> simp [resolveEach]⟩
  | cons head dnsNames ih =>
    obtain ⟨name, answer⟩ := head
    cases answer with
    | error err => rfl
    | ok resolvedIPs =>
      have rest := ih (appendIPs flatten resolvedIPs 0 heap empty ipsFlat).1
        (appendIPs flatten resolvedIPs 0 heap empty ipsFlat).2 (namedIPs ++ [empty])
      rw [mapM_cons]
      cases all : dnsNames.mapM snd with
      | error err =>
        rw [all] at rest
        exact rest
      | ok lists =>
        rw [all] at rest
        obtain ⟨after, ran⟩ := rest
        refine ⟨after, ran.trans ?_⟩
        rw [appendIPs_flat]
        cases flatten with
        | true => simp
        | false => cases resolvedIPs <;> simp [filterMap_cons]

theorem mapM_snd (dnsNames : List (String × Except Fault (List String))) :
    match dnsNames.mapM snd with
    | .error _ => ∃ name err, (name, .error err) ∈ dnsNames
    | .ok lists => dnsNames.map snd = lists.map .ok := by
  induction dnsNames with
  | nil => rfl
  | cons head dnsNames ih =>
    obtain ⟨name, answer⟩ := head
    cases answer with
    | error err => exact ⟨name, err, mem_cons_self⟩
    | ok resolvedIPs =>
      rw [mapM_cons]
      cases all : dnsNames.mapM snd with
      | error err =>
        rw [all] at ih
        obtain ⟨name, err, member⟩ := ih
        exact ⟨name, err, mem_cons_of_mem _ member⟩
      | ok lists =>
        rw [all] at ih
        exact congrArg (cons _) ih

/-- The lists are right exactly if a name fails or there is no address at all. -/
theorem resolveNames_shape_iff (dnsNames : List (String × Except Fault (List String))) (flatten : Bool) :
    Resolves dnsNames flatten (resolveNames dnsNames flatten) ↔
      (∃ name err, (name, .error err) ∈ dnsNames) ∨ ∀ name lookup, (name, lookup) ∈ dnsNames → lookup = .ok [] := by
  have ran := resolveEach_eq flatten dnsNames [] [] []
  have found := mapM_snd dnsNames
  rw [Resolves, resolveNames]
  cases all : dnsNames.mapM snd with
  | error err =>
    rw [all] at ran found
    exact iff_of_true (by rw [ran]; rfl) (.inl found)
  | ok lists =>
    rw [all] at ran found
    obtain ⟨after, ran⟩ := ran
    have read : resolveEach flatten dnsNames [] [] [] >>= (fun answer : _ × _ × _ => pure (answer.2.1, answer.2.2.map (read answer.1))) =
        (.ok (if flatten then lists.flatten else lists.filterMap head?, lists.map fun _ => []) : Except Fault _) := by
      rw [ran]
      simp [bind, Except.bind, pure, Except.pure, Slices.read, Slices.empty]
    simp only [bind, pure] at read ⊢
    rw [read]
    simp only [Except.ok.injEq, mk.injEq, true_and]
    have answers (lookup) : (∃ name, (name, lookup) ∈ dnsNames) ↔ ∃ ips ∈ lists, .ok ips = lookup := by
      rw [← mem_map, ← found]
      simp
    constructor
    · intro same
      refine .inr fun name lookup member => ?_
      obtain ⟨ips, held, rfl⟩ := (answers lookup).mp ⟨name, member⟩
      rw [← same] at held
      obtain ⟨_, _, rfl⟩ := mem_map.mp held
      rfl
    · rintro (⟨name, err, member⟩ | empty)
      · obtain ⟨_, _, other⟩ := (answers (.error err)).mp ⟨name, member⟩
        cases other
      · refine (map_congr_left fun ips held => ?_).trans lists.map_id
        obtain ⟨name, member⟩ := (answers (.ok ips)).mpr ⟨ips, held, rfl⟩
        exact (Except.ok.inj (empty name _ member)).symm

/-- The address of a name is not in the list of that name. -/
theorem resolveNames_lost :
    @resolveNames Unit [("host", .ok ["10.0.0.1"])] true = .ok (["10.0.0.1"], [[]]) ∧
      ¬ @Resolves Unit [("host", .ok ["10.0.0.1"])] true (resolveNames [("host", .ok ["10.0.0.1"])] true) := by
  refine ⟨rfl, fun resolves => ?_⟩
  have lists : (["10.0.0.1"], [[]]) = (["10.0.0.1"], [["10.0.0.1"]]) := Except.ok.inj resolves
  simp at lists

end MycsCommon.Network
