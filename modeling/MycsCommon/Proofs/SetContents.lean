import MycsCommon.Proofs.KernelCommit

/-! What a committed batch does to the elements of the sets. -/

namespace MycsCommon.Network
open List

variable {nft : Nft} {kernel after : Kernel} {table : Family} {name : String} {elements : List SetElement}
  {present changed : Elements}

private theorem addElement_lookup {element} (added : addElement present element = .ok changed) (key : Bytes)
    (data : Option Verdict) :
    changed.lookup key = some data ↔ present.lookup key = some data ∨ ⟨key, data⟩ = element := by
  obtain ⟨name, verdict⟩ := element
  unfold addElement at added
  cases known : present.lookup name with
  | none =>
    simp only [known] at added
    cases added
    by_cases same : key = name
    · subst same
      simp [known, eq_comm]
    · simp [AList.lookup_insert_ne same, same]
  | some old =>
    simp only [known] at added
    split at added
    next equal =>
      cases added
      constructor
      · exact .inl
      · rintro (found | same)
        · exact found
        · cases same
          rw [known, equal]
    next => cases added

private theorem deleteElement_lookup {element} (deleted : deleteElement present element = .ok changed) (key : Bytes)
    (data : Option Verdict) : changed.lookup key = some data ↔ present.lookup key = some data ∧ key ≠ element.key := by
  unfold deleteElement at deleted
  split at deleted
  · cases deleted
  · cases deleted
    by_cases same : key = element.key
    · subst same
      simp
    · simp [AList.lookup_erase_ne same, same]

theorem addElements_lookup (added : elements.foldlM addElement present = .ok changed) (key : Bytes)
    (data : Option Verdict) :
    changed.lookup key = some data ↔ present.lookup key = some data ∨ ⟨key, data⟩ ∈ elements := by
  induction elements generalizing present with
  | nil =>
    cases added
    simp
  | cons element elements ih =>
    obtain ⟨middle, first, rest⟩ := foldlM_cons_ok added
    rw [ih rest, addElement_lookup first, mem_cons, or_assoc]

theorem deleteElements_lookup (deleted : elements.foldlM deleteElement present = .ok changed) (key : Bytes)
    (data : Option Verdict) :
    changed.lookup key = some data ↔ present.lookup key = some data ∧ ∀ element ∈ elements, key ≠ element.key := by
  induction elements generalizing present with
  | nil =>
    cases deleted
    simp
  | cons element elements ih =>
    obtain ⟨middle, first, rest⟩ := foldlM_cons_ok deleted
    rw [ih rest, deleteElement_lookup first, forall_mem_cons, and_assoc]

theorem addElements_ok {verdict : Bytes → Option Verdict} (agree : ∀ element ∈ elements, element.verdictData = verdict element.key)
    (known : ∀ key data, present.lookup key = some data → data = verdict key) :
    ∃ added, elements.foldlM addElement present = .ok added := by
  induction elements generalizing present with
  | nil => exact ⟨present, rfl⟩
  | cons element elements ih =>
    have first : ∃ middle, addElement present element = .ok middle := by
      unfold addElement
      cases found : present.lookup element.key with
      | none => exact ⟨_, rfl⟩
      | some data =>
        have equal := (known _ _ found).trans (agree element (by simp)).symm
        exact ⟨present, if_pos equal⟩
    obtain ⟨middle, first⟩ := first
    have later : ∀ key data, middle.lookup key = some data → data = verdict key := by
      intro key data found
      rcases (addElement_lookup first key data).mp found with old | rfl
      · exact known key data old
      · exact agree ⟨key, data⟩ (by simp)
    obtain ⟨added, rest⟩ := ih (fun other member => agree other (by simp [member])) later
    exact ⟨added, by simp [first, bind, Except.bind, rest]⟩

namespace Kernel

theorem setSet_same (kernel : Kernel) (table : Family) (name : String) (elements : Option Elements) :
    (kernel.setSet table name elements).sets table name = elements := by simp [setSet]

theorem setSet_other (kernel : Kernel) {table other name set} (elements : Option Elements)
    (apart : ¬ (other = table ∧ set = name)) :
    (kernel.setSet table name elements).sets other set = kernel.sets other set := by simp [setSet, if_neg apart]

theorem apply_setAddElements (known : kernel.sets table name = some present)
    (added : elements.foldlM addElement present = .ok changed) :
    kernel.apply nft (.setAddElements table name elements) = .ok (kernel.setSet table name (some changed)) := by
  simp [apply, known, added, bind, Except.bind]

theorem apply_setDeleteElements (applied : kernel.apply nft (.setDeleteElements table name elements) = .ok after) :
    ∃ present left, kernel.sets table name = some present ∧ elements.foldlM deleteElement present = .ok left ∧
      after = kernel.setSet table name (some left) := by
  simp only [apply] at applied
  split at applied
  · cases applied
  next present known =>
    cases deleted : elements.foldlM deleteElement present with
    | error errno => simp [deleted, bind, Except.bind] at applied
    | ok left =>
      simp only [deleted, bind, Except.bind] at applied
      cases applied
      exact ⟨present, left, known, deleted, rfl⟩

theorem commit_cons_ok {msg queue middle} (applied : kernel.apply nft msg = .ok middle)
    (rest : middle.commit nft queue = .ok after) : kernel.commit nft (msg :: queue) = .ok after := by
  rwa [commit, foldlM_cons, applied]

theorem commit_append_ok {first rest middle} (setup : kernel.commit nft first = .ok middle)
    (later : middle.commit nft rest = .ok after) : kernel.commit nft (first ++ rest) = .ok after := by
  rwa [commit, foldlM_append, show first.foldlM (apply nft) kernel = .ok middle from setup]

theorem commit_setsOnly {queue} (only : ∀ msg ∈ queue, msg.setsOnly = true)
    (committed : kernel.commit nft queue = .ok after) : after = { kernel with sets := after.sets } := by
  apply commit_keeps (fun current => current = { kernel with sets := current.sets }) _ rfl committed
  intro msg member before next same applied
  rw [apply_setsOnly (only msg member) applied, same]

theorem commit_places {rules : List Rule} {insert}
    (committed : kernel.commit nft (rules.map (Msg.place insert)) = .ok after) :
    after.chains = kernel.chains ∧ after.sets = kernel.sets := by
  apply commit_keeps (fun current => current.chains = kernel.chains ∧ current.sets = kernel.sets) _ ⟨rfl, rfl⟩ committed
  intro msg member before next same applied
  obtain ⟨rule, -, rfl⟩ := mem_map.mp member
  obtain ⟨-, -, -, -, chains, sets, -⟩ := apply_place applied
  exact ⟨chains.trans same.1, sets.trans same.2⟩

theorem commit_appends {rules : List Rule} (committed : kernel.commit nft (rules.map (Msg.place false)) = .ok after) :
    ∃ placed, after.rules = kernel.rules ++ placed ∧ placed.map Rule.content = rules.map Rule.content := by
  induction rules generalizing kernel with
  | nil =>
    cases committed
    exact ⟨[], by simp, rfl⟩
  | cons rule rules ih =>
    obtain ⟨middle, applied, rest⟩ := commit_cons committed
    obtain ⟨placed, stands, contents⟩ := ih rest
    simp only [Msg.place, Bool.false_eq_true, if_false, apply] at applied
    split at applied
    · cases applied
      exact ⟨kernel.enter nft rule :: placed, by simp [stands], by simp [contents, enter, Rule.content]⟩
    · cases applied

/-- Rules whose chains and sets exist are taken one after another, inserted ones next to a rule that stands. -/
theorem commit_placing {rules : List Rule} {insert} (accepted : ∀ rule ∈ rules, kernel.accepts rule = true)
    (stands : insert = true → ∀ rule ∈ rules, ∃ present ∈ kernel.rules, present.inChain rule.table rule.chain = true ∧ present.handle = rule.position) :
    ∃ after, kernel.commit nft (rules.map (Msg.place insert)) = .ok after := by
  induction rules generalizing kernel with
  | nil => exact ⟨kernel, rfl⟩
  | cons rule rules ih =>
    have takes := accepted rule (by simp)
    have first : ∃ middle, kernel.apply nft (Msg.place insert rule) = .ok middle := by
      cases insert with
      | false => exact ⟨_, if_pos takes⟩
      | true =>
        have beside : kernel.rules.any (fun present =>
            present.inChain rule.table rule.chain && present.handle == rule.position) = true := by
          simpa [any_eq_true] using stands rfl rule (by simp)
        simp only [Msg.place, if_true, apply, takes, Bool.not_true, Bool.false_eq_true, if_false, beside]
        split
        · exact ⟨_, rfl⟩
        · exact ⟨_, rfl⟩
    obtain ⟨middle, first⟩ := first
    obtain ⟨front, back, before, placed, chains, sets, -⟩ := apply_place first
    have kept : ∀ present ∈ kernel.rules, present ∈ middle.rules := by
      intro present member
      rw [before] at member
      rw [placed]
      rcases mem_append.mp member with early | late
      · exact mem_append_left _ early
      · exact mem_append_right _ (mem_cons_of_mem _ late)
    obtain ⟨after, rest⟩ := @ih middle
      (by
        intro other member
        have takes := accepted other (by simp [member])
        simpa only [accepts, chains, sets] using takes)
      (by
        intro inserts other member
        obtain ⟨present, stands, place⟩ := stands inserts other (by simp [member])
        exact ⟨present, kept present stands, place⟩)
    exact ⟨after, commit_cons_ok first rest⟩

end Kernel

/-! Sets of plain keys, one of the same name in each table. -/

/-- The sets of the name hold exactly these keys, without data. -/
def Kernel.Plain (kernel : Kernel) (name : String) (keys : Family → Bytes → Prop) : Prop :=
  ∀ table, ∃ elements, kernel.sets table name = some elements ∧
    ∀ key data, elements.lookup key = some data ↔ data = none ∧ keys table key

variable {keys others : Family → Bytes → Prop}

namespace Kernel.Plain

theorem congr (plain : kernel.Plain name keys) (sets : after.sets = kernel.sets)
    (same : ∀ table key, keys table key ↔ others table key) : after.Plain name others := by
  intro table
  obtain ⟨elements, known, holds⟩ := plain table
  refine ⟨elements, by rw [sets, known], ?_⟩
  intro key data
  rw [holds, same]

theorem add (plain : kernel.Plain name keys) (bare : ∀ element ∈ elements, element.verdictData = none) :
    ∃ after, kernel.apply nft (.setAddElements table name elements) = .ok after ∧
      after.Plain name fun other key => keys other key ∨ other = table ∧ ⟨key, none⟩ ∈ elements := by
  obtain ⟨present, known, holds⟩ := plain table
  obtain ⟨added, ran⟩ := @addElements_ok elements present (fun _ => none) bare
    fun key data found => ((holds key data).mp found).1
  refine ⟨_, apply_setAddElements known ran, ?_⟩
  intro other
  by_cases same : other = table
  · subst same
    refine ⟨added, setSet_same .., ?_⟩
    intro key data
    rw [addElements_lookup ran, holds]
    constructor
    · rintro (⟨rfl, old⟩ | new)
      · exact ⟨rfl, .inl old⟩
      · have none := bare _ new
        exact ⟨none, .inr ⟨rfl, none ▸ new⟩⟩
    · rintro ⟨rfl, old | ⟨-, new⟩⟩
      · exact .inl ⟨rfl, old⟩
      · exact .inr new
  · obtain ⟨elements, kept, holds⟩ := plain other
    refine ⟨elements, (setSet_other _ _ fun both => same both.1).trans kept, ?_⟩
    simp [holds, same]

theorem delete (plain : kernel.Plain name keys)
    (applied : kernel.apply nft (.setDeleteElements table name elements) = .ok after) :
    after.Plain name fun other key => keys other key ∧ ¬ (other = table ∧ ∃ element ∈ elements, element.key = key) := by
  obtain ⟨present, left, known, ran, rfl⟩ := apply_setDeleteElements applied
  intro other
  by_cases same : other = table
  · subst same
    obtain ⟨elements', known', holds⟩ := plain other
    cases known.symm.trans known'
    refine ⟨left, setSet_same .., ?_⟩
    intro key data
    rw [deleteElements_lookup ran, holds, and_assoc]
    simp [eq_comm]
  · obtain ⟨elements, kept, holds⟩ := plain other
    refine ⟨elements, (setSet_other _ _ fun both => same both.1).trans kept, ?_⟩
    simp [holds, same]

end Kernel.Plain

end MycsCommon.Network
