import Mathlib.Init

/-! Pre- and postconditions for programs that keep their state on every exit.
An error leaves the state where the failing call left it, so the failing exit has
a postcondition of its own and an invariant has to survive both exits. -/

namespace Library.Program
open EStateM Program

variable {ε σ α β : Type}

/-- The state a program leaves behind, whether it returned or failed. -/
def final : Result ε σ α → σ
  | .ok _ state => state
  | .error _ state => state

@[simp] theorem final_ok (value : α) (state : σ) : final (.ok value state : Result ε σ α) = state := rfl

@[simp] theorem final_error (error : ε) (state : σ) : final (.error error state : Result ε σ α) = state := rfl

/-- The program came to its end. -/
def returned : Result ε σ α → Bool
  | .ok _ _ => true
  | .error _ _ => false

theorem eq_ok_of_returned {result : Result ε σ PUnit} (ended : returned result = true) :
    result = .ok ⟨⟩ (final result) := by
  cases result with
  | ok value state => rfl
  | error error state => cases ended

/-- From every state in `pre` the program ends in `post` or fails in `fail`. -/
def Triple (pre : σ → Prop) (program : EStateM ε σ α) (post : α → σ → Prop) (fail : ε → σ → Prop) : Prop :=
  ∀ state, pre state → match program.run state with
    | .ok value after => post value after
    | .error error after => fail error after

/-- The invariant survives the program, whichever way it ends. -/
abbrev Keeps (invariant : σ → Prop) (program : EStateM ε σ α) : Prop :=
  Triple invariant program (fun _ => invariant) (fun _ => invariant)

theorem Triple.final {pre post : σ → Prop} {program : EStateM ε σ α} (valid : Triple pre program (fun _ => post) (fun _ => post))
    {state : σ} (holds : pre state) : post (final (program.run state)) := by
  have after := valid state holds
  cases ran : program.run state <;> simpa only [ran, Program.final] using after

theorem Keeps.final {invariant : σ → Prop} {program : EStateM ε σ α} (kept : Keeps invariant program)
    {state : σ} (holds : invariant state) : invariant (final (program.run state)) :=
  Triple.final kept holds

theorem Triple.of_final {pre post : σ → Prop} {program : EStateM ε σ α}
    (reached : ∀ state, pre state → post (Program.final (program.run state))) :
    Triple pre program (fun _ => post) (fun _ => post) := by
  intro state holds
  have after := reached state holds
  cases ran : program.run state <;> simpa only [ran, Program.final] using after

theorem Keeps.of_final {invariant : σ → Prop} {program : EStateM ε σ α}
    (kept : ∀ state, invariant state → invariant (Program.final (program.run state))) : Keeps invariant program :=
  Triple.of_final kept

namespace Triple

variable {pre : σ → Prop} {post : α → σ → Prop} {fail : ε → σ → Prop}

theorem pure (value : α) (holds : ∀ state, pre state → post value state) :
    Triple pre (Pure.pure value : EStateM ε σ α) post fail :=
  fun state held => holds state held

theorem skip (value : α) : Triple pre (Pure.pure value : EStateM ε σ α) (fun _ => pre) fail := fun _ => id

theorem throw (error : ε) (holds : ∀ state, pre state → fail error state) :
    Triple pre (MonadExcept.throw error : EStateM ε σ α) post fail :=
  fun state held => holds state held

theorem modify (change : σ → σ) {post : PUnit → σ → Prop} (holds : ∀ state, pre state → post ⟨⟩ (change state)) :
    Triple pre (modify change : EStateM ε σ PUnit) post fail :=
  fun state held => holds state held

theorem bind (middle : α → σ → Prop) {post : β → σ → Prop} {program : EStateM ε σ α} {next : α → EStateM ε σ β}
    (first : Triple pre program middle fail) (rest : ∀ value, Triple (middle value) (next value) post fail) :
    Triple pre (program >>= next) post fail := by
  intro state held
  have reached := first state held
  rw [run_bind]
  cases ran : program.run state with
  | ok value after =>
    simp only [ran] at reached
    exact rest value after reached
  | error error after => simpa only [ran] using reached

theorem read {post : β → σ → Prop} {next : σ → EStateM ε σ β}
    (rest : ∀ state, pre state → Triple pre (next state) post fail) : Triple pre (MonadState.get >>= next) post fail :=
  fun state held => rest state held state held

theorem consequence {required : σ → Prop} {stronger : α → σ → Prop} {failing : ε → σ → Prop}
    {program : EStateM ε σ α} (valid : Triple required program stronger failing)
    (enter : ∀ state, pre state → required state)
    (leave : ∀ value state, stronger value state → post value state)
    (stop : ∀ error state, failing error state → fail error state) : Triple pre program post fail := by
  intro state held
  have reached := valid state (enter state held)
  cases ran : program.run state with
  | ok value after =>
    simp only [ran] at reached
    exact leave value after reached
  | error error after =>
    simp only [ran] at reached
    exact stop error after reached

theorem weaken {stronger : α → σ → Prop} {program : EStateM ε σ α} (valid : Triple pre program stronger fail)
    (leave : ∀ value state, stronger value state → post value state) : Triple pre program post fail :=
  valid.consequence (fun _ => id) leave fun _ _ => id

theorem fact {known : Prop} {program : EStateM ε σ α} (valid : known → Triple pre program post fail) :
    Triple (fun state => pre state ∧ known) program post fail :=
  fun state held => valid held.2 state held.1

theorem some {γ : Type} {pre : γ → σ → Prop} {program : EStateM ε σ α}
    (valid : ∀ choice, Triple (pre choice) program post fail) : Triple (fun state => ∃ choice, pre choice state) program post fail :=
  fun state ⟨choice, held⟩ => valid choice state held

end Triple

theorem Triple.forM {invariant : σ → Prop} {fail : ε → σ → Prop} {items : List β} {body : β → EStateM ε σ PUnit}
    (turn : ∀ item ∈ items, Triple invariant (body item) (fun _ => invariant) fail) :
    Triple invariant (forM items body) (fun _ => invariant) fail := by
  induction items with
  | nil => exact Triple.pure _ fun _ held => held
  | cons item items ih =>
    rw [List.forM_cons]
    exact Triple.bind _ (turn item (by simp)) fun _ => ih fun other member => turn other (by simp [member])

theorem Keeps.value {invariant : σ → Prop} {program : EStateM ε σ α} (kept : Keeps invariant program) (result : α → β) :
    Keeps invariant (program >>= fun found => Pure.pure (result found)) :=
  Triple.bind _ kept fun _ => Triple.skip _

theorem Keeps.forM {invariant : σ → Prop} {items : List β} {body : β → EStateM ε σ PUnit}
    (turn : ∀ item ∈ items, Keeps invariant (body item)) : Keeps invariant (forM items body) :=
  Triple.forM turn

theorem Keeps.foldlM {invariant : σ → Prop} {items : List β} {body : α → β → EStateM ε σ α}
    (turn : ∀ value, ∀ item ∈ items, Keeps invariant (body value item)) (start : α) :
    Keeps invariant (items.foldlM body start) := by
  induction items generalizing start with
  | nil => exact Triple.pure _ fun _ held => held
  | cons item items ih =>
    rw [List.foldlM_cons]
    exact Triple.bind _ (turn start item (by simp)) fun value =>
      ih (fun later other member => turn later other (by simp [member])) value

theorem Keeps.mapM {invariant : σ → Prop} {items : List β} {body : β → EStateM ε σ α}
    (turn : ∀ item ∈ items, Keeps invariant (body item)) : Keeps invariant (items.mapM body) := by
  induction items with
  | nil => exact Triple.pure _ fun _ held => held
  | cons item items ih =>
    rw [List.mapM_cons]
    exact Triple.bind _ (turn item (by simp)) fun _ =>
      Keeps.value (ih fun other member => turn other (by simp [member])) _

theorem map_run (change : α → β) (program : EStateM ε σ α) (state : σ) : (change <$> program).run state =
    match program.run state with
    | .ok value after => .ok (change value) after
    | .error error after => .error error after := rfl

theorem discard_run (program : EStateM ε σ α) (state : σ) : (discard program).run state =
    match program.run state with
    | .ok _ after => .ok PUnit.unit after
    | .error error after => .error error after := rfl

theorem Keeps.discard {invariant : σ → Prop} {program : EStateM ε σ α} (kept : Keeps invariant program) :
    Keeps invariant (discard program) := by
  intro state held
  have reached := kept state held
  rw [discard_run]
  cases ran : program.run state with
  | ok | error => simpa only [ran] using reached

end Library.Program
