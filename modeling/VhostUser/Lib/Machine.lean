import Mathlib.Data.List.Basic

/-!
Contract: machines that take one action at a time, and invariants of their runs.

`Reached allowed` collects the states of the runs whose every action was
allowed in the state it was taken in. An action the machine cannot take (`step`
is `none`) ends no run: the machine simply does not take it.
-/

namespace VhostUser.Lib

structure Machine (σ α : Type*) where
  start : σ → Prop
  step : σ → α → Option σ

namespace Machine

variable {σ α : Type*} {machine : Machine σ α} {allowed : σ → α → Prop}

inductive Reached (machine : Machine σ α) (allowed : σ → α → Prop) : σ → Prop where
  | start {state : σ} (initial : machine.start state) : Reached machine allowed state
  | step {state next : σ} {action : α} (before : Reached machine allowed state)
      (permitted : allowed state action) (taken : machine.step state action = some next) :
      Reached machine allowed next

def anyAction : σ → α → Prop := fun _ _ => True

/-- What holds at the start and is kept by allowed actions holds throughout. -/
theorem Reached.invariant {property : σ → Prop}
    (initially : ∀ state, machine.start state → property state)
    (kept : ∀ state action next, property state → allowed state action →
      machine.step state action = some next → property next)
    {state : σ} (reached : Reached machine allowed state) : property state := by
  induction reached with
  | start initial => exact initially _ initial
  | step _ permitted taken ih =>
    exact kept _ _ _ ih permitted taken

def run (machine : Machine σ α) : List α → σ → Option σ
  | [], state => some state
  | action :: rest, state => (machine.step state action).bind (run machine rest)

def RunAllowed (machine : Machine σ α) (allowed : σ → α → Prop) : List α → σ → Prop
  | [], _ => True
  | action :: rest, state => allowed state action ∧
      match machine.step state action with
      | some next => RunAllowed machine allowed rest next
      | none => True

instance decidableRunAllowed [∀ state action, Decidable (allowed state action)] :
    (actions : List α) → (state : σ) → Decidable (RunAllowed machine allowed actions state)
  | [], _ => .isTrue trivial
  | action :: rest, state =>
    have : Decidable (match machine.step state action with
        | some next => RunAllowed machine allowed rest next
        | none => True) :=
      match machine.step state action with
      | some next => decidableRunAllowed rest next
      | none => .isTrue trivial
    inferInstanceAs (Decidable (allowed state action ∧ _))

theorem Reached.run {actions : List α} {state final : σ}
    (reached : Reached machine allowed state)
    (permitted : RunAllowed machine allowed actions state)
    (ran : machine.run actions state = some final) : Reached machine allowed final := by
  induction actions generalizing state with
  | nil =>
    cases ran
    exact reached
  | cons action rest ih =>
    obtain ⟨next, taken, later⟩ := Option.bind_eq_some_iff.mp ran
    simp only [RunAllowed, taken] at permitted
    exact ih (reached.step permitted.1 taken) permitted.2 later

theorem runAllowed_any (actions : List α) (state : σ) :
    RunAllowed machine anyAction actions state := by
  induction actions generalizing state with
  | nil => trivial
  | cons action rest ih =>
    refine ⟨trivial, ?_⟩
    split
    · exact ih _
    · trivial

section Evaluate

variable {β : Type*} {view : σ → β} {value : β} {actions : List α} {state : σ}

/-- What a run is evaluated to, a state that is reached has. -/
theorem Reached.evaluate (reached : Reached machine allowed state)
    (permitted : RunAllowed machine allowed actions state)
    (ends : (machine.run actions state).map view = some value) :
    ∃ final, Reached machine allowed final ∧ view final = value := by
  obtain ⟨final, ran, same⟩ := Option.map_eq_some_iff.mp ends
  exact ⟨final, reached.run permitted ran, same⟩

theorem evaluate_any (ends : (machine.run actions state).map view = some value)
    (initial : machine.start state) :
    ∃ final, Reached machine anyAction final ∧ view final = value :=
  (Reached.start initial).evaluate (runAllowed_any actions state) ends

end Evaluate

/-- A run whose every action lowers a rank is no longer than the rank it starts from. -/
theorem run_length_le {property : σ → Prop} {rank : σ → Nat}
    (lowers : ∀ state action next, property state → allowed state action →
      machine.step state action = some next → property next ∧ rank next < rank state)
    {actions : List α} {state final : σ} (holds : property state)
    (permitted : RunAllowed machine allowed actions state)
    (ran : machine.run actions state = some final) :
    property final ∧ actions.length + rank final ≤ rank state := by
  induction actions generalizing state with
  | nil =>
    cases ran
    exact ⟨holds, Nat.le_of_eq (Nat.zero_add _)⟩
  | cons action rest ih =>
    obtain ⟨next, taken, later⟩ := Option.bind_eq_some_iff.mp ran
    simp only [RunAllowed, taken] at permitted
    obtain ⟨kept, lower⟩ := lowers state action next holds permitted.1 taken
    obtain ⟨last, length⟩ := ih kept permitted.2 later
    refine ⟨last, ?_⟩
    rw [List.length_cons]
    omega

end Machine

/-- What every step of a fallible fold keeps, the fold keeps. -/
theorem foldlM_invariant {σ α : Type*} {step : σ → α → Option σ} (property : σ → Prop)
    {items : List α} (kept : ∀ state, ∀ item ∈ items, ∀ next, property state →
      step state item = some next → property next)
    {start last : σ} (initially : property start)
    (result : items.foldlM step start = some last) : property last := by
  induction items generalizing start with
  | nil =>
    cases result
    exact initially
  | cons item rest ih =>
    rw [List.foldlM_cons] at result
    obtain ⟨next, first, later⟩ := Option.bind_eq_some_iff.mp result
    have afterFirst : property next := kept start item List.mem_cons_self next initially first
    exact ih
      (fun state other member => kept state other (List.mem_cons_of_mem _ member))
      afterFirst later

/-- A fallible fold whose steps are folds themselves is one fold over all their
parts. -/
theorem foldlM_flatMap {σ ι α : Type*} {step : σ → ι → Option σ} {act : σ → α → Option σ}
    {parts : ι → List α} {items : List ι}
    (each : ∀ item ∈ items, ∀ state, step state item = (parts item).foldlM act state)
    (start : σ) : items.foldlM step start = (items.flatMap parts).foldlM act start := by
  induction items generalizing start with
  | nil => rfl
  | cons item rest ih =>
    rw [List.flatMap_cons, List.foldlM_append, List.foldlM_cons, each item List.mem_cons_self]
    congr 1
    funext next
    exact ih (fun other member => each other (List.mem_cons_of_mem _ member))
      next

section Fold

variable {σ α : Type*} {step other : σ → α → Option σ} {items : List α} {start last : σ}

/-- A fold goes as another one does whose steps it can follow. -/
theorem foldlM_follow (follows : ∀ item ∈ items, ∀ state next, step state item = some next →
      other state item = some next) :
    ∀ {start}, items.foldlM step start = some last → items.foldlM other start = some last := by
  induction items with
  | nil => exact id
  | cons item rest ih =>
    intro start result
    obtain ⟨here, later⟩ := List.forall_mem_cons.mp follows
    rw [List.foldlM_cons] at result ⊢
    obtain ⟨next, first, result⟩ := Option.bind_eq_some_iff.mp result
    rw [here _ _ first]
    exact ih later result

variable {keep : α → Bool}

theorem foldlM_filter (idle : ∀ item ∈ items, keep item = false → ∀ state next,
      step state item = some next → next = state) :
    ∀ {start}, items.foldlM step start = some last →
      (items.filter keep).foldlM step start = some last := by
  induction items with
  | nil => exact id
  | cons item rest ih =>
    intro start result
    obtain ⟨here, later⟩ := List.forall_mem_cons.mp idle
    rw [List.foldlM_cons] at result
    obtain ⟨next, first, tail⟩ := Option.bind_eq_some_iff.mp result
    rw [List.filter_cons]
    split
    · rw [List.foldlM_cons, first]
      exact ih later tail
    next dropped =>
      obtain rfl := here (by simpa using dropped) _ _ first
      exact ih later tail

theorem foldlM_of_filter (idle : ∀ item ∈ items, keep item = false → ∀ state,
      step state item = some state) :
    ∀ {start}, (items.filter keep).foldlM step start = some last →
      items.foldlM step start = some last := by
  induction items with
  | nil => exact id
  | cons item rest ih =>
    intro start result
    obtain ⟨here, later⟩ := List.forall_mem_cons.mp idle
    rw [List.filter_cons] at result
    rw [List.foldlM_cons]
    split at result
    · rw [List.foldlM_cons] at result
      obtain ⟨next, first, result⟩ := Option.bind_eq_some_iff.mp result
      rw [first]
      exact ih later result
    next dropped =>
      rw [here (by simpa using dropped)]
      exact ih later result

end Fold

end VhostUser.Lib
