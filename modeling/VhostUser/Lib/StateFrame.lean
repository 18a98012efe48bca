import Mathlib.Logic.Basic

/-!
Contract: what a stateful program leaves alone.

`Keeps view program` says that `program` does not change the part `view` of the
state, neither when it returns nor when it fails. `Preserves inv program` says
the same of a property of the state, and `Avoids error program` that `program`
does not fail with `error`. The lemmas follow the structure of a program.
-/

namespace VhostUser.Lib

variable {ε σ α β γ : Type} {program : EStateM ε σ α} {rest : α → EStateM ε σ β} {condition : Prop}

def finalState : EStateM.Result ε σ α → σ
  | .ok _ state => state
  | .error _ state => state

def Keeps (view : σ → γ) (program : EStateM ε σ α) : Prop :=
  ∀ state, view (finalState (program.run state)) = view state

namespace Keeps

variable {view : σ → γ}

theorem pure (value : α) : Keeps view (Pure.pure value : EStateM ε σ α) := fun _ => rfl

theorem throw (error : ε) : Keeps view (MonadExcept.throw error : EStateM ε σ α) := fun _ => rfl

theorem get : Keeps view (MonadState.get : EStateM ε σ σ) := fun _ => rfl

theorem modify {update : σ → σ} (same : ∀ state, view (update state) = view state) :
    Keeps view (modify update : EStateM ε σ PUnit) := same

theorem bind (first : Keeps view program) (later : ∀ value, Keeps view (rest value)) :
    Keeps view (program >>= rest) := by
  intro state
  have start := first state
  rw [EStateM.run_bind]
  cases result : program.run state with
  | ok value middle =>
    rw [result] at start
    exact (later value middle).trans start
  | error error middle =>
    rw [result] at start
    exact start

theorem ite [Decidable condition] {yes no : EStateM ε σ α} (whenTrue : Keeps view yes)
    (whenFalse : Keeps view no) : Keeps view (if condition then yes else no) := by
  by_cases holds : condition
  · rwa [if_pos holds]
  · rwa [if_neg holds]

theorem dite [Decidable condition] {yes : condition → EStateM ε σ α}
    {no : ¬ condition → EStateM ε σ α} (whenTrue : ∀ holds, Keeps view (yes holds))
    (whenFalse : ∀ fails, Keeps view (no fails)) :
    Keeps view (if holds : condition then yes holds else no holds) := by
  by_cases holds : condition
  · rw [dif_pos holds]
    exact whenTrue holds
  · rw [dif_neg holds]
    exact whenFalse holds

theorem ok {state after : σ} {value : α} (kept : Keeps view program)
    (returned : program.run state = .ok value after) : view after = view state := by
  have same := kept state
  rwa [returned] at same

end Keeps

def Preserves (inv : σ → Prop) (program : EStateM ε σ α) : Prop :=
  ∀ state, inv state → inv (finalState (program.run state))

namespace Preserves

variable {inv : σ → Prop}

theorem pure (value : α) : Preserves inv (Pure.pure value : EStateM ε σ α) := fun _ holds => holds

theorem modify {update : σ → σ} (kept : ∀ state, inv state → inv (update state)) :
    Preserves inv (modify update : EStateM ε σ PUnit) := kept

theorem getBind {rest : σ → EStateM ε σ α}
    (later : ∀ state, inv state → inv (finalState ((rest state).run state))) :
    Preserves inv (get >>= rest) := later

theorem bind (first : Preserves inv program) (later : ∀ value, Preserves inv (rest value)) :
    Preserves inv (program >>= rest) := by
  intro state holds
  have start := first state holds
  rw [EStateM.run_bind]
  cases result : program.run state with
  | ok value middle =>
    rw [result] at start
    exact later value middle start
  | error error middle =>
    rw [result] at start
    exact start

end Preserves

def Avoids (error : ε) (program : EStateM ε σ α) : Prop :=
  ∀ state after, program.run state ≠ .error error after

namespace Avoids

variable {error : ε}

theorem pure (value : α) : Avoids error (Pure.pure value : EStateM ε σ α) := by
  intro state after failed
  cases failed

theorem get : Avoids error (MonadState.get : EStateM ε σ σ) := by
  intro state after failed
  cases failed

theorem modify (update : σ → σ) : Avoids error (modify update : EStateM ε σ PUnit) := by
  intro state after failed
  cases failed

theorem throw {other : ε} (different : other ≠ error) :
    Avoids error (MonadExcept.throw other : EStateM ε σ α) := by
  intro state after failed
  cases failed
  exact different rfl

theorem bind (first : Avoids error program) (later : ∀ value, Avoids error (rest value)) :
    Avoids error (program >>= rest) := by
  intro state after failed
  rw [EStateM.run_bind] at failed
  cases result : program.run state with
  | ok value middle =>
    rw [result] at failed
    exact later value middle after failed
  | error other middle =>
    rw [result] at failed
    cases failed
    exact first state after result

theorem ite [Decidable condition] {yes no : EStateM ε σ α} (whenTrue : Avoids error yes)
    (whenFalse : Avoids error no) : Avoids error (if condition then yes else no) := by
  by_cases holds : condition
  · rwa [if_pos holds]
  · rwa [if_neg holds]

end Avoids

end VhostUser.Lib
