import Mathlib.Data.List.Basic

/-!
Contract: programs that may fail (`Except`), taken apart at their binds, and the
loop that runs a fallible function on every item of a list and collects the lists
it returns.
-/

namespace VhostUser.Lib

variable {ε α β : Type} {program : Except ε α} {c : Prop}

theorem bind_ok_iff {rest : α → Except ε β} {output : β} :
    program >>= rest = .ok output ↔ ∃ value, program = .ok value ∧ rest value = .ok output := by
  cases program with
  | error failure =>
    constructor
    · intro result
      cases result
    · rintro ⟨value, result, -⟩
      cases result
  | ok value =>
    constructor
    · intro result
      exact ⟨value, rfl, result⟩
    · rintro ⟨other, same, result⟩
      cases same
      exact result

theorem bind_error_iff {rest : α → Except ε β} {failure : ε} :
    program >>= rest = .error failure ↔
      program = .error failure ∨ ∃ value, program = .ok value ∧ rest value = .error failure := by
  cases program with
  | error other =>
    constructor
    · intro result
      cases result
      exact .inl rfl
    · rintro (same | ⟨value, result, -⟩)
      · cases same
        rfl
      · cases result
  | ok value =>
    constructor
    · intro result
      exact .inr ⟨value, rfl, result⟩
    · rintro (result | ⟨other, same, result⟩)
      · cases result
      · cases same
        exact result

theorem map_eq_error_iff {run : α → β} {failure : ε} :
    program.map run = .error failure ↔ program = .error failure := by
  cases program with
  | error other => simp [Except.map]
  | ok result => simp [Except.map]

theorem toOption_eq_some {value : α} : program.toOption = some value ↔ program = .ok value := by
  cases program with
  | error failure => simp [Except.toOption]
  | ok result => simp [Except.toOption]

/-- A program that does not fail with `failure`. -/
def Never (failure : ε) (program : Except ε α) : Prop := program ≠ .error failure

namespace Never

variable {failure other : ε} {first last : Except ε α}

theorem ok (value : α) : Never failure (.ok value) := fun fails => by cases fails

theorem error (different : other ≠ failure) : Never failure (.error other : Except ε α) :=
  fun same => different (Except.error.inj same)

theorem bind {rest : α → Except ε β} (start : Never failure program)
    (later : ∀ value, Never failure (rest value)) : Never failure (program >>= rest) := by
  intro fails
  rcases bind_error_iff.mp fails with failed | ⟨value, -, failed⟩
  · exact start failed
  · exact later value failed

theorem ite [Decidable c] (holds : Never failure first) (fails : Never failure last) :
    Never failure (if c then first else last) := by
  split
  · exact holds
  · exact fails

theorem map {run : α → β} (never : Never failure program) : Never failure (program.map run) :=
  fun fails => never (map_eq_error_iff.mp fails)

end Never

theorem both_ite {r : α → β → Prop} [Decidable c] {first last : α} {other final : β}
    (holds : c → r first other) (fails : ¬ c → r last final) :
    r (if c then first else last) (if c then other else final) := by
  split
  next holding => exact holds holding
  next failing => exact fails failing

theorem bound_ite {m : Type → Type} [Bind m] {α γ : Type} {r : m γ → β → Prop} [Decidable c]
    {first last : m α} {after : α → m γ} {other final : β} (holds : c → r (first >>= after) other)
    (fails : ¬ c → r (last >>= after) final) :
    r ((if c then first else last) >>= after) (if c then other else final) := by
  split
  next holding => exact holds holding
  next failing => exact fails failing

def concatMap (run : α → Except ε (List β)) : List α → Except ε (List β)
  | [] => .ok []
  | item :: rest => do
      let first ← run item
      let later ← concatMap run rest
      return first ++ later

section ConcatMap

variable {run : α → Except ε (List β)} {items rest : List α} {item : α} {output : List β}

theorem concatMap_cons_ok (result : concatMap run (item :: rest) = .ok output) :
    ∃ first later, run item = .ok first ∧ concatMap run rest = .ok later ∧
      output = first ++ later := by
  obtain ⟨first, firstResult, result⟩ := bind_ok_iff.mp result
  obtain ⟨later, laterResult, result⟩ := bind_ok_iff.mp result
  cases result
  exact ⟨first, later, firstResult, laterResult, rfl⟩

theorem mem_concatMap (result : concatMap run items = .ok output) (value : β) :
    value ∈ output ↔ ∃ item ∈ items, ∃ part, run item = .ok part ∧ value ∈ part := by
  induction items generalizing output with
  | nil =>
    cases result
    simp
  | cons item rest ih =>
    obtain ⟨first, later, firstResult, laterResult, rfl⟩ := concatMap_cons_ok result
    simp [firstResult, ih laterResult]

theorem concatMap_ok (result : concatMap run items = .ok output) (member : item ∈ items) :
    ∃ part, run item = .ok part := by
  induction items generalizing output with
  | nil => cases member
  | cons head rest ih =>
    obtain ⟨first, later, firstResult, laterResult, -⟩ := concatMap_cons_ok result
    rcases List.mem_cons.mp member with rfl | inRest
    · exact ⟨first, firstResult⟩
    · exact ih laterResult inRest

theorem concatMap_error {failure : ε} (result : concatMap run items = .error failure) :
    ∃ item ∈ items, run item = .error failure := by
  induction items with
  | nil => cases result
  | cons item rest ih =>
    rcases bind_error_iff.mp result with here | ⟨first, -, result⟩
    · exact ⟨item, List.mem_cons_self, here⟩
    rcases bind_error_iff.mp result with there | ⟨later, -, result⟩
    · obtain ⟨culprit, member, fails⟩ := ih there
      exact ⟨culprit, List.mem_cons_of_mem _ member, fails⟩
    · cases result

theorem concatMap_ok_iff :
    (∃ output, concatMap run items = .ok output) ↔ ∀ item ∈ items, ∃ part, run item = .ok part := by
  constructor
  · rintro ⟨output, result⟩ item member
    exact concatMap_ok result member
  · intro parts
    cases result : concatMap run items with
    | ok output => exact ⟨output, rfl⟩
    | error failure =>
      obtain ⟨item, member, fails⟩ := concatMap_error result
      obtain ⟨part, success⟩ := parts item member
      rw [success] at fails
      cases fails

end ConcatMap

end VhostUser.Lib
