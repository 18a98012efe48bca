import Mathlib.Data.List.Basic
import Mathlib.Data.List.Range
import Mathlib.Order.Basic

/-!
Contract: routines that take their steps one after the other and, when one of them fails, jump to a
clean-up that undoes the steps before it, the latest first.

A stage emits events and changes a state, also when it fails. The result of the routine is that of
the failed stage, or zero.

Owns:
- the trace and the final state of such a routine, by its first failed stage;
- loops over numbered stages, and how often such a loop emits the event of one of them.
-/

namespace VhostUser.Lib.Staged

universe u v w

structure Stage (σ : Type u) (ε : Type v) where
  does : List ε
  sets : σ → σ
  /-- The result with which the routine goes to its clean-up. -/
  fails : Option Int
  undoes : List ε

variable {σ : Type u} {ε : Type v} {τ : Type w}

/-- The clean-up, for the stages that were passed, the latest first. -/
def unwind (running : List (Stage σ ε)) : List ε := running.flatMap Stage.undoes

@[simp] theorem unwind_nil : unwind ([] : List (Stage σ ε)) = [] := rfl

@[simp] theorem unwind_cons (stage : Stage σ ε) (running : List (Stage σ ε)) :
    unwind (stage :: running) = stage.undoes ++ unwind running := List.flatMap_cons

def traceFrom : List (Stage σ ε) → List (Stage σ ε) → List ε × Option Int
  | _, [] => ([], none)
  | running, stage :: rest =>
    match stage.fails with
    | some code => (stage.does ++ unwind running, some code)
    | none =>
      let later := traceFrom (stage :: running) rest
      (stage.does ++ later.1, later.2)

/-- The events of a routine, and the result of its clean-up if it came to that. -/
def trace (stages : List (Stage σ ε)) : List ε × Option Int := traceFrom [] stages

def settle : List (Stage σ ε) → σ → σ
  | [], state => state
  | stage :: rest, state =>
    if stage.fails.isSome then stage.sets state else settle rest (stage.sets state)

def Passes (stages : List (Stage σ ε)) : Prop := ∀ stage ∈ stages, stage.fails = none

def emitted (stages : List (Stage σ ε)) : List ε := stages.flatMap Stage.does

def applied (stages : List (Stage σ ε)) (state : σ) : σ :=
  stages.foldl (fun state stage => stage.sets state) state

section Trace

variable {stages first rest running : List (Stage σ ε)} {stage : Stage σ ε} {code : Int}

theorem Passes.tail (passes : Passes (stage :: rest)) : Passes rest :=
  fun other member => passes other (List.mem_cons_of_mem _ member)

theorem passes_append : Passes (first ++ rest) ↔ Passes first ∧ Passes rest :=
  List.forall_mem_append

theorem emitted_append : emitted (first ++ rest) = emitted first ++ emitted rest :=
  List.flatMap_append

theorem unwind_append : unwind (first ++ rest) = unwind first ++ unwind rest :=
  List.flatMap_append

theorem traceFrom_passed (passed : stage.fails = none) :
    traceFrom running (stage :: rest) = (stage.does ++ (traceFrom (stage :: running) rest).1,
      (traceFrom (stage :: running) rest).2) := by
  rw [traceFrom, passed]

theorem traceFrom_failed (failed : stage.fails = some code) :
    traceFrom running (stage :: rest) = (stage.does ++ unwind running, some code) := by
  rw [traceFrom, failed]

theorem traceFrom_append (passes : Passes first) :
    traceFrom running (first ++ rest) =
      (emitted first ++ (traceFrom (first.reverse ++ running) rest).1,
        (traceFrom (first.reverse ++ running) rest).2) := by
  induction first generalizing running with
  | nil => rfl
  | cons stage more ih =>
    rw [List.cons_append, traceFrom_passed (passes stage List.mem_cons_self),
      ih passes.tail, List.reverse_cons, List.append_assoc,
      List.singleton_append, emitted, emitted, List.flatMap_cons, List.append_assoc]

theorem trace_passed (passes : Passes stages) : trace stages = (emitted stages, none) := by
  have whole := @traceFrom_append σ ε stages [] [] passes
  rw [List.append_nil, traceFrom, List.append_nil] at whole
  exact whole

/-- A routine that fails has run the stages before, and undoes them. -/
theorem trace_failed (passes : Passes first) (failed : stage.fails = some code) :
    trace (first ++ stage :: rest) =
      (emitted first ++ (stage.does ++ unwind first.reverse), some code) := by
  rw [trace, traceFrom_append passes, traceFrom_failed failed, List.append_nil]

theorem settle_passed (passed : stage.fails = none) (state : σ) :
    settle (stage :: rest) state = settle rest (stage.sets state) := by
  rw [settle, passed]
  rfl

theorem settle_failed (failed : stage.fails = some code) (state : σ) :
    settle (stage :: rest) state = stage.sets state := by
  rw [settle, failed]
  rfl

theorem settle_append (passes : Passes first) (state : σ) :
    settle (first ++ rest) state = settle rest (applied first state) := by
  induction first generalizing state with
  | nil => rfl
  | cons stage more ih =>
    rw [List.cons_append, settle_passed (passes stage List.mem_cons_self), ih passes.tail]
    rfl

theorem applied_keeps {view : σ → τ}
    (keeps : ∀ stage ∈ stages, ∀ state, view (stage.sets state) = view state) (state : σ) :
    view (applied stages state) = view state := by
  unfold applied
  induction stages generalizing state with
  | nil => rfl
  | cons stage rest ih =>
    have later := ih fun other member =>
      keeps other (List.mem_cons_of_mem _ member)
    rw [List.foldl_cons, later, keeps stage List.mem_cons_self]

theorem passes_or_failed (stages : List (Stage σ ε)) :
    Passes stages ∨ ∃ first stage rest code,
      stages = first ++ stage :: rest ∧ Passes first ∧ stage.fails = some code := by
  induction stages with
  | nil => exact .inl (List.forall_mem_nil _)
  | cons stage rest ih =>
    rcases here : stage.fails with _ | code
    · rcases ih with passes | ⟨first, other, more, code, split, passes, failed⟩
      · exact .inl (List.forall_mem_cons.mpr ⟨here, passes⟩)
      · refine .inr ⟨stage :: first, other, more, code, ?_, ?_, failed⟩
        · rw [split, List.cons_append]
        · exact List.forall_mem_cons.mpr ⟨here, passes⟩
    · exact .inr ⟨[], stage, rest, code, rfl, List.forall_mem_nil _, here⟩

end Trace

section Loop

variable {stage : Nat → Stage σ ε} {count index : Nat}

def loop (stage : Nat → Stage σ ε) (count : Nat) : List (Stage σ ε) :=
  (List.range count).map stage

theorem passes_loop_iff :
    Passes (loop stage count) ↔ ∀ index < count, (stage index).fails = none := by
  simp [Passes, loop]

theorem emitted_loop :
    emitted (loop stage count) = (List.range count).flatMap fun index => (stage index).does := by
  rw [emitted, loop, List.flatMap_map]

theorem loop_split (inside : index < count) :
    ∃ rest, loop stage count = loop stage index ++ stage index :: rest := by
  obtain ⟨more, rfl⟩ : ∃ more, count = index + (more + 1) := ⟨count - index - 1, by omega⟩
  refine ⟨((List.range more).map (index + 1 + ·)).map stage, ?_⟩
  rw [loop, loop, List.range_add, List.range_succ_eq_map, List.map_append]
  simp only [List.map_cons, List.map_map, Nat.add_zero]
  congr 3
  funext offset
  simp only [Function.comp_apply]
  congr 1
  omega

theorem loop_cases (stage : Nat → Stage σ ε) (count : Nat) :
    Passes (loop stage count) ∨ ∃ index < count, ∃ code,
      Passes (loop stage index) ∧ (stage index).fails = some code := by
  induction count with
  | zero => exact .inl (List.forall_mem_nil _)
  | succ count ih =>
    rcases ih with passes | ⟨index, inside, failed⟩
    · rcases last : (stage count).fails with _ | code
      · left
        rw [passes_loop_iff] at passes ⊢
        intro index inside
        rcases Nat.lt_succ_iff_lt_or_eq.mp inside with before | rfl
        · exact passes index before
        · exact last
      · exact .inr ⟨count, Nat.lt_succ_self count, code, passes, last⟩
    · exact .inr ⟨index, Nat.lt_succ_of_lt inside, failed⟩

variable [DecidableEq ε] {event : ε} {emits : Nat → List ε} {owner : Nat}

theorem count_flatMap_range (others : ∀ index, index ≠ owner → event ∉ emits index)
    (count : Nat) : ((List.range count).flatMap emits).count event =
      if owner < count then (emits owner).count event else 0 := by
  induction count with
  | zero => rfl
  | succ count ih =>
    rw [List.range_succ, List.flatMap_append, List.count_append, ih, List.flatMap_singleton]
    by_cases here : count = owner
    · subst here
      rw [if_neg (Nat.lt_irrefl _), if_pos (Nat.lt_succ_self _), Nat.zero_add]
    rw [List.count_eq_zero_of_not_mem (others count here), Nat.add_zero]
    by_cases before : owner < count
    · rw [if_pos before, if_pos (Nat.lt_succ_of_lt before)]
    · rw [if_neg before, if_neg (by omega)]

/-- The clean-up of a loop emits what its turns undo, in another order. -/
theorem count_unwind_loop (event : ε) (count : Nat) :
    (unwind (loop stage count).reverse).count event =
      ((List.range count).flatMap fun index => (stage index).undoes).count event := by
  have permuted := (List.reverse_perm (loop stage count)).flatMap_right Stage.undoes
  rw [unwind, permuted.count_eq, loop, List.flatMap_map]

end Loop

end VhostUser.Lib.Staged
