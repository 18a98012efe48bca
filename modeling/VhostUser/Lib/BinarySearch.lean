import Mathlib.Data.List.Basic

/-!
Contract: searches in a list that is partitioned by a three-way comparison.

A comparison is positive before the key, zero at it and negative behind it, as the one
that C's `bsearch` takes with the key filled in. `Searches` is what the C standard
promises of a search.

Owns: a search by bisection that keeps the promise.
-/

namespace VhostUser.Lib

variable {α : Type}

/-- The elements before the key come first, then those at it, then those behind it. -/
def Partitioned (compare : α → Int) (list : List α) : Prop :=
  list.Pairwise fun left right =>
    (compare left < 0 → compare right < 0) ∧ (compare left ≤ 0 → compare right ≤ 0)

/-- In a partitioned list a search finds an element at the key if there is one. -/
structure Searches (search : (α → Int) → List α → Option α) : Prop where
  found : ∀ {compare list value}, Partitioned compare list → search compare list = some value →
    value ∈ list ∧ compare value = 0
  missing : ∀ {compare list}, Partitioned compare list → search compare list = none →
    ∀ value ∈ list, compare value ≠ 0

/-- The search between the positions `low` and `high`. -/
def bisectFrom (compare : α → Int) (list : List α) : Nat → Nat → Nat → Option α
  | 0, _, _ => none
  | turns + 1, low, high =>
    if low < high then
      let middle := (low + high) / 2
      match list[middle]? with
      | none => none
      | some value =>
        if compare value < 0 then bisectFrom compare list turns low middle
        else if 0 < compare value then bisectFrom compare list turns (middle + 1) high
        else some value
    else none

def bisect (compare : α → Int) (list : List α) : Option α :=
  bisectFrom compare list (list.length + 1) 0 list.length

variable {compare : α → Int} {list : List α}

theorem bisectFrom_found {value : α} : ∀ {turns low high : Nat},
    bisectFrom compare list turns low high = some value → value ∈ list ∧ compare value = 0
  | turns + 1, low, high, result => by
    rw [bisectFrom] at result
    split at result
    · dsimp only at result
      split at result
      · cases result
      next middle found =>
        split at result
        · exact bisectFrom_found result
        split at result
        · exact bisectFrom_found result
        next notBehind notBefore =>
          cases result
          exact ⟨List.mem_of_getElem? found, by omega⟩
    · cases result

theorem bisectFrom_missing (partitioned : Partitioned compare list) :
    ∀ {turns low high : Nat}, high - low < turns → high ≤ list.length →
      (∀ i value, list[i]? = some value → i < low ∨ high ≤ i → compare value ≠ 0) →
      bisectFrom compare list turns low high = none → ∀ value ∈ list, compare value ≠ 0
  | turns + 1, low, high, enough, inside, outside, result => by
    have ordered {i j : Nat} {left right : α} (before : i < j) (isLeft : list[i]? = some left)
        (isRight : list[j]? = some right) :
        (compare left < 0 → compare right < 0) ∧ (compare left ≤ 0 → compare right ≤ 0) := by
      obtain ⟨leftBound, rfl⟩ := List.getElem?_eq_some_iff.mp isLeft
      obtain ⟨rightBound, rfl⟩ := List.getElem?_eq_some_iff.mp isRight
      exact List.pairwise_iff_getElem.mp partitioned i j leftBound rightBound before
    rw [bisectFrom] at result
    split at result
    next more =>
      dsimp only at result
      split at result
      next none =>
        rw [List.getElem?_eq_none_iff] at none
        omega
      next middle found =>
        split at result
        next behind =>
          refine bisectFrom_missing partitioned (by omega) (by omega) ?_ result
          intro i value isValue out
          rcases Nat.lt_trichotomy i ((low + high) / 2) with before | rfl | after
          · exact outside i value isValue (by omega)
          · rw [found] at isValue
            cases isValue
            omega
          · have := (ordered after found isValue).1 behind
            omega
        split at result
        next before =>
          refine bisectFrom_missing partitioned (by omega) inside ?_ result
          intro i value isValue out
          rcases Nat.lt_trichotomy i ((low + high) / 2) with early | rfl | after
          · have := (ordered early isValue found).2
            omega
          · rw [found] at isValue
            cases isValue
            omega
          · exact outside i value isValue (by omega)
        · cases result
    next done =>
      intro value member
      obtain ⟨i, isValue⟩ := List.mem_iff_getElem?.mp member
      exact outside i value isValue (by omega)

theorem bisect_searches : Searches (@bisect α) where
  found _ result := bisectFrom_found result
  missing partitioned result :=
    bisectFrom_missing partitioned (by omega) Nat.le.refl
      (fun i value isValue out => by
        have := (List.getElem?_eq_some_iff.mp isValue).1
        omega)
      result

end VhostUser.Lib
