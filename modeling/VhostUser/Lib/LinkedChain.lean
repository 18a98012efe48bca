import Mathlib.Data.Finset.Card
import Mathlib.Data.Finset.Range
import Mathlib.Data.List.Nodup

/-!
Contract: finite chains through a successor function.

A table whose entries name their successors describes, from each start, either
a finite chain or an infinite walk. A finite chain is determined by its start
and never repeats an entry, so its length is bounded by the size of the table.
-/

namespace VhostUser.Lib

variable {α : Type*} {next : α → Option α}

/-- From `start`, following `next` visits exactly `entries` and then stops. -/
inductive Chain (next : α → Option α) : α → List α → Prop where
  | stop {start : α} (last : next start = none) : Chain next start [start]
  | link {start successor : α} {rest : List α} (points : next start = some successor)
      (tail : Chain next successor rest) : Chain next start (start :: rest)

namespace Chain

variable {entries : List α} {start : α}

theorem head_mem (chain : Chain next start entries) : start ∈ entries := by
  cases chain <;> simp

theorem unique {left right : List α} (leftChain : Chain next start left)
    (rightChain : Chain next start right) : left = right := by
  induction leftChain generalizing right with
  | stop last =>
    cases rightChain with
    | stop _ => rfl
    | link points _ => simp [last] at points
  | link points _ ih =>
    cases rightChain with
    | stop last => simp [last] at points
    | link otherPoints tail =>
      rw [points, Option.some.injEq] at otherPoints
      subst otherPoints
      rw [ih tail]

theorem from_mem {entry : α} (chain : Chain next start entries) (member : entry ∈ entries) :
    ∃ rest, Chain next entry rest ∧ rest.length ≤ entries.length := by
  induction chain with
  | stop last =>
    obtain rfl := List.mem_singleton.mp member
    exact ⟨[entry], .stop last, le_rfl⟩
  | link points tail ih =>
    rcases List.mem_cons.mp member with rfl | inTail
    · exact ⟨_, .link points tail, le_rfl⟩
    · obtain ⟨rest, restChain, shorter⟩ := ih inTail
      exact ⟨rest, restChain, by simp only [List.length_cons]; omega⟩

theorem nodup (chain : Chain next start entries) : entries.Nodup := by
  induction chain with
  | stop _ => simp
  | @link start successor rest points tail ih =>
    refine List.nodup_cons.mpr ⟨fun repeated => ?_, ih⟩
    obtain ⟨again, againChain, shorter⟩ := tail.from_mem repeated
    have same := againChain.unique (.link points tail)
    rw [same, List.length_cons] at shorter
    omega

theorem length_le_card [DecidableEq α] {states : Finset α} (chain : Chain next start entries)
    (inside : ∀ entry ∈ entries, entry ∈ states) : entries.length ≤ states.card :=
  calc entries.length = entries.toFinset.card := (List.toFinset_card_of_nodup chain.nodup).symm
    _ ≤ states.card := Finset.card_le_card fun entry member =>
      inside entry (List.mem_toFinset.mp member)

theorem length_le {next : Nat → Option Nat} {start bound : Nat} {entries : List Nat}
    (chain : Chain next start entries) (startBelow : start < bound)
    (nextBelow : ∀ entry successor, next entry = some successor → successor < bound) :
    entries.length ≤ bound := by
  have below : ∀ entry ∈ entries, entry < bound := by
    induction chain with
    | stop _ => simpa using startBelow
    | link points _ ih =>
      intro entry member
      rcases List.mem_cons.mp member with rfl | inTail
      · exact startBelow
      · exact ih (nextBelow _ _ points) entry inTail
  calc entries.length ≤ (Finset.range bound).card :=
        chain.length_le_card fun entry member => Finset.mem_range.mpr (below entry member)
    _ = bound := Finset.card_range bound

end Chain

/-! ### Parts of a walk -/

/-- From `start`, following `next` visits `front` and then comes to `last`. -/
inductive Trail (next : α → Option α) : α → List α → α → Prop where
  | here {start : α} : Trail next start [] start
  | step {start second last : α} {front : List α} (points : next start = some second)
      (path : Trail next second front last) : Trail next start (start :: front) last

namespace Trail

variable {start middle last entry : α} {front more cycle : List α}

theorem trans (path : Trail next start front middle) (later : Trail next middle more last) :
    Trail next start (front ++ more) last := by
  induction path with
  | here => exact later
  | step points _ ih => exact .step points (ih later)

theorem snoc (path : Trail next start front middle) (points : next middle = some last) :
    Trail next start (front ++ [middle]) last :=
  path.trans (.step points .here)

theorem chain (path : Trail next start front last) (stop : next last = none) :
    Chain next start (front ++ [last]) := by
  induction path with
  | here => exact .stop stop
  | step points _ ih => exact .link points (ih stop)

theorem chain_rest {entries : List α} (path : Trail next start front last)
    (chain : Chain next start entries) :
    ∃ rest, Chain next last rest ∧ entries = front ++ rest := by
  induction path generalizing entries with
  | here => exact ⟨entries, chain, rfl⟩
  | step points _ ih =>
    cases chain with
    | stop ends =>
      rw [ends] at points
      cases points
    | link follows tail =>
      rw [points] at follows
      cases follows
      obtain ⟨rest, behind, rfl⟩ := ih tail
      exact ⟨rest, behind, rfl⟩

theorem split (path : Trail next start (front ++ entry :: more) last) :
    Trail next start front entry ∧ Trail next entry (entry :: more) last := by
  induction front generalizing start with
  | nil =>
    cases path with
    | step points later => exact ⟨.here, .step points later⟩
  | cons first front ih =>
    cases path with
    | step points later =>
      obtain ⟨before, behind⟩ := ih later
      exact ⟨.step points before, behind⟩

theorem exists_repeat (repeats : ¬ front.Nodup) :
    ∃ before entry rest, front = before ++ entry :: rest ∧ entry ∈ rest := by
  induction front with
  | nil => exact absurd List.nodup_nil repeats
  | cons first rest ih =>
    by_cases again : first ∈ rest
    · exact ⟨[], first, rest, rfl, again⟩
    · obtain ⟨before, entry, behind, rfl, later⟩ :=
        ih fun nodup => repeats (List.nodup_cons.mpr ⟨again, nodup⟩)
      exact ⟨first :: before, entry, behind, rfl, later⟩

/-- A path that visits more entries than there are goes round a cycle. -/
theorem cycle_of_long [DecidableEq α] {states : Finset α} (path : Trail next start front last)
    (inside : ∀ entry ∈ front, entry ∈ states) (long : states.card < front.length) :
    ∃ before entry cycle, Trail next start before entry ∧ Trail next entry cycle entry ∧
      cycle ≠ [] := by
  have repeats : ¬ front.Nodup := fun nodup => by
    have small : front.toFinset.card ≤ states.card := Finset.card_le_card fun entry member =>
      inside entry (List.mem_toFinset.mp member)
    rw [List.toFinset_card_of_nodup nodup] at small
    omega
  obtain ⟨before, entry, rest, rfl, again⟩ := exists_repeat repeats
  obtain ⟨between, behind, rfl⟩ := List.append_of_mem again
  obtain ⟨arrives, onward⟩ := path.split
  rw [← List.cons_append] at onward
  exact ⟨before, entry, entry :: between, arrives, onward.split.1, by simp⟩

theorem around (cycled : Trail next entry cycle entry) (nonempty : cycle ≠ []) (count : Nat) :
    ∃ front, Trail next entry front entry ∧ count ≤ front.length := by
  induction count with
  | zero => exact ⟨[], .here, Nat.le_refl _⟩
  | succ count ih =>
    obtain ⟨front, path, long⟩ := ih
    refine ⟨cycle ++ front, cycled.trans path, ?_⟩
    have := List.length_pos_iff.mpr nonempty
    rw [List.length_append]
    omega

theorem exists_of_endless (endless : ¬ ∃ entries, Chain next start entries) (count : Nat) :
    ∃ front last, Trail next start front last ∧ front.length = count := by
  induction count with
  | zero => exact ⟨[], start, .here, rfl⟩
  | succ count ih =>
    obtain ⟨front, last, path, length⟩ := ih
    cases points : next last with
    | none => exact absurd ⟨_, path.chain points⟩ endless
    | some successor =>
      refine ⟨front ++ [last], successor, path.snoc points, ?_⟩
      rw [List.length_append, length, List.length_singleton]

end Trail

theorem Chain.path {start : α} {entries : List α} (chain : Chain next start entries) :
    ∃ front last, Trail next start front last ∧ next last = none := by
  induction chain with
  | stop last => exact ⟨[], _, .here, last⟩
  | link points _ ih =>
    obtain ⟨front, last, path, stop⟩ := ih
    exact ⟨_, last, .step points path, stop⟩

end VhostUser.Lib
