import Mathlib.Data.List.FinRange
import Mathlib.Logic.Function.Basic
import Mathlib.Order.Interval.Finset.Fin

/-!
Contract: tables with a fixed number of slots.

Owns:
- the slots that a test selects, in order, and when they are the first ones of the table;
- what storing one slot does to the slots that hold something.
-/

namespace VhostUser.Lib

variable {n : Nat} {α : Type*}

def slotsWhere (select : Fin n → Bool) : List (Fin n) := (List.finRange n).filter select

section Selected

variable {select : Fin n → Bool}

@[simp] theorem mem_slotsWhere {slot : Fin n} : slot ∈ slotsWhere select ↔ select slot = true := by
  simp [slotsWhere]

theorem take_finRange (n count : Nat) :
    (List.finRange n).take count = slotsWhere fun slot : Fin n => decide (slot.val < count) := by
  unfold slotsWhere
  induction n generalizing count with
  | zero => simp
  | succ n ih =>
    cases count with
    | zero => simp
    | succ count =>
      rw [List.finRange_succ, List.take_succ_cons, ← List.map_take, ih,
        List.filter_cons_of_pos (by simp), List.filter_map]
      congr 3
      funext slot
      simp

def GapFree (select : Fin n → Bool) : Prop :=
  ∀ earlier later : Fin n, earlier < later → select later = true → select earlier = true

theorem length_slotsWhere :
    (slotsWhere select).length = (Finset.univ.filter fun slot => select slot = true).card := by
  have nodup : (slotsWhere select).Nodup := (List.nodup_finRange n).filter _
  rw [← List.toFinset_card_of_nodup nodup]
  congr 1
  ext slot
  simp

/-- Without gaps, the selected slots are as many first slots as there are. -/
theorem GapFree.select_iff (gapFree : GapFree select) (slot : Fin n) :
    select slot = true ↔ slot.val < (slotsWhere select).length := by
  rw [length_slotsWhere]
  constructor
  · intro selected
    -- every slot up to this one is selected
    have below : Finset.Iic slot ⊆ Finset.univ.filter fun other => select other = true := by
      intro other member
      rw [Finset.mem_filter]
      refine ⟨Finset.mem_univ _, ?_⟩
      rcases lt_or_eq_of_le (Finset.mem_Iic.mp member) with earlier | same
      · exact gapFree other slot earlier selected
      · rw [same]
        exact selected
    have counted := Finset.card_le_card below
    rw [Fin.card_Iic] at counted
    omega
  · intro counted
    by_contra unselected
    -- every selected slot stands before this one
    have below : (Finset.univ.filter fun other => select other = true) ⊆ Finset.Iio slot := by
      intro other member
      rw [Finset.mem_Iio]
      by_contra notBefore
      rcases lt_or_eq_of_le (not_lt.mp notBefore) with later | same
      · exact unselected (gapFree slot other later (Finset.mem_filter.mp member).2)
      · rw [same] at unselected
        exact unselected (Finset.mem_filter.mp member).2
    have bounded := Finset.card_le_card below
    rw [Fin.card_Iio] at bounded
    omega

theorem gapFree_of_first
    (first : ∀ slot : Fin n, slot.val < (slotsWhere select).length → select slot = true) :
    GapFree select := by
  have inside : (Finset.univ.filter fun slot : Fin n => slot.val < (slotsWhere select).length) ⊆
      Finset.univ.filter fun slot => select slot = true := by
    intro slot member
    rw [Finset.mem_filter] at member ⊢
    exact ⟨member.1, first slot member.2⟩
  have bounded : (slotsWhere select).length ≤ n := by
    have subset := List.length_filter_le select (List.finRange n)
    rwa [List.length_finRange] at subset
  have counted : (Finset.univ.filter fun slot => select slot = true).card ≤
      (Finset.univ.filter fun slot : Fin n => slot.val < (slotsWhere select).length).card := by
    apply le_of_eq
    calc (Finset.univ.filter fun slot => select slot = true).card
        = (slotsWhere select).length := length_slotsWhere.symm
      _ = ((List.finRange n).take (slotsWhere select).length).length := by
          rw [List.length_take, List.length_finRange, Nat.min_eq_left bounded]
      _ = (slotsWhere fun slot : Fin n => decide (slot.val < (slotsWhere select).length)).length :=
          congrArg List.length (take_finRange n _)
      _ = (Finset.univ.filter fun slot : Fin n => slot.val < (slotsWhere select).length).card :=
          length_slotsWhere.trans (by simp only [decide_eq_true_eq])
  have same := Finset.eq_of_subset_of_card_le inside counted
  intro earlier later before selected
  have member : later ∈ Finset.univ.filter fun slot => select slot = true :=
    Finset.mem_filter.mpr ⟨Finset.mem_univ _, selected⟩
  rw [← same, Finset.mem_filter] at member
  exact first earlier (lt_trans before member.2)

theorem GapFree.take_eq (gapFree : GapFree select) :
    (List.finRange n).take (slotsWhere select).length = slotsWhere select := by
  rw [take_finRange]
  congr 1
  funext slot
  rw [Bool.eq_iff_iff, decide_eq_true_eq]
  exact (gapFree.select_iff slot).symm

end Selected

theorem exists_update_of_ne {table : Fin n → α} {slot : Fin n} {value entry : α}
    (there : ∃ other, table other = entry) (different : table slot ≠ entry) :
    ∃ other, Function.update table slot value other = entry := by
  obtain ⟨other, same⟩ := there
  refine ⟨other, ?_⟩
  rw [Function.update_of_ne, same]
  rintro rfl
  exact different same

end VhostUser.Lib
