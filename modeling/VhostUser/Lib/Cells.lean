import Mathlib.Data.List.Range
import Mathlib.Logic.Function.Basic

/-!
Contract: the cells of an array that a loop rewrites in place, as lists.

An array is a function of the index. The lemmas say how a run of cells grows at
either end and which stores it does not see.
-/

namespace VhostUser.Lib

variable {α : Type*} {array : Nat → α} {value : α} {index start count : Nat}

def cells (array : Nat → α) (start count : Nat) : List α := (List.range' start count).map array

@[simp] theorem cells_zero (array : Nat → α) (start : Nat) : cells array start 0 = [] := rfl

theorem cells_succ (array : Nat → α) (start count : Nat) :
    cells array start (count + 1) = array start :: cells array (start + 1) count := rfl

theorem cells_append (array : Nat → α) (start count more : Nat) :
    cells array start (count + more) =
      cells array start count ++ cells array (start + count) more := by
  rw [cells, ← List.range'_append_1, List.map_append]
  rfl

theorem cells_concat (array : Nat → α) (start count : Nat) :
    cells array start (count + 1) = cells array start count ++ [array (start + count)] :=
  cells_append array start count 1

@[simp] theorem length_cells (array : Nat → α) (start count : Nat) :
    (cells array start count).length = count := by
  simp [cells]

theorem cells_update (outside : index < start ∨ start + count ≤ index) :
    cells (Function.update array index value) start count = cells array start count := by
  refine List.map_congr_left fun other member => Function.update_of_ne ?_ _ _
  rw [List.mem_range'_1] at member
  omega

theorem cell_mem (low : start ≤ index) (high : index < start + count) :
    array index ∈ cells array start count :=
  List.mem_map_of_mem (List.mem_range'_1.mpr ⟨low, high⟩)

end VhostUser.Lib
