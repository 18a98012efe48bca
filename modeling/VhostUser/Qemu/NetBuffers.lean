import VhostUser.Qemu.Iov
import VhostUser.Qemu.NetFilter
import VhostUser.Qemu.QueueLedger
import VhostUser.Qemu.VirtioMigrate

/-!
Contract: what the handlers of a virtio network device share: the sizes of scatter lists
(`iov.c`), taking an element off a queue, and the ways in which a handler ends the process.

A call that ends the process, an `exit(1)` or a failed `assert`, is an error. Sizes of packets
and buffers stay far from the bounds of `int`.
-/

namespace VhostUser.Qemu.Virtio

open VhostUser.Lib

/-! ### Scatter lists -/

def Segment.pair (sg : Segment) : Iov.Iovec := (sg.iovBase, sg.iovLen.toNat)

def iovSize (iov : List Segment) : Nat := (iov.map fun sg => sg.iovLen.toNat).sum

/-- `iov_from_buf` from `offset`, `done` on: the number of bytes copied. The loop of `iov_to_buf`
is the same. -/
def iovFromBuf (bytes : Nat) (iov : List Segment) (offset done : Nat) : Option Nat :=
  (Iov.iovLoop (fun _ _ state => state) bytes (iov.map Segment.pair) offset done ()).map Prod.fst

def iovCopy (room : Nat) (iov : List Segment) (offset bytes : Nat) : Option (List Iov.Iovec) :=
  Iov.iovCopy room (iov.map Segment.pair) offset bytes

/-- `iov_copy` into an array without end. -/
def pieces (iov : List Segment) (offset bytes : Nat) : List Iov.Iovec :=
  Iov.pieces (iov.map Segment.pair) offset bytes

def iovBytes (mem : UInt64 → UInt8) (iov : List Segment) : List UInt8 :=
  (Iov.cells (iov.map Segment.pair)).map mem

/-! ### What ends the process -/

/-- What ends the process, and a loop that is cut short. -/
inductive NetExit where
  | queue (exit : Exit)
  | emptyQueue (i : Nat) (mergeable : UInt32) (offset size guestHdrLen hostHdrLen : Nat)
      (features : UInt32)
  | noInBuffers
  | noOutBuffers
  /-- Missing headers, or a table that would be written out of bounds. -/
  | ctrl
  | assertion
  | outOfFuel

def VirtIONet.eventIdx (n : VirtIONet) : Bool := hasFeature n.guestFeatures 29

def VirtIONet.notifyOnEmpty (n : VirtIONet) : Bool := hasFeature n.guestFeatures 24

def Run.popFor (n : VirtIONet) (map : GuestMap) (run : Run) :
    Except NetExit (Option VirtQueueElement × Run) :=
  match run.popElem n.eventIdx map with
  | .error exit => .error (.queue exit)
  | .ok popped => .ok popped

theorem popFor_ok {n : VirtIONet} {map : GuestMap} {run : Run}
    {result : Option VirtQueueElement × Run} (taken : run.popFor n map = .ok result) :
    run.popElem n.eventIdx map = .ok result := by
  unfold Run.popFor at taken
  split at taken
  · cases taken
  next popped =>
    cases taken
    exact popped

/-- A handler does not run out of fuel, and fails an assertion exactly for the cause. -/
structure FailsFor {α : Type} (cause : Prop) (result : Except NetExit α) : Prop where
  fuel : result ≠ .error .outOfFuel
  assertion : result = .error .assertion ↔ cause

namespace FailsFor

variable {α β : Type} {cause other : Prop} {result : Except NetExit α} {rest : α → Except NetExit β}

theorem congr (fails : FailsFor cause result) (same : cause ↔ other) : FailsFor other result :=
  ⟨fails.fuel, fails.assertion.trans same⟩

theorem never (fails : FailsFor False result) (not : ¬ cause) : FailsFor cause result :=
  fails.congr (iff_of_false id not)

theorem ok (value : α) : FailsFor False (.ok value : Except NetExit α) := ⟨nofun, nofun, nofun⟩

theorem assert (holds : cause) : FailsFor cause (.error .assertion : Except NetExit α) :=
  ⟨nofun, fun _ => holds, fun _ => rfl⟩

/-- A program fails in its first part, or behind what that returns. -/
theorem bind {P : α → Prop} (first : FailsFor cause result)
    (next : ∀ value, result = .ok value → FailsFor (P value) (rest value)) :
    FailsFor (cause ∨ ∃ value, result = .ok value ∧ P value) (result >>= rest) := by
  refine ⟨fun out => ?_, bind_error_iff.trans (or_congr first.assertion ?_)⟩
  · rcases bind_error_iff.mp out with failed | ⟨value, returned, failed⟩
    · exact first.fuel failed
    · exact (next value returned).fuel failed
  · exact exists_congr fun value => and_congr_right fun returned => (next value returned).assertion

theorem andThen {P : α → Prop} (first : FailsFor False result)
    (next : ∀ value, result = .ok value → FailsFor (P value) (rest value)) :
    FailsFor (∃ value, result = .ok value ∧ P value) (result >>= rest) :=
  (first.bind next).congr (or_iff_right id)

theorem before (first : FailsFor cause result) (next : ∀ value, FailsFor False (rest value)) :
    FailsFor cause (result >>= rest) :=
  (first.bind fun value _ => next value).congr (or_iff_left fun ⟨_, _, never⟩ => never)

end FailsFor

theorem popFor_fails (n : VirtIONet) (map : GuestMap) (run : Run) :
    FailsFor False (run.popFor n map) := by
  unfold Run.popFor
  split
  · exact ⟨nofun, nofun, nofun⟩
  · exact .ok _

theorem iovSize_cons (sg : Segment) (rest : List Segment) :
    iovSize (sg :: rest) = sg.iovLen.toNat + iovSize rest := by
  simp [iovSize]

/-! ### The functions of `iov.c` -/

section

variable (iov : List Segment)
include iov

theorem length_cells_pair : (Iov.cells (iov.map Segment.pair)).length = iovSize iov := by
  simp [Iov.cells, iovSize, Segment.pair, List.length_flatMap, List.map_map, Function.comp_def]

theorem iovCopy_eq (room : Nat) (offset bytes : Nat) :
    iovCopy room iov offset bytes =
      if iovSize iov < offset ∨ offset ≠ 0 ∧ (room = 0 ∨ bytes = 0) then none
      else some ((pieces iov offset bytes).take room) := by
  rw [iovCopy, Iov.iovCopy_eq, length_cells_pair, pieces]

theorem iovFromBuf_eq (bytes : Nat) (offset done : Nat) :
    iovFromBuf bytes iov offset done =
      if iovSize iov < offset then none
      else some (done + min (bytes - done) (iovSize iov - offset)) := by
  rw [iovFromBuf, Iov.iovLoop_eq (fun _ _ => rfl) (fun _ _ _ _ => rfl), length_cells_pair]
  split
  · rfl
  · rw [Option.map_some, List.length_take, List.length_drop, length_cells_pair]

end

end VhostUser.Qemu.Virtio
