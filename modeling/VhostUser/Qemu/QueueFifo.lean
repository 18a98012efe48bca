import VhostUser.Lib.Machine
import VhostUser.Lib.RingLog
import VhostUser.Qemu.VirtQueue

/-!
Contract: a virtqueue carries the heads of the driver to the device and the used entries
back, each in order and once, over any number of wraps of its counters.

The machine has a driver and a device. The driver writes heads to the available ring,
exposes them by its index, rewrites its descriptor tables as it likes and takes used
entries. The device pops, pushes, and fills batches and flushes them. The state keeps what
was published, popped, completed and read as logs, next to the rings and the queue.

Does not own: the decision to interrupt (`QueueNotify`).
-/

namespace VhostUser.Qemu.Virtio

open VhostUser.Lib

/-! ### Rings as objects -/

structure Rings where
  availFlags : UInt16
  availIdx : UInt16
  availRing : Nat → UInt16
  availEvent : UInt16
  usedIdx : UInt16
  usedRing : Nat → VRingUsedElem
  descs : UInt64 → Nat → VRingDesc

/-- The buffers of an element are not part of the rings. -/
def ringsAccess : RingAccess Rings where
  availFlags := Rings.availFlags
  availIdx := Rings.availIdx
  availRing := Rings.availRing
  usedIdx := Rings.usedIdx
  desc := Rings.descs
  usedRingId rings slot id :=
    { rings with usedRing := Function.update rings.usedRing slot { rings.usedRing slot with id } }
  usedRingLen rings slot len :=
    { rings with usedRing := Function.update rings.usedRing slot { rings.usedRing slot with len } }
  usedIdxSet rings usedIdx := { rings with usedIdx }
  availEvent rings availEvent := { rings with availEvent }
  unmap rings _ := rings

theorem virtqueueFill_rings (vq : VirtQueue) (elem : VirtQueueElement) (len : UInt32) (idx : Nat)
    (rings : Rings) :
    virtqueueFill ringsAccess vq elem len idx rings =
      let slot := (idx + rings.usedIdx.toNat) % vq.vring.num.toNat
      { rings with usedRing := Function.update rings.usedRing slot ⟨elem.index, len⟩ } := by
  simp [virtqueueFill, ringsAccess]

theorem availEvent_rings (eventIdx : Bool) (vq : VirtQueue) (val : UInt16) (rings : Rings) :
    ∃ availEvent, (if eventIdx then vringAvailEvent ringsAccess vq val rings else rings) =
      { rings with availEvent } := by
  rw [vringAvailEvent]
  split
  · split
    · exact ⟨rings.availEvent, rfl⟩
    · exact ⟨val, rfl⟩
  · exact ⟨rings.availEvent, rfl⟩

/-! ### The machine -/

/-- The driver has the heads it did not expose yet and its index into the used ring; the device
has the queue, the elements it works on, and the entries it did not flush yet. -/
structure Run where
  rings : Rings
  vq : VirtQueue
  staged : List UInt16
  lastUsed : UInt16
  inFlight : List VirtQueueElement
  batch : List VRingUsedElem
  published : List UInt16
  popped : List UInt32
  completed : List VRingUsedElem
  read : List VRingUsedElem

inductive QueueAction where
  | stage (head : UInt16)
  | expose
  | describe (descs : UInt64 → Nat → VRingDesc)
  | take
  | pop (eventIdx : Bool) (map : GuestMap)
  | fill (elem : VirtQueueElement) (len : UInt32)
  | flush
  | push (elem : VirtQueueElement) (len : UInt32)

namespace Run

def stage (head : UInt16) (run : Run) : Run :=
  let slot := (run.rings.availIdx + UInt16.ofNat run.staged.length).toNat % run.vq.vring.num.toNat
  { run with
    rings := { run.rings with availRing := Function.update run.rings.availRing slot head }
    staged := run.staged ++ [head] }

def expose (run : Run) : Run :=
  { run with
    rings :=
      { run.rings with availIdx := run.rings.availIdx + UInt16.ofNat run.staged.length }
    staged := []
    published := run.published ++ run.staged }

/-- The driver takes the next used entry, if its index says that there is one. -/
def take (run : Run) : Run :=
  if run.rings.usedIdx = run.lastUsed then run
  else
    { run with
      lastUsed := run.lastUsed + 1
      read := run.read ++ [run.rings.usedRing (run.lastUsed.toNat % run.vq.vring.num.toNat)] }

def pop (eventIdx : Bool) (map : GuestMap) (run : Run) : Option Run :=
  match virtqueuePop ringsAccess eventIdx map run.vq run.rings with
  | .error _ => none
  | .ok (none, rings, vq) => some { run with rings, vq }
  | .ok (some elem, rings, vq) =>
    some { run with
      rings, vq
      inFlight := run.inFlight ++ [elem]
      popped := run.popped ++ [elem.index] }

def fill (elem : VirtQueueElement) (len : UInt32) (run : Run) : Run :=
  { run with
    rings := virtqueueFill ringsAccess run.vq elem len run.batch.length run.rings
    inFlight := run.inFlight.erase elem
    batch := run.batch ++ [⟨elem.index, len⟩] }

def flush (run : Run) : Run :=
  let flushed := virtqueueFlush ringsAccess run.vq run.batch.length run.rings
  { run with
    rings := flushed.1
    vq := flushed.2
    batch := []
    completed := run.completed ++ run.batch }

def push (elem : VirtQueueElement) (len : UInt32) (run : Run) : Run :=
  let pushed := virtqueuePush ringsAccess run.vq elem len run.rings
  { run with
    rings := pushed.1
    vq := pushed.2
    inFlight := run.inFlight.erase elem
    completed := run.completed ++ [⟨elem.index, len⟩] }

def Fresh (num : UInt32) (run : Run) : Prop :=
  run.vq.vring.num = num ∧ run.rings.availIdx = 0 ∧ run.rings.usedIdx = 0 ∧
    run.vq.lastAvailIdx = 0 ∧ run.vq.inuse = 0 ∧ run.lastUsed = 0 ∧ run.staged = [] ∧
    run.inFlight = [] ∧ run.batch = [] ∧ run.published = [] ∧ run.popped = [] ∧
    run.completed = [] ∧ run.read = []

end Run

def queueMachine (num : UInt32) : Machine Run QueueAction where
  start := Run.Fresh num
  step run
    | .stage head => some (run.stage head)
    | .expose => some run.expose
    | .describe descs => some { run with rings := { run.rings with descs } }
    | .take => some run.take
    | .pop eventIdx map => run.pop eventIdx map
    | .fill elem len => some (run.fill elem len)
    | .flush => some run.flush
    | .push elem len => some (run.push elem len)

/-- The driver never has more than `num` heads outstanding. The device completes what it popped,
once each, and flushes a batch before the next push. -/
def Disciplined (num : UInt32) (run : Run) : QueueAction → Prop
  | .stage _ => run.published.length + run.staged.length < run.read.length + num.toNat
  | .fill elem _ => elem ∈ run.inFlight
  | .push elem _ => elem ∈ run.inFlight ∧ run.batch = []
  | _ => True

/-! ### The invariant -/

/-- The counters are the lengths of the logs, the slots hold what is not yet popped or read, and
what the driver has outstanding fits the ring. -/
structure Ordered (num : UInt32) (run : Run) : Prop where
  size : run.vq.vring.num = num
  availIdx : run.rings.availIdx = UInt16.ofNat run.published.length
  lastAvailIdx : run.vq.lastAvailIdx = UInt16.ofNat run.popped.length
  usedIdx : run.rings.usedIdx = UInt16.ofNat run.completed.length
  lastUsed : run.lastUsed = UInt16.ofNat run.read.length
  popped : run.popped = (run.published.take run.popped.length).map UInt16.toUInt32
  read : run.read = run.completed.take run.read.length
  working : run.inFlight.length + run.batch.length + run.completed.length = run.popped.length
  window : run.published.length + run.staged.length ≤ run.read.length + num.toNat
  avail : RingLog num.toNat run.rings.availRing (run.published ++ run.staged) run.popped.length
  used : RingLog num.toNat run.rings.usedRing (run.completed ++ run.batch) run.read.length
  inuse : run.vq.inuse = run.popped.length - run.completed.length

section Steps

variable {num : UInt32} {run : Run}

theorem Ordered.fresh (fresh : run.Fresh num) : Ordered num run := by
  obtain ⟨size, availIdx, usedIdx, lastAvailIdx, inuse, lastUsed, staged, inFlight, batch,
    published, popped, completed, read⟩ := fresh
  constructor <;> simp_all [RingLog.empty]

section

variable (ordered : Ordered num run)
include ordered

theorem Ordered.popped_le : run.popped.length ≤ run.published.length := by
  have lengths := congrArg List.length ordered.popped
  rw [List.length_map, List.length_take] at lengths
  omega

theorem Ordered.read_le : run.read.length ≤ run.completed.length := by
  have lengths := congrArg List.length ordered.read
  rw [List.length_take] at lengths
  omega

theorem Ordered.completed_le : run.completed.length + run.batch.length ≤ run.popped.length := by
  have working := ordered.working
  omega

theorem Ordered.stage (divides : num.toNat ∣ 65536) (head : UInt16)
    (room : run.published.length + run.staged.length < run.read.length + num.toNat) :
    Ordered num (run.stage head) := by
  have slot : (run.rings.availIdx + UInt16.ofNat run.staged.length).toNat % run.vq.vring.num.toNat =
      (run.published ++ run.staged).length % num.toNat := by
    rw [ordered.availIdx, counter_add, ordered.size, counter_slot divides, List.length_append]
  have free : (run.published ++ run.staged).length < run.popped.length + num.toNat := by
    have := ordered.read_le
    have := ordered.completed_le
    rw [List.length_append]
    omega
  have written := ordered.avail.write free head
  rw [← slot, List.append_assoc] at written
  refine { ordered with avail := written, window := ?_ }
  simp only [Run.stage, List.length_append, List.length_singleton]
  omega

theorem Ordered.expose : Ordered num run.expose := by
  have le := ordered.popped_le
  refine { ordered with availIdx := ?_, popped := ?_, window := ?_, avail := ?_ }
  · simp only [Run.expose, ordered.availIdx, counter_add, List.length_append]
  · simp only [Run.expose, List.take_append_of_le_length le]
    exact ordered.popped
  · simpa [Run.expose] using ordered.window
  · simpa [Run.expose] using ordered.avail

theorem Ordered.completed_close (small : num.toNat ≤ 1024) :
    run.completed.length < run.read.length + 65536 := by
  have := ordered.completed_le
  have := ordered.popped_le
  have := ordered.window
  omega

theorem Ordered.take (divides : num.toNat ∣ 65536) (small : num.toNat ≤ 1024) :
    Ordered num run.take := by
  rw [Run.take]
  split
  · exact ordered
  next more =>
    have le := ordered.read_le
    rw [ordered.usedIdx, ordered.lastUsed,
      counter_eq_iff le (ordered.completed_close small)] at more
    have inside : run.read.length < run.completed.length := by omega
    have found : run.completed[run.read.length]? = some run.completed[run.read.length] :=
      List.getElem?_eq_getElem inside
    have entry : run.rings.usedRing (run.lastUsed.toNat % run.vq.vring.num.toNat) =
        run.completed[run.read.length] := by
      rw [ordered.lastUsed, ordered.size, counter_slot divides]
      refine ordered.used _ _ le_rfl ?_
      rw [List.getElem?_append_left inside]
      exact found
    rw [entry]
    refine { ordered with lastUsed := ?_, read := ?_, window := ?_, used := ?_ }
    · rw [List.length_append, List.length_singleton, ← counter_add, ordered.lastUsed]
      rfl
    · simp only [List.length_append, List.length_singleton]
      rw [List.take_add_one, ← ordered.read, found]
      rfl
    · have := ordered.window
      simp only [List.length_append, List.length_singleton]
      omega
    · exact ordered.used.later (by simp)

theorem Ordered.numHeads (small : num.toNat ≤ 1024) :
    virtqueueNumHeads ringsAccess run.vq run.vq.lastAvailIdx run.rings =
      .ok (run.published.length - run.popped.length) := by
  have le := ordered.popped_le
  have window : run.published.length ≤ run.popped.length + num.toNat := by
    have := ordered.window
    have := ordered.read_le
    have := ordered.completed_le
    omega
  have heads : (run.rings.availIdx - run.vq.lastAvailIdx).toNat =
      run.published.length - run.popped.length := by
    rw [ordered.availIdx, ordered.lastAvailIdx, counter_sub le (by omega)]
  rw [virtqueueNumHeads]
  simp only [ringsAccess, heads]
  rw [if_neg (by rw [ordered.size]; omega)]

theorem Ordered.head {head : Nat} (divides : num.toNat ∣ 65536)
    (inside : run.popped.length < run.published.length)
    (got : virtqueueGetHead ringsAccess run.vq run.vq.lastAvailIdx.toNat run.rings = .ok head) :
    UInt32.ofNat head = run.published[run.popped.length].toUInt32 := by
  have entry : run.rings.availRing (run.vq.lastAvailIdx.toNat % run.vq.vring.num.toNat) =
      run.published[run.popped.length] := by
    rw [ordered.lastAvailIdx, ordered.size, counter_slot divides]
    refine ordered.avail _ _ le_rfl ?_
    rw [List.getElem?_append_left inside, List.getElem?_eq_getElem inside]
  simp only [virtqueueGetHead, ringsAccess, entry] at got
  split at got
  · cases got
  · cases got
    exact UInt32.ofNat_uInt16ToNat _

theorem Ordered.pop {eventIdx : Bool} {map : GuestMap} {next : Run}
    (divides : num.toNat ∣ 65536) (small : num.toNat ≤ 1024)
    (taken : run.pop eventIdx map = some next) : Ordered num next := by
  rw [Run.pop, virtqueuePop_heads (ordered.numHeads small)] at taken
  by_cases empty : run.published.length - run.popped.length = 0
  · rw [if_pos empty] at taken
    cases taken
    exact ordered
  rw [if_neg empty] at taken
  cases result : popHead ringsAccess eventIdx map run.vq run.rings with
  | error exit =>
    rw [result] at taken
    cases taken
  | ok values =>
    obtain ⟨elem, rings, vq⟩ := values
    rw [result] at taken
    cases taken
    obtain ⟨head, got, index, left, rfl⟩ := popHead_ok result
    obtain ⟨availEvent, asked⟩ :=
      availEvent_rings eventIdx run.vq (ringsAccess.availIdx run.rings) run.rings
    rw [asked] at left
    subst left
    have inside : run.popped.length < run.published.length := by omega
    have popped : elem.index = run.published[run.popped.length].toUInt32 :=
      index.trans (ordered.head divides inside got)
    refine { ordered with
      lastAvailIdx := ?_, popped := ?_, working := ?_, avail := ?_, inuse := ?_ }
    · rw [List.length_append, List.length_singleton, ← counter_add, ordered.lastAvailIdx]
      rfl
    · simp only [List.length_append, List.length_singleton]
      rw [List.take_add_one, List.map_append, ← ordered.popped,
        List.getElem?_eq_getElem inside, popped]
      rfl
    · have := ordered.working
      simp only [List.length_append, List.length_singleton]
      omega
    · exact ordered.avail.later (by simp)
    · simp only [ordered.inuse, List.length_append, List.length_singleton]
      omega

theorem Ordered.fill {elem : VirtQueueElement} {len : UInt32}
    (divides : num.toNat ∣ 65536) (member : elem ∈ run.inFlight) :
    Ordered num (run.fill elem len) := by
  have slot : (run.batch.length + run.rings.usedIdx.toNat) % run.vq.vring.num.toNat =
      (run.completed ++ run.batch).length % num.toNat := by
    rw [ordered.usedIdx, ordered.size, Nat.add_mod, counter_slot divides, ← Nat.add_mod,
      List.length_append, Nat.add_comm]
  have positive : 0 < run.inFlight.length := List.length_pos_of_mem member
  have free : (run.completed ++ run.batch).length < run.read.length + num.toNat := by
    have := ordered.working
    have := ordered.popped_le
    have := ordered.window
    rw [List.length_append]
    omega
  have written := ordered.used.write free ⟨elem.index, len⟩
  rw [← slot, List.append_assoc] at written
  refine { ordered with
    size := ordered.size, availIdx := ?_, usedIdx := ?_, working := ?_, avail := ?_, used := ?_ }
  · rw [Run.fill, virtqueueFill_rings]
    exact ordered.availIdx
  · rw [Run.fill, virtqueueFill_rings]
    exact ordered.usedIdx
  · have := ordered.working
    simp only [Run.fill, List.length_append, List.length_singleton, List.length_erase_of_mem member]
    omega
  · rw [Run.fill, virtqueueFill_rings]
    exact ordered.avail
  · rw [Run.fill, virtqueueFill_rings]
    exact written

theorem Ordered.flush : Ordered num run.flush := by
  refine { ordered with usedIdx := ?_, read := ?_, working := ?_, used := ?_, inuse := ?_ }
  · simp only [Run.flush, virtqueueFlush, ringsAccess, ordered.usedIdx, counter_add,
      List.length_append]
  · simp only [Run.flush, List.take_append_of_le_length ordered.read_le]
    exact ordered.read
  · have := ordered.working
    simp only [Run.flush, List.length_append, List.length_nil]
    omega
  · simpa [Run.flush, virtqueueFlush, ringsAccess] using ordered.used
  · have := ordered.completed_le
    simp only [Run.flush, virtqueueFlush, ordered.inuse, List.length_append, Nat.cast_add]
    omega

end

theorem push_eq {elem : VirtQueueElement} {len : UInt32} (closed : run.batch = []) :
    run.push elem len = (run.fill elem len).flush := by
  simp [Run.push, Run.fill, Run.flush, virtqueuePush, closed]

theorem Ordered.step {action : QueueAction} {next : Run} (divides : num.toNat ∣ 65536)
    (small : num.toNat ≤ 1024) (ordered : Ordered num run) (allowed : Disciplined num run action)
    (taken : (queueMachine num).step run action = some next) : Ordered num next := by
  cases action with
  | stage head =>
    cases taken
    exact ordered.stage divides head allowed
  | expose =>
    cases taken
    exact ordered.expose
  | describe descs =>
    cases taken
    exact { ordered with }
  | take =>
    cases taken
    exact ordered.take divides small
  | pop eventIdx map => exact ordered.pop divides small taken
  | fill elem len =>
    cases taken
    exact ordered.fill divides allowed
  | flush =>
    cases taken
    exact ordered.flush
  | push elem len =>
    cases taken
    rw [push_eq allowed.2]
    exact (ordered.fill divides allowed.1).flush

end Steps

/-! ### Order -/

/-- Heads come out in the order in which they went in, and used entries too. -/
structure Fifo (num : UInt32) (run : Run) : Prop where
  /-- The successful pops returned the heads in the order of publication. -/
  pops : run.popped = (run.published.take run.popped.length).map UInt16.toUInt32
  /-- `virtqueue_pop` returns zero if and only if every published head was popped. -/
  empty : ∀ eventIdx map, (∃ rings vq, virtqueuePop ringsAccess eventIdx map run.vq run.rings =
    .ok (none, rings, vq)) ↔ run.popped.length = run.published.length
  /-- The driver read the completed entries in the order of completion. -/
  reads : run.read = run.completed.take run.read.length
  /-- It sees another one if and only if there is one that it did not read. -/
  more : run.rings.usedIdx ≠ run.lastUsed ↔ run.read.length < run.completed.length
  /-- What it did not read is in its slot, and stays there when the next entry is filled. -/
  kept : ∀ j entry, run.read.length ≤ j → run.completed[j]? = some entry →
    run.rings.usedRing (j % num.toNat) = entry ∧ ∀ elem ∈ run.inFlight, ∀ len,
      (virtqueueFill ringsAccess run.vq elem len run.batch.length run.rings).usedRing
        (j % num.toNat) = entry
  inuse : run.vq.inuse = run.popped.length - run.completed.length

theorem Ordered.fifo {num : UInt32} {run : Run} (ordered : Ordered num run)
    (divides : num.toNat ∣ 65536) (small : num.toNat ≤ 1024) : Fifo num run := by
  refine ⟨ordered.popped, fun eventIdx map => ?_, ordered.read, ?_, ?_, ordered.inuse⟩
  · have le := ordered.popped_le
    rw [virtqueuePop_heads (ordered.numHeads small)]
    by_cases empty : run.published.length - run.popped.length = 0
    · rw [if_pos empty]
      exact ⟨fun _ => by omega, fun _ => ⟨_, _, rfl⟩⟩
    rw [if_neg empty]
    refine ⟨?_, fun same => absurd same (by omega)⟩
    rintro ⟨rings, vq, returned⟩
    cases result : popHead ringsAccess eventIdx map run.vq run.rings <;>
      · rw [result] at returned
        cases returned
  · have le := ordered.read_le
    rw [ordered.usedIdx, ordered.lastUsed, ne_eq,
      counter_eq_iff le (ordered.completed_close small)]
    omega
  · intro j entry unread found
    have inside : j < run.completed.length := (List.getElem?_eq_some_iff.mp found).1
    refine ⟨ordered.used j entry unread ?_, fun elem member len => ?_⟩
    · rw [List.getElem?_append_left inside]
      exact found
    have filled : Ordered num (run.fill elem len) := ordered.fill divides member
    refine filled.used j entry unread ?_
    simp only [Run.fill]
    rw [List.getElem?_append_left inside]
    exact found

/-- In every run of a driver and a device that keep their part, a queue whose size is a power of
two is first in, first out both ways. -/
theorem disciplined_fifo {num : UInt32} {exponent : Nat} {run : Run} (bounded : exponent ≤ 10)
    (power : num.toNat = 2 ^ exponent)
    (reached : (queueMachine num).Reached (Disciplined num) run) : Fifo num run := by
  have divides : num.toNat ∣ 65536 := (dvd_of_pow_two (by omega) power).1
  have small : num.toNat ≤ 1024 := by
    rw [power]
    exact Nat.pow_le_pow_right (by decide) bounded
  have ordered : Ordered num run := reached.invariant (fun _ => Ordered.fresh)
    fun _ _ _ ordered allowed taken => ordered.step divides small allowed taken
  exact ordered.fifo divides small

/-! ### A run -/

def freshRun (num : UInt32) (descs : UInt64 → Nat → VRingDesc) : Run where
  rings := ⟨0, 0, fun _ => 0, 0, 0, fun _ => ⟨0, 0⟩, descs⟩
  vq := ⟨⟨num, 4096, 0, 0, 0⟩, 0, 0, 0, false, true, 0⟩
  staged := []
  lastUsed := 0
  inFlight := []
  batch := []
  published := []
  popped := []
  completed := []
  read := []

def oneBuffer (head : UInt32) : VirtQueueElement := ⟨head, [⟨4096, 4096, 16⟩], []⟩

def twoRounds : List QueueAction :=
  let pop := .pop true fun addr len _ => some (addr, len)
  [.stage 1, .stage 0, .expose, pop, pop, .fill (oneBuffer 0) 7, .fill (oneBuffer 1) 9, .flush,
    .take, .take, .stage 1, .expose, pop, .push (oneBuffer 1) 5, .take, pop]

instance decidableDisciplined (num : UInt32) (run : Run) (action : QueueAction) :
    Decidable (Disciplined num run action) := by
  cases action <;> dsimp only [Disciplined] <;> infer_instance

theorem disciplined_fifo_twoRounds : ∃ run, (queueMachine 2).Reached (Disciplined 2) run ∧
    run.popped = [1, 0, 1] ∧ run.read = [⟨0, 7⟩, ⟨1, 9⟩, ⟨1, 5⟩] ∧ Fifo 2 run := by
  let start := freshRun 2 fun _ _ => ⟨4096, 16, 0, 0⟩
  have ends : ((queueMachine 2).run twoRounds start).map (fun run => (run.popped, run.read)) =
      some ([1, 0, 1], [⟨0, 7⟩, ⟨1, 9⟩, ⟨1, 5⟩]) := by decide +kernel
  have fresh : (queueMachine 2).Reached (Disciplined 2) start :=
    .start ⟨rfl, rfl, rfl, rfl, rfl, rfl, rfl, rfl, rfl, rfl, rfl, rfl, rfl⟩
  obtain ⟨run, reached, values⟩ := fresh.evaluate (by decide +kernel) ends
  have bounded : 1 ≤ 10 := by decide
  exact ⟨run, reached, (Prod.mk.inj values).1, (Prod.mk.inj values).2,
    disciplined_fifo bounded rfl reached⟩

end VhostUser.Qemu.Virtio
