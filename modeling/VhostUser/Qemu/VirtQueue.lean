import VhostUser.Lib.Fallible

/-!
Contract: the virtqueues of QEMU's virtio devices (`hw/virtio/virtio.c`): taking an
element, giving elements back one by one or in batches, and the decision to interrupt.

The functions reach the rings through the accessors of `virtio.c` (`vring_avail_idx`,
`vring_desc_addr`, ...). These are the fields of `RingAccess`, so that one model serves
rings that are objects and rings in guest memory. An `exit(1)` of the source is an error.

Does not own: where the rings are, and what maps a guest address.
-/

namespace VhostUser.Qemu.Virtio

open VhostUser.Lib

/-! ### Data -/

structure VRingDesc where
  addr : UInt64
  len : UInt32
  flags : UInt16
  next : UInt16
deriving DecidableEq, Repr

structure VRingUsedElem where
  id : UInt32
  len : UInt32
deriving DecidableEq, Repr

structure VRing where
  num : UInt32
  align : UInt32
  desc : UInt64
  avail : UInt64
  used : UInt64
deriving DecidableEq, Repr

/-- `struct VirtQueue`. The number of elements in use stays far from the bounds of `int`. -/
structure VirtQueue where
  vring : VRing
  pa : UInt64
  lastAvailIdx : UInt16
  signalledUsed : UInt16
  signalledUsedValid : Bool
  notification : Bool
  inuse : Int
deriving DecidableEq, Repr

/-- One entry of `in_sg` or `out_sg` with its guest address. -/
structure Segment where
  addr : UInt64
  iovBase : UInt64
  iovLen : UInt32
deriving DecidableEq, Repr

structure VirtQueueElement where
  index : UInt32
  outSg : List Segment
  inSg : List Segment
deriving DecidableEq, Repr

structure Unmap where
  buffer : UInt64
  len : UInt32
  isWrite : Bool
  accessLen : UInt32
deriving DecidableEq, Repr

/-- `VIRTQUEUE_MAX_SIZE`, the size of `in_sg` and `out_sg` too. -/
def virtqueueMaxSize : Nat := 1024

def VRingDesc.hasNext (desc : VRingDesc) : Bool := desc.flags &&& 1 ≠ 0
def VRingDesc.isWrite (desc : VRingDesc) : Bool := desc.flags &&& 2 ≠ 0
def VRingDesc.isIndirect (desc : VRingDesc) : Bool := desc.flags &&& 4 ≠ 0

/-- The accessors of `virtio.c` to the rings of one queue, over memories `μ`. `desc` reads the
table at an address by index. -/
structure RingAccess (μ : Type) where
  availFlags : μ → UInt16
  availIdx : μ → UInt16
  availRing : μ → Nat → UInt16
  usedIdx : μ → UInt16
  desc : μ → UInt64 → Nat → VRingDesc
  usedRingId : μ → Nat → UInt32 → μ
  usedRingLen : μ → Nat → UInt32 → μ
  usedIdxSet : μ → UInt16 → μ
  availEvent : μ → UInt16 → μ
  unmap : μ → Unmap → μ

inductive Exit where
  | movedIndex (last avail : UInt16)
  | badHead (head : Nat)
  | badIndirectSize
  | tooManyWrite
  | tooManyRead
  | looped
  | badNext (next : Nat)
  | mapsMmio
deriving DecidableEq, Repr

/-- `vring_align`, with `align` widened to `unsigned long`. -/
def vringAlign (addr align : UInt64) : UInt64 := (addr + align - 1) &&& ~~~(align - 1)

def virtqueueInit (vq : VirtQueue) : VirtQueue :=
  let avail := vq.pa + vq.vring.num.toUInt64 * 16
  { vq with
    vring := { vq.vring with
      desc := vq.pa
      avail
      used := vringAlign (avail + (4 + 2 * vq.vring.num.toUInt64)) vq.vring.align.toUInt64 } }

section Queue

variable {μ : Type} (access : RingAccess μ)

/-! ### Giving elements back -/

/-- The loop of `virtqueue_fill` over `in_sg`, which spreads `len` written bytes. -/
def unmapIn (len : UInt32) : UInt32 → List Segment → List Unmap
  | _, [] => []
  | offset, sg :: rest =>
    let size := min (len - offset) sg.iovLen
    ⟨sg.iovBase, sg.iovLen, true, size⟩ :: unmapIn len (offset + size) rest

def unmapOut (outSg : List Segment) : List Unmap :=
  outSg.map fun sg => ⟨sg.iovBase, sg.iovLen, false, sg.iovLen⟩

def virtqueueFill (vq : VirtQueue) (elem : VirtQueueElement) (len : UInt32) (idx : Nat) (mem : μ) :
    μ :=
  let mem := (unmapIn len 0 elem.inSg ++ unmapOut elem.outSg).foldl access.unmap mem
  let slot := (idx + (access.usedIdx mem).toNat) % vq.vring.num.toNat
  access.usedRingLen (access.usedRingId mem slot elem.index) slot len

def signed (word : UInt16) : Int := word.toInt16.toInt

def virtqueueFlush (vq : VirtQueue) (count : Nat) (mem : μ) : μ × VirtQueue :=
  let old := access.usedIdx mem
  let new := old + UInt16.ofNat count
  (access.usedIdxSet mem new,
    { vq with
      inuse := vq.inuse - count
      signalledUsedValid :=
        if signed (new - vq.signalledUsed) < (new - old).toNat then false
        else vq.signalledUsedValid })

def virtqueuePush (vq : VirtQueue) (elem : VirtQueueElement) (len : UInt32) (mem : μ) :
    μ × VirtQueue :=
  virtqueueFlush access vq 1 (virtqueueFill access vq elem len 0 mem)

/-! ### Taking an element -/

def virtqueueNumHeads (vq : VirtQueue) (idx : UInt16) (mem : μ) : Except Exit Nat :=
  let numHeads := access.availIdx mem - idx
  if vq.vring.num.toNat < numHeads.toNat then .error (.movedIndex idx (access.availIdx mem))
  else .ok numHeads.toNat

def virtqueueGetHead (vq : VirtQueue) (idx : Nat) (mem : μ) : Except Exit Nat :=
  let head := (access.availRing mem (idx % vq.vring.num.toNat)).toNat
  if vq.vring.num.toNat ≤ head then .error (.badHead head) else .ok head

/-- `virtqueue_next_desc`; `max` ends the chain. -/
def virtqueueNextDesc (desc : VRingDesc) (max : Nat) : Except Exit Nat :=
  if !desc.hasNext then .ok max
  else if max ≤ desc.next.toNat then .error (.badNext desc.next.toNat)
  else .ok desc.next.toNat

/-- The buffers of a chain, by direction, as guest address and length. -/
structure Collected where
  outBufs : List (UInt64 × UInt32)
  inBufs : List (UInt64 × UInt32)
deriving DecidableEq, Repr

/-- The first half of the loop body of `virtqueue_pop`. -/
def addDesc (elem : Collected) (desc : VRingDesc) : Except Exit Collected :=
  if desc.isWrite then
    if virtqueueMaxSize ≤ elem.inBufs.length then .error .tooManyWrite
    else .ok { elem with inBufs := elem.inBufs ++ [(desc.addr, desc.len)] }
  else
    if virtqueueMaxSize ≤ elem.outBufs.length then .error .tooManyRead
    else .ok { elem with outBufs := elem.outBufs ++ [(desc.addr, desc.len)] }

/-- The loop of `virtqueue_pop`, from descriptor `i` on. The budget is what `max` leaves after the
descriptors that were collected. -/
def collect (desc : Nat → VRingDesc) (max : Nat) : Nat → Nat → Collected → Except Exit Collected
  | 0, i, elem => do
      let _ ← addDesc elem (desc i)
      .error .looped
  | budget + 1, i, elem => do
      let elem ← addDesc elem (desc i)
      let next ← virtqueueNextDesc (desc i) max
      if next = max then .ok elem else collect desc max budget next elem

/-- The table, its size and the first descriptor of the chain at `head`. -/
def chainStart (desc : UInt64 → Nat → VRingDesc) (vq : VirtQueue) (head : Nat) :
    Except Exit (UInt64 × Nat × Nat) :=
  let first := desc vq.vring.desc head
  if !first.isIndirect then .ok (vq.vring.desc, vq.vring.num.toNat, head)
  else if first.len.toNat % 16 ≠ 0 then .error .badIndirectSize
  else .ok (first.addr, first.len.toNat / 16, 0)

/-- `cpu_physical_memory_map`: the host address and the length that could be mapped. -/
abbrev GuestMap := UInt64 → UInt64 → Bool → Option (UInt64 × UInt64)

def virtqueueMapSg (map : GuestMap) (isWrite : Bool) :
    List (UInt64 × UInt32) → Except Exit (List Segment)
  | [] => .ok []
  | (addr, len) :: rest =>
    match map addr len.toUInt64 isWrite with
    | none => .error .mapsMmio
    | some (base, mapped) =>
      if mapped ≠ len.toUInt64 then .error .mapsMmio
      else do
        let segments ← virtqueueMapSg map isWrite rest
        .ok (⟨addr, base, len⟩ :: segments)

def vringAvailEvent (vq : VirtQueue) (val : UInt16) (mem : μ) : μ :=
  if !vq.notification then mem else access.availEvent mem val

def popChain (map : GuestMap) (vq : VirtQueue) (head : Nat) (desc : UInt64 → Nat → VRingDesc) :
    Except Exit VirtQueueElement := do
  let (table, max, first) ← chainStart desc vq head
  let elem ← collect (desc table) max max first ⟨[], []⟩
  let inSg ← virtqueueMapSg map true elem.inBufs
  let outSg ← virtqueueMapSg map false elem.outBufs
  .ok ⟨UInt32.ofNat head, outSg, inSg⟩

def popHead (eventIdx : Bool) (map : GuestMap) (vq : VirtQueue) (mem : μ) :
    Except Exit (VirtQueueElement × μ × VirtQueue) := do
  let head ← virtqueueGetHead access vq vq.lastAvailIdx.toNat mem
  let mem := if eventIdx then vringAvailEvent access vq (access.availIdx mem) mem else mem
  let elem ← popChain map vq head (access.desc mem)
  .ok (elem, mem, { vq with lastAvailIdx := vq.lastAvailIdx + 1, inuse := vq.inuse + 1 })

/-- `virtqueue_pop`: no element is its return value zero. -/
def virtqueuePop (eventIdx : Bool) (map : GuestMap) (vq : VirtQueue) (mem : μ) :
    Except Exit (Option VirtQueueElement × μ × VirtQueue) := do
  let heads ← virtqueueNumHeads access vq vq.lastAvailIdx mem
  if heads = 0 then .ok (none, mem, vq)
  else (popHead access eventIdx map vq mem).map fun (elem, mem, vq) => (some elem, mem, vq)

/-! ### Looking ahead -/

def virtioQueueEmpty (vq : VirtQueue) (mem : μ) : Bool :=
  decide (access.availIdx mem = vq.lastAvailIdx)

/-- The inner loop of `virtqueue_get_avail_bytes`, from descriptor `i` on. It ends early once both
limits are met. -/
def chainBytes (desc : Nat → VRingDesc) (max : Nat) (maxIn maxOut : UInt32) :
    Nat → Nat → UInt32 → UInt32 → Except Exit (Bool × Nat × UInt32 × UInt32)
  | 0, _, _, _ => .error .looped
  | budget + 1, i, inTotal, outTotal => do
      let inTotal := if (desc i).isWrite then inTotal + (desc i).len else inTotal
      let outTotal := if (desc i).isWrite then outTotal else outTotal + (desc i).len
      if maxIn ≤ inTotal ∧ maxOut ≤ outTotal then .ok (true, budget, inTotal, outTotal)
      else do
        let next ← virtqueueNextDesc (desc i) max
        if next = max then .ok (false, budget, inTotal, outTotal)
        else chainBytes desc max maxIn maxOut budget next inTotal outTotal

/-- The outer loop of `virtqueue_get_avail_bytes`, for the heads behind `idx`, an `unsigned int`
that does not wrap at 16 bits. -/
def availBytesLoop (vq : VirtQueue) (mem : μ) (maxIn maxOut : UInt32) :
    Nat → Nat → Nat → UInt32 → UInt32 → Except Exit (UInt32 × UInt32)
  | 0, _, _, inTotal, outTotal => .ok (inTotal, outTotal)
  | heads + 1, idx, totalBufs, inTotal, outTotal => do
      let num := vq.vring.num.toNat
      let head ← virtqueueGetHead access vq idx mem
      let first := access.desc mem vq.vring.desc head
      if first.isIndirect then
        if first.len.toNat % 16 ≠ 0 then .error .badIndirectSize
        else if num ≤ totalBufs then .error .looped
        else do
          let max := first.len.toNat / 16
          let (done, _, inTotal, outTotal) ←
            chainBytes (access.desc mem first.addr) max maxIn maxOut max 0 inTotal outTotal
          if done then .ok (inTotal, outTotal)
          else availBytesLoop vq mem maxIn maxOut heads (idx + 1) (totalBufs + 1) inTotal outTotal
      else do
        let (done, left, inTotal, outTotal) ← chainBytes (access.desc mem vq.vring.desc) num
          maxIn maxOut (num - totalBufs) head inTotal outTotal
        if done then .ok (inTotal, outTotal)
        else availBytesLoop vq mem maxIn maxOut heads (idx + 1) (num - left) inTotal outTotal

def virtqueueGetAvailBytes (vq : VirtQueue) (maxIn maxOut : UInt32) (mem : μ) :
    Except Exit (UInt32 × UInt32) := do
  let heads ← virtqueueNumHeads access vq vq.lastAvailIdx mem
  availBytesLoop access vq mem maxIn maxOut heads vq.lastAvailIdx.toNat 0 0 0

def virtqueueAvailBytes (vq : VirtQueue) (inBytes outBytes : UInt32) (mem : μ) :
    Except Exit Bool := do
  let (inTotal, outTotal) ← virtqueueGetAvailBytes access vq inBytes outBytes mem
  return decide (inBytes ≤ inTotal ∧ outBytes ≤ outTotal)

/-- `virtio_queue_set_notification`. Without event indices it sets a flag of the used ring. -/
def virtioQueueSetNotification (eventIdx enable : Bool) (vq : VirtQueue) (mem : μ) :
    μ × VirtQueue :=
  let vq := { vq with notification := enable }
  (if eventIdx then vringAvailEvent access vq (access.availIdx mem) mem else mem, vq)

section Collect

variable {desc : Nat → VRingDesc} {max budget i : Nat} {bufs next : Collected}

theorem addDesc_ok {desc : VRingDesc} (added : addDesc bufs desc = .ok next) :
    next = if desc.isWrite then { bufs with inBufs := bufs.inBufs ++ [(desc.addr, desc.len)] }
      else { bufs with outBufs := bufs.outBufs ++ [(desc.addr, desc.len)] } := by
  rw [addDesc] at added
  split at added
  all_goals
    split at added
    · cases added
    · cases added
      simp [*]

theorem collect_ok (collected : collect desc max (budget + 1) i bufs = .ok next) :
    ∃ mid, addDesc bufs (desc i) = .ok mid ∧
      ((desc i).hasNext = true → (desc i).next.toNat < max ∧
        collect desc max budget (desc i).next.toNat mid = .ok next) ∧
      ((desc i).hasNext = false → next = mid) := by
  obtain ⟨mid, added, linked⟩ := bind_ok_iff.mp collected
  obtain ⟨link, stepped, rest⟩ := bind_ok_iff.mp linked
  refine ⟨mid, added, fun more => ?_, fun last => ?_⟩
  · rw [virtqueueNextDesc, more] at stepped
    split at stepped
    · contradiction
    split at stepped
    · cases stepped
    next inside =>
      cases stepped
      rw [if_neg (by omega)] at rest
      exact ⟨by omega, rest⟩
  · rw [virtqueueNextDesc, last] at stepped
    cases stepped
    rw [if_pos rfl] at rest
    cases rest
    rfl

end Collect

section Pop

variable {access} {eventIdx : Bool} {map : GuestMap} {vq after : VirtQueue} {mem left : μ}
  {elem : VirtQueueElement}

theorem virtqueueGetHead_ok {idx head : Nat}
    (got : virtqueueGetHead access vq idx mem = .ok head) :
    head = (access.availRing mem (idx % vq.vring.num.toNat)).toNat ∧ head < vq.vring.num.toNat := by
  rw [virtqueueGetHead] at got
  split at got
  · cases got
  · cases got
    exact ⟨rfl, by omega⟩

theorem popChain_index {head : Nat} {desc : UInt64 → Nat → VRingDesc}
    (taken : popChain map vq head desc = .ok elem) : elem.index = UInt32.ofNat head := by
  obtain ⟨⟨table, max, first⟩, -, collected⟩ := bind_ok_iff.mp taken
  obtain ⟨bufs, -, mapped⟩ := bind_ok_iff.mp collected
  obtain ⟨inSg, -, mapped⟩ := bind_ok_iff.mp mapped
  obtain ⟨outSg, -, built⟩ := bind_ok_iff.mp mapped
  cases built
  rfl

theorem popHead_ok (taken : popHead access eventIdx map vq mem = .ok (elem, left, after)) :
    ∃ head, virtqueueGetHead access vq vq.lastAvailIdx.toNat mem = .ok head ∧
      elem.index = UInt32.ofNat head ∧
      left = (if eventIdx then vringAvailEvent access vq (access.availIdx mem) mem else mem) ∧
      after = { vq with lastAvailIdx := vq.lastAvailIdx + 1, inuse := vq.inuse + 1 } := by
  obtain ⟨head, got, taken⟩ := bind_ok_iff.mp taken
  obtain ⟨chain, collected, taken⟩ := bind_ok_iff.mp taken
  cases taken
  exact ⟨head, got, popChain_index collected, rfl, rfl⟩

theorem virtqueuePop_heads {heads : Nat}
    (available : virtqueueNumHeads access vq vq.lastAvailIdx mem = .ok heads) :
    virtqueuePop access eventIdx map vq mem =
      if heads = 0 then .ok (none, mem, vq)
      else (popHead access eventIdx map vq mem).map
        fun (elem, mem, vq) => (some elem, mem, vq) := by
  rw [virtqueuePop, available]
  rfl

theorem virtqueuePop_ok {result : Option VirtQueueElement}
    (returned : virtqueuePop access eventIdx map vq mem = .ok (result, left, after)) :
    result = none ∧ left = mem ∧ after = vq ∨
      ∃ elem, result = some elem ∧
        popHead access eventIdx map vq mem = .ok (elem, left, after) := by
  obtain ⟨heads, available, -⟩ := bind_ok_iff.mp returned
  rw [virtqueuePop_heads available] at returned
  split at returned
  · cases returned
    exact .inl ⟨rfl, rfl, rfl⟩
  cases popped : popHead access eventIdx map vq mem with
  | error exit =>
    rw [popped] at returned
    cases returned
  | ok values =>
    rw [popped] at returned
    cases returned
    exact .inr ⟨values.1, rfl, rfl⟩

end Pop

/-! ### Interrupts -/

def vringNeedEvent (event new old : UInt16) : Bool := new - event - 1 < new - old

def emptyNotifies (notifyOnEmpty : Bool) (vq : VirtQueue) (mem : μ) : Bool :=
  notifyOnEmpty && decide (vq.inuse = 0) && decide (access.availIdx mem = vq.lastAvailIdx)

/-- `vring_notify`; `notifyOnEmpty` and `eventIdx` are features of the guest. -/
def vringNotify (notifyOnEmpty eventIdx : Bool) (vq : VirtQueue) (mem : μ) : Bool × VirtQueue :=
  if emptyNotifies access notifyOnEmpty vq mem then (true, vq)
  else if !eventIdx then (decide (access.availFlags mem &&& 1 = 0), vq)
  else
    let new := access.usedIdx mem
    (!vq.signalledUsedValid ||
      vringNeedEvent (access.availRing mem vq.vring.num.toNat) new vq.signalledUsed,
      { vq with signalledUsedValid := true, signalledUsed := new })

end Queue

end VhostUser.Qemu.Virtio
