import VhostUser.Qemu.GuestMemory

/-!
Contract: the queue of a dataplane thread (`hw/virtio/dataplane/vring.c`), which reaches the
rings and the buffers through host pointers.

`vring_pop` packs the buffers of a chain into one array of iovecs and counts the readable and
the writable ones.
-/

namespace VhostUser.Qemu.Virtio

open VhostUser.Lib
open VhostUser.Lib.ByteImage (getLE putLE)
open GuestSpace (HostMemRegion hostmemLookup)

/-! ### Data -/

/-- `struct vring` of `virtio_ring.h`, with host addresses. -/
structure HostVring where
  num : UInt32
  desc : UInt64
  avail : UInt64
  used : UInt64
deriving DecidableEq, Repr

structure Vring where
  hostmem : List HostMemRegion
  vr : HostVring
  lastAvailIdx : UInt16
  lastUsedIdx : UInt16
  signalledUsed : UInt16
  signalledUsedValid : Bool
  broken : Bool
deriving DecidableEq, Repr

structure Iovec where
  iovBase : UInt64
  iovLen : UInt32
deriving DecidableEq, Repr

/-- The iovecs that are filled, the position of `iov` in the array, and how many are readable and
writable. -/
structure Gathered where
  array : List Iovec
  iov : Nat
  outNum : Nat
  inNum : Nat
deriving DecidableEq, Repr

namespace Gathered

def empty : Gathered := ⟨[], 0, 0, 0⟩

def fill (gathered : Gathered) (iovec : Iovec) : Gathered :=
  { gathered with
    array := gathered.array.take gathered.iov ++ iovec :: gathered.array.drop (gathered.iov + 1)
    iov := gathered.iov + 1 }

def readable (gathered : Gathered) : List Iovec := gathered.array.take gathered.outNum

def writable (gathered : Gathered) : List Iovec :=
  (gathered.array.drop gathered.outNum).take gathered.inNum

end Gathered

inductive VringFault where
  | broken
  | ringUnmapped (addr size : UInt64)
  | movedIndex (last avail : UInt16)
  | badHead (head num : Nat)
  | badIndex (i num head : Nat)
  | looped (i num head : Nat)
  | bufferUnmapped (addr : UInt64) (len : UInt32)
  | outAfterIn (i : Nat)
  | indirectLength (len : UInt32)
  | indirectTooBig (len : UInt32)
  | tableUnmapped (addr : UInt64)
  | tableLooped (i count : Nat)
  | nested
  | tableBufferUnmapped (addr : UInt64) (len : UInt32)
  | tableOutAfterIn (i : Nat)
deriving DecidableEq, Repr

/-- The negative results of `vring_pop`: `-EAGAIN`, `-ENOBUFS` and `-EFAULT`. -/
inductive PopError where
  | again
  | noBuffers
  | fault (fault : VringFault)
deriving DecidableEq, Repr

/-! ### Setting the queue up -/

def ringSize (vring : VRing) : UInt64 :=
  vring.used - vring.desc + (4 + 8 * vring.num.toUInt64)

def vringInit (num : UInt32) (ptr : UInt64) : HostVring :=
  let avail := ptr + 16 * num.toUInt64
  ⟨num, ptr, avail, vringAlign (avail + (4 + 2 * num.toUInt64) + 2) 4096⟩

def vringSetup (space : GuestSpace) (vq : VirtQueue) (mem : HostMemory) : Except VringFault Vring :=
  match hostmemLookup space.hostmemInit vq.vring.desc (ringSize vq.vring) true with
  | none => .error (.ringUnmapped vq.vring.desc (ringSize vq.vring))
  | some ptr =>
    let vr := vringInit vq.vring.num ptr
    .ok ⟨space.hostmemInit, vr, vq.lastAvailIdx, .ofNat (getLE mem (vr.used + 2).toNat 2),
      0, false, false⟩

/-! ### Taking an element -/

def hostDesc (mem : HostMemory) (host : UInt64) : VRingDesc :=
  ⟨.ofNat (getLE mem host.toNat 8), .ofNat (getLE mem (host + 8).toNat 4),
    .ofNat (getLE mem (host + 12).toNat 2), .ofNat (getLE mem (host + 14).toNat 2)⟩

def HostVring.availIdx (vr : HostVring) (mem : HostMemory) : UInt16 :=
  .ofNat (getLE mem (vr.avail + 2).toNat 2)

def HostVring.availRing (vr : HostVring) (mem : HostMemory) (i : Nat) : UInt16 :=
  .ofNat (getLE mem (vr.avail + (4 + 2 * UInt64.ofNat i)).toNat 2)

/-- `vring_avail_event(vr) = val`. -/
def HostVring.availEvent (vr : HostVring) (mem : HostMemory) (val : UInt16) : HostMemory :=
  putLE mem (vr.used + (4 + 8 * vr.num.toUInt64)).toNat 2 val.toNat

section Walk

variable (hostmem : List HostMemRegion) (mem : HostMemory) (capacity : Nat)

/-- The part of both loops that fills an iovec, with the faults of the loop. -/
def addIovec (unmapped outAfterIn : VringFault) (desc : VRingDesc) (gathered : Gathered) :
    Except PopError Gathered :=
  if capacity ≤ gathered.iov then .error .noBuffers
  else
    match hostmemLookup hostmem desc.addr desc.len.toUInt64 desc.isWrite with
    | none => .error (.fault unmapped)
    | some base =>
      let gathered := gathered.fill ⟨base, desc.len⟩
      if desc.isWrite then .ok { gathered with inNum := gathered.inNum + 1 }
      else if gathered.inNum ≠ 0 then .error (.fault outAfterIn)
      else .ok { gathered with outNum := gathered.outNum + 1 }

def tableEntry (table : UInt64) (found : Nat) : Except PopError UInt64 :=
  let addr := table + 16 * UInt64.ofNat found
  match hostmemLookup hostmem addr 16 false with
  | none => .error (.fault (.tableUnmapped addr))
  | some host => .ok host

/-- The loop of `get_indirect`. It reads the table by position; the link `i` is only
printed. The budget is what `count` leaves. -/
def getIndirectFrom (table : UInt64) (count : Nat) :
    Nat → Nat → Nat → Gathered → Except PopError Gathered
  | 0, found, i, _ => do
      let _ ← tableEntry hostmem table found
      .error (.fault (.tableLooped i count))
  | budget + 1, found, i, gathered => do
      let host ← tableEntry hostmem table found
      let desc := hostDesc mem host
      if desc.isIndirect then .error (.fault .nested)
      else do
        let gathered ← addIovec hostmem capacity (.tableBufferUnmapped desc.addr desc.len)
          (.tableOutAfterIn i) desc gathered
        if desc.hasNext then
          getIndirectFrom table count budget (found + 1) desc.next.toNat gathered
        else .ok gathered

def getIndirect (indirect : VRingDesc) (gathered : Gathered) : Except PopError Gathered :=
  let count := indirect.len.toNat / 16
  if indirect.len.toNat % 16 ≠ 0 then .error (.fault (.indirectLength indirect.len))
  else if 65536 < count then .error (.fault (.indirectTooBig indirect.len))
  else getIndirectFrom hostmem mem capacity indirect.addr count count 0 0 gathered

def checkIndex (vr : HostVring) (head i : Nat) : Except PopError Unit :=
  if vr.num.toNat ≤ i then .error (.fault (.badIndex i vr.num.toNat head)) else .ok ()

/-- The loop of `vring_pop`, from descriptor `i` on, with what `num` leaves. After an INDIRECT
descriptor `continue` skips the step to the next one; `get_indirect` has a copy of `iov`, so the
loop goes on at its own. -/
def vringWalk (vr : HostVring) (head : Nat) : Nat → Nat → Gathered → Except PopError Gathered
  | 0, i, _ => do
      checkIndex vr head i
      .error (.fault (.looped i vr.num.toNat head))
  | budget + 1, i, gathered => do
      checkIndex vr head i
      let desc := hostDesc mem (vr.desc + 16 * UInt64.ofNat i)
      if desc.isIndirect then do
        let expanded ← getIndirect hostmem mem capacity desc gathered
        let gathered := { expanded with iov := gathered.iov }
        if desc.hasNext then vringWalk vr head budget i gathered else .ok gathered
      else do
        let gathered ← addIovec hostmem capacity (.bufferUnmapped desc.addr desc.len)
          (.outAfterIn i) desc gathered
        if desc.hasNext then vringWalk vr head budget desc.next.toNat gathered else .ok gathered

end Walk

/-- The head of the next element, by the checks before the loop. -/
def vringHead (vring : Vring) (mem : HostMemory) : Except PopError Nat :=
  let num := vring.vr.num.toNat
  let availIdx := vring.vr.availIdx mem
  if vring.broken then .error (.fault .broken)
  else if num < (availIdx - vring.lastAvailIdx).toNat then
    .error (.fault (.movedIndex vring.lastAvailIdx availIdx))
  else if availIdx = vring.lastAvailIdx then .error .again
  else
    let head := (vring.vr.availRing mem (vring.lastAvailIdx.toNat % num)).toNat
    if num ≤ head then .error (.fault (.badHead head num)) else .ok head

/-- The memory in which `vring_pop` walks the chain. -/
def vringEvent (eventIdx : Bool) (vring : Vring) (mem : HostMemory) : HostMemory :=
  if eventIdx then vring.vr.availEvent mem (vring.vr.availIdx mem) else mem

/-- What `vring_pop` leaves in the queue. -/
def Vring.settle (vring : Vring) : Except PopError (Nat × Gathered) → Vring
  | .ok _ => { vring with lastAvailIdx := vring.lastAvailIdx + 1 }
  | .error (.fault _) => { vring with broken := true }
  | .error _ => vring

/-- `vring_pop`, with room for `capacity` iovecs. -/
def vringPop (eventIdx : Bool) (capacity : Nat) (vring : Vring) (mem : HostMemory) :
    Except PopError (Nat × Gathered) × HostMemory × Vring :=
  match vringHead vring mem with
  | .error error => (.error error, mem, vring.settle (.error error))
  | .ok head =>
    let mem := vringEvent eventIdx vring mem
    let result := (vringWalk vring.hostmem mem capacity vring.vr head vring.vr.num.toNat head
      .empty).map fun gathered => (head, gathered)
    (result, mem, vring.settle result)

/-! ### Giving elements back -/

section Push

variable {μ : Type} (access : RingAccess μ)

/-- `vring_push`, on rings behind `access`. -/
def vringPush (vring : Vring) (head len : UInt32) (mem : μ) : μ × Vring :=
  if vring.broken then (mem, vring)
  else
    let slot := vring.lastUsedIdx.toNat % vring.vr.num.toNat
    let mem := access.usedRingLen (access.usedRingId mem slot head) slot len
    let new := vring.lastUsedIdx + 1
    (access.usedIdxSet mem new,
      { vring with
        lastUsedIdx := new
        signalledUsedValid :=
          if signed (new - vring.signalledUsed) < 1 then false else vring.signalledUsedValid })

/-- `vring_should_notify`. The source takes the numbers of the features for masks. -/
def vringShouldNotify (features : UInt32) (vring : Vring) (mem : μ) : Bool × Vring :=
  if features &&& 24 ≠ 0 ∧ access.availIdx mem = vring.lastAvailIdx then (true, vring)
  else if features &&& 29 = 0 then (decide (access.availFlags mem &&& 1 = 0), vring)
  else
    (!vring.signalledUsedValid || vringNeedEvent (access.availRing mem vring.vr.num.toNat)
      vring.lastUsedIdx vring.signalledUsed,
      { vring with signalledUsedValid := true, signalledUsed := vring.lastUsedIdx })

end Push

section Accepted

variable {hostmem : List HostMemRegion} {mem : HostMemory} {capacity budget i : Nat}
  {gathered final : Gathered}

theorem addIovec_ok {desc : VRingDesc} {unmapped outAfterIn : VringFault}
    (filled : addIovec hostmem capacity unmapped outAfterIn desc gathered = .ok final) :
    ∃ base, hostmemLookup hostmem desc.addr desc.len.toUInt64 desc.isWrite = some base ∧
      (desc.isWrite = false → gathered.inNum = 0) ∧
      final = if desc.isWrite then
          { gathered.fill ⟨base, desc.len⟩ with inNum := gathered.inNum + 1 }
        else { gathered.fill ⟨base, desc.len⟩ with outNum := gathered.outNum + 1 } := by
  rw [addIovec] at filled
  split at filled
  · cases filled
  split at filled
  · cases filled
  next base lookup =>
    refine ⟨base, lookup, ?_⟩
    dsimp only at filled
    split at filled
    next write =>
      cases filled
      simp [write, Gathered.fill]
    next read =>
      split at filled
      · cases filled
      next none =>
        cases filled
        exact ⟨fun _ => not_not.mp none, by simp [read, Gathered.fill]⟩

theorem tableEntry_ok {table host : UInt64} {found : Nat}
    (entry : tableEntry hostmem table found = .ok host) :
    hostmemLookup hostmem (table + 16 * .ofNat found) 16 false = some host := by
  rw [tableEntry] at entry
  split at entry
  · cases entry
  next lookup =>
    cases entry
    exact lookup

theorem getIndirectFrom_ok {table : UInt64} {count found : Nat}
    (walked : getIndirectFrom hostmem mem capacity table count (budget + 1) found i gathered =
      .ok final) :
    ∃ host unmapped outAfterIn mid,
      hostmemLookup hostmem (table + 16 * .ofNat found) 16 false = some host ∧
      addIovec hostmem capacity unmapped outAfterIn (hostDesc mem host) gathered = .ok mid ∧
      ((hostDesc mem host).hasNext = true → getIndirectFrom hostmem mem capacity table count budget
        (found + 1) (hostDesc mem host).next.toNat mid = .ok final) ∧
      ((hostDesc mem host).hasNext = false → final = mid) := by
  obtain ⟨host, entry, walked⟩ := bind_ok_iff.mp walked
  dsimp only at walked
  split at walked
  · cases walked
  obtain ⟨mid, added, rest⟩ := bind_ok_iff.mp walked
  refine ⟨host, _, _, mid, tableEntry_ok entry, added, fun more => ?_, fun last => ?_⟩
  · rwa [if_pos more] at rest
  · rw [last] at rest
    cases rest
    rfl

variable {vr : HostVring} {head : Nat}

theorem vringWalk_inside
    (walked : vringWalk hostmem mem capacity vr head (budget + 1) i gathered = .ok final) :
    i < vr.num.toNat := by
  obtain ⟨⟨⟩, checked, -⟩ := bind_ok_iff.mp walked
  rw [checkIndex] at checked
  split at checked
  · cases checked
  · omega

theorem vringWalk_plain (plain : (hostDesc mem (vr.desc + 16 * .ofNat i)).isIndirect = false)
    (walked : vringWalk hostmem mem capacity vr head (budget + 1) i gathered = .ok final) :
    ∃ unmapped outAfterIn mid,
      addIovec hostmem capacity unmapped outAfterIn (hostDesc mem (vr.desc + 16 * .ofNat i))
        gathered = .ok mid ∧
      ((hostDesc mem (vr.desc + 16 * .ofNat i)).hasNext = true →
        vringWalk hostmem mem capacity vr head budget
          (hostDesc mem (vr.desc + 16 * .ofNat i)).next.toNat mid = .ok final) ∧
      ((hostDesc mem (vr.desc + 16 * .ofNat i)).hasNext = false → final = mid) := by
  obtain ⟨-, -, walked⟩ := bind_ok_iff.mp walked
  rw [if_neg (ne_true_of_eq_false plain)] at walked
  obtain ⟨mid, added, rest⟩ := bind_ok_iff.mp walked
  refine ⟨_, _, mid, added, fun more => ?_, fun last => ?_⟩
  · rwa [if_pos more] at rest
  · rw [last] at rest
    cases rest
    rfl

/-- `vring_pop` expands an INDIRECT descriptor and ends there: with the flag NEXT it stays at it
until its budget is used up. -/
theorem vringWalk_indirect
    (indirect : (hostDesc mem (vr.desc + 16 * .ofNat i)).isIndirect = true)
    (walked : vringWalk hostmem mem capacity vr head budget i gathered = .ok final) :
    ∃ expanded, getIndirect hostmem mem capacity (hostDesc mem (vr.desc + 16 * .ofNat i))
        gathered = .ok expanded ∧
      final = { expanded with iov := gathered.iov } ∧
      (hostDesc mem (vr.desc + 16 * .ofNat i)).hasNext = false := by
  induction budget generalizing gathered with
  | zero =>
    obtain ⟨-, -, looped⟩ := bind_ok_iff.mp walked
    cases looped
  | succ left ih =>
    obtain ⟨-, -, walked⟩ := bind_ok_iff.mp walked
    rw [if_pos indirect] at walked
    obtain ⟨expanded, result, rest⟩ := bind_ok_iff.mp walked
    cases more : (hostDesc mem (vr.desc + 16 * .ofNat i)).hasNext with
    | true =>
      -- the same descriptor again, with a smaller budget
      rw [if_pos more] at rest
      obtain ⟨-, -, -, ends⟩ := ih rest
      rw [more] at ends
      cases ends
    | false =>
      rw [more] at rest
      cases rest
      exact ⟨expanded, result, rfl, rfl⟩

end Accepted

section Pops

variable {space : GuestSpace} {eventIdx : Bool} {capacity head : Nat} {vq : VirtQueue}
  {vring after : Vring} {mem right : HostMemory} {gathered : Gathered}

theorem vringSetup_ok (ready : vringSetup space vq mem = .ok vring) :
    ∃ ptr, hostmemLookup space.hostmemInit vq.vring.desc (ringSize vq.vring) true = some ptr ∧
      vring.hostmem = space.hostmemInit ∧ vring.vr = vringInit vq.vring.num ptr ∧
      vring.lastAvailIdx = vq.lastAvailIdx := by
  rw [vringSetup] at ready
  split at ready
  · cases ready
  next ptr lookup =>
    cases ready
    exact ⟨ptr, lookup, rfl, rfl, rfl⟩

theorem vringHead_ok (got : vringHead vring mem = .ok head) :
    head = (vring.vr.availRing mem (vring.lastAvailIdx.toNat % vring.vr.num.toNat)).toNat ∧
      head < vring.vr.num.toNat := by
  rw [vringHead] at got
  dsimp only at got
  repeat
    split at got
    · cases got
  cases got
  exact ⟨rfl, by omega⟩

theorem vringPop_ok
    (popped : vringPop eventIdx capacity vring mem = (.ok (head, gathered), right, after)) :
    vringHead vring mem = .ok head ∧
      vringWalk vring.hostmem (vringEvent eventIdx vring mem) capacity vring.vr head
        vring.vr.num.toNat head .empty = .ok gathered ∧
      after = { vring with lastAvailIdx := vring.lastAvailIdx + 1 } := by
  rw [vringPop] at popped
  split at popped
  · cases popped
  next first got =>
    cases walked : vringWalk vring.hostmem (vringEvent eventIdx vring mem) capacity vring.vr first
        vring.vr.num.toNat first .empty with
    | error error =>
      simp only [walked] at popped
      cases popped
    | ok result =>
      simp only [walked] at popped
      cases popped
      exact ⟨got, walked, rfl⟩

end Pops

end VhostUser.Qemu.Virtio
