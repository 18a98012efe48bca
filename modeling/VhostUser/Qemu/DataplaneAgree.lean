import VhostUser.Lib.BitWord
import VhostUser.Qemu.Dataplane
import Mathlib.Data.List.Forall2

/-!
Contract: the dataplane and `virtqueue_pop` on one queue.

The two reach the same bytes of the rings and of the buffers. They walk chains differently: an
INDIRECT descriptor is expanded by `virtqueue_pop` at the head of a chain only, and the entries
of its table are taken by their links; the dataplane expands it everywhere and takes the
entries by position.

Owns: the descriptors that each of them goes through, and when both return the same element.
-/

namespace VhostUser.Qemu.Virtio

open VhostUser.Lib
open VhostUser.Lib.ByteImage (getLE putLE)
open GuestSpace (HostMemRegion hostmemLookup hostmemLookup_direct)

/-! ### The layout of the ring -/

theorem vringAlign_eq (addr align : UInt64) :
    ∃ pad : UInt64, pad.toNat ≤ (align - 1).toNat ∧ vringAlign addr align = addr + pad := by
  have rounded := BitWord.and_not_add_and (addr + align - 1) (align - 1)
  have small : ((addr + align - 1) &&& (align - 1)).toNat ≤ (align - 1).toNat := by
    rw [UInt64.toNat_and]
    exact Nat.and_le_right
  refine ⟨align - 1 - ((addr + align - 1) &&& (align - 1)), ?_, ?_⟩
  · rw [UInt64.toNat_sub_of_le _ _ (UInt64.le_iff_toNat_le.mpr small)]
    omega
  · rw [vringAlign]
    grind

variable {vq : VirtQueue} {elem : VirtQueueElement}

/-- The part of the ring that `vring_setup` looks up has the descriptors and the available
ring. -/
theorem ringSize_covers (aligned : vq.vring.align ≠ 0) :
    18 * vq.vring.num.toNat + 4 ≤ (ringSize (virtqueueInit vq).vring).toNat := by
  obtain ⟨pad, small, used⟩ := vringAlign_eq
    (vq.pa + vq.vring.num.toUInt64 * 16 + (4 + 2 * vq.vring.num.toUInt64)) vq.vring.align.toUInt64
  -- the addresses may wrap, the difference of `used` and `desc` does not
  have size : ringSize (virtqueueInit vq).vring =
      18 * vq.vring.num.toUInt64 + 4 + pad + (4 + 8 * vq.vring.num.toUInt64) := by
    simp only [ringSize, virtqueueInit, used]
    grind
  have positive : 0 < vq.vring.align.toNat := UInt32.pos_iff_ne_zero.mpr aligned
  have := UInt32.toNat_lt vq.vring.align
  have := UInt32.toNat_lt vq.vring.num
  have padded : pad.toNat < 2 ^ 32 := by
    rw [UInt64.toNat_sub, UInt32.toNat_toUInt64, UInt64.toNat_one] at small
    omega
  rw [size]
  simp only [UInt64.toNat_add, UInt64.toNat_mul, UInt32.toNat_toUInt64, UInt64.reduceToNat]
  simp (disch := omega) only [Nat.mod_eq_of_lt]
  omega

section Bytes

variable {space : GuestSpace} {mem : HostMemory} {phys len host table : UInt64} {isWrite : Bool}
  {i : Nat}

theorem directRam_read {addr ram : UInt64} (direct : space.directRam addr isWrite = some ram) :
    space.directRam addr false = some ram := by
  cases isWrite with
  | false => exact direct
  | true =>
    rw [GuestSpace.directRam] at direct ⊢
    split at direct
    · simp only [Bool.true_and, Option.ite_none_right_eq_some, Bool.and_eq_true,
        Option.some.injEq] at direct
      simp [direct.1.1, direct.2]
    · cases direct

theorem load_host {k : Nat} (width : Nat)
    (found : hostmemLookup space.hostmemInit phys len isWrite = some host)
    (inside : k < len.toNat) :
    space.load mem (phys + .ofNat k) width = getLE mem (host + .ofNat k).toNat width := by
  obtain ⟨ram, direct, pointer⟩ := hostmemLookup_direct found (.inr inside)
  rw [GuestSpace.load, directRam_read direct, ← pointer]

theorem desc_host
    (loads : ∀ k width, k < 16 → space.load mem (table + 16 * .ofNat i + .ofNat k) width =
      getLE mem (host + .ofNat k).toNat width) : space.desc mem table i = hostDesc mem host := by
  have first := loads 0 8 (by decide)
  rw [show UInt64.ofNat 0 = 0 from rfl, UInt64.add_zero, UInt64.add_zero] at first
  have second : space.load mem (table + 16 * .ofNat i + 8) 4 = getLE mem (host + 8).toNat 4 :=
    loads 8 4 (by decide)
  have third : space.load mem (table + 16 * .ofNat i + 12) 2 = getLE mem (host + 12).toNat 2 :=
    loads 12 2 (by decide)
  have fourth : space.load mem (table + 16 * .ofNat i + 14) 2 = getLE mem (host + 14).toNat 2 :=
    loads 14 2 (by decide)
  rw [GuestSpace.desc, hostDesc, first, second, third, fourth]

theorem desc_entry
    (found : hostmemLookup space.hostmemInit (table + 16 * .ofNat i) 16 isWrite = some host) :
    space.desc mem table i = hostDesc mem host :=
  desc_host fun _ width inside => load_host width found inside

theorem desc_ring (found : hostmemLookup space.hostmemInit phys len isWrite = some host)
    (inside : 16 * i + 16 ≤ len.toNat) :
    space.desc mem phys i = hostDesc mem (host + 16 * .ofNat i) := by
  refine desc_host fun k width small => ?_
  have offset : UInt64.ofNat (16 * i + k) = 16 * UInt64.ofNat i + UInt64.ofNat k := by
    rw [UInt64.ofNat_add, UInt64.ofNat_mul]
    rfl
  have loaded : space.load mem (phys + .ofNat (16 * i + k)) width =
      getLE mem (host + .ofNat (16 * i + k)).toNat width :=
    load_host width found (by omega)
  rwa [offset, ← UInt64.add_assoc, ← UInt64.add_assoc] at loaded

end Bytes

/-! ### The walks -/

/-- The descriptors from `i` on, each where the link of the one before it says. -/
def linkedDescs (desc : Nat → VRingDesc) : Nat → Nat → List VRingDesc
  | 0, _ => []
  | budget + 1, i =>
    desc i :: if (desc i).hasNext then linkedDescs desc budget (desc i).next.toNat else []

/-- The descriptors from `i` on, one behind the other, whatever the links say. -/
def listedDescs (desc : Nat → VRingDesc) : Nat → Nat → List VRingDesc
  | 0, _ => []
  | budget + 1, i => desc i :: if (desc i).hasNext then listedDescs desc budget (i + 1) else []

section

variable (space : GuestSpace) (mem : HostMemory)

/-- What `virtqueue_pop` goes through: the links of the ring, or of the table that the head has. -/
def poppedDescs (vring : VRing) (head : Nat) : List VRingDesc :=
  let first := space.desc mem vring.desc head
  if first.isIndirect then linkedDescs (space.desc mem first.addr) (first.len.toNat / 16) 0
  else linkedDescs (space.desc mem vring.desc) vring.num.toNat head

/-- What the dataplane goes through: the links of the ring up to an INDIRECT descriptor, and its
table. -/
def expandedDescs (table : UInt64) : Nat → Nat → List VRingDesc
  | 0, _ => []
  | budget + 1, i =>
    let desc := space.desc mem table i
    if desc.isIndirect then listedDescs (space.desc mem desc.addr) (desc.len.toNat / 16) 0
    else desc :: if desc.hasNext then expandedDescs table budget desc.next.toNat else []

end

def Collected.add (bufs : Collected) (desc : VRingDesc) : Collected :=
  if desc.isWrite then { bufs with inBufs := bufs.inBufs ++ [(desc.addr, desc.len)] }
  else { bufs with outBufs := bufs.outBufs ++ [(desc.addr, desc.len)] }

def buffersOf (descs : List VRingDesc) : Collected := descs.foldl Collected.add ⟨[], []⟩

/-- Where the buffers are in the host, with their lengths. -/
def hostBuffers (space : GuestSpace) (isWrite : Bool) (bufs : List (UInt64 × UInt32)) :
    List (Option UInt64 × UInt32) :=
  bufs.map fun buf => ((space.map buf.1 buf.2.toUInt64 isWrite).map Prod.fst, buf.2)

/-- The descriptors describe the same readable buffers and the same writable ones. -/
abbrev SameBuffers (space : GuestSpace) (one two : List VRingDesc) : Prop :=
  hostBuffers space false (buffersOf one).outBufs =
      hostBuffers space false (buffersOf two).outBufs ∧
    hostBuffers space true (buffersOf one).inBufs = hostBuffers space true (buffersOf two).inBufs

theorem expandedDescs_plain {space : GuestSpace} {mem : HostMemory} {table : UInt64}
    {budget i : Nat}
    (plain : ∀ desc ∈ linkedDescs (space.desc mem table) budget i, desc.isIndirect = false) :
    expandedDescs space mem table budget i = linkedDescs (space.desc mem table) budget i := by
  induction budget generalizing i with
  | zero => rfl
  | succ budget ih =>
    rw [linkedDescs] at plain ⊢
    obtain ⟨first, rest⟩ := List.forall_mem_cons.mp plain
    rw [expandedDescs, if_neg (ne_true_of_eq_false first)]
    split at rest
    next more => rw [if_pos more, if_pos more, ih rest]
    next last => rw [if_neg last, if_neg last]

theorem collect_linked {desc : Nat → VRingDesc} {max budget i : Nat} {bufs next : Collected}
    (collected : collect desc max budget i bufs = .ok next) :
    next = (linkedDescs desc budget i).foldl Collected.add bufs := by
  induction budget generalizing i bufs with
  | zero =>
    obtain ⟨_, -, looped⟩ := bind_ok_iff.mp collected
    cases looped
  | succ budget ih =>
    obtain ⟨mid, added, more, last⟩ := collect_ok collected
    rw [linkedDescs, List.foldl_cons, Collected.add, ← addDesc_ok added]
    split
    next links => exact ih (more links).2
    next ends => exact last (Bool.eq_false_of_not_eq_true ends)

/-! ### Buffers and iovecs -/

/-- The array has the readable iovecs, then the writable ones, and `iov` is behind them. -/
structure Packed (gathered : Gathered) (outs ins : List Iovec) : Prop where
  array : gathered.array = outs ++ ins
  iov : gathered.iov = gathered.array.length
  outNum : gathered.outNum = outs.length
  inNum : gathered.inNum = ins.length

namespace Packed

variable {gathered : Gathered} {outs ins : List Iovec}

section

variable (packed : Packed gathered outs ins) (iovec : Iovec)
include packed iovec

theorem fill_array : (gathered.fill iovec).array = outs ++ ins ++ [iovec] := by
  rw [← packed.array]
  simp [Gathered.fill, packed.iov]

theorem fill_iov : (gathered.fill iovec).iov = (gathered.fill iovec).array.length := by
  rw [packed.fill_array, ← packed.array, List.length_append, ← packed.iov]
  rfl

theorem fill_in :
    Packed { gathered.fill iovec with inNum := gathered.inNum + 1 } outs (ins ++ [iovec]) where
  array := (packed.fill_array iovec).trans (List.append_assoc outs ins [iovec])
  iov := packed.fill_iov iovec
  outNum := packed.outNum
  inNum := by rw [List.length_append, ← packed.inNum]; rfl

end

theorem fill_out (packed : Packed gathered outs []) (iovec : Iovec) :
    Packed { gathered.fill iovec with outNum := gathered.outNum + 1 } (outs ++ [iovec]) [] where
  array := by rw [packed.fill_array, List.append_nil, List.append_nil]
  iov := packed.fill_iov iovec
  outNum := by rw [List.length_append, ← packed.outNum]; rfl
  inNum := packed.inNum

theorem readable (packed : Packed gathered outs ins) : gathered.readable = outs := by
  rw [Gathered.readable, packed.array, packed.outNum, List.take_left]

theorem writable (packed : Packed gathered outs ins) : gathered.writable = ins := by
  rw [Gathered.writable, packed.array, packed.outNum, packed.inNum, List.drop_left,
    List.take_length]

end Packed

def Looked (hostmem : List HostMemRegion) (isWrite : Bool) (buf : UInt64 × UInt32)
    (iovec : Iovec) : Prop :=
  hostmemLookup hostmem buf.1 buf.2.toUInt64 isWrite = some iovec.iovBase ∧ iovec.iovLen = buf.2

def Gathers (hostmem : List HostMemRegion) (bufs : Collected) (gathered : Gathered) : Prop :=
  ∃ outs ins, Packed gathered outs ins ∧
    List.Forall₂ (Looked hostmem false) bufs.outBufs outs ∧
    List.Forall₂ (Looked hostmem true) bufs.inBufs ins

section Gathers

variable {hostmem : List HostMemRegion} {capacity : Nat} {bufs : Collected}
  {gathered final : Gathered}

theorem Gathers.add {desc : VRingDesc} {unmapped outAfterIn : VringFault}
    (gathers : Gathers hostmem bufs gathered)
    (filled : addIovec hostmem capacity unmapped outAfterIn desc gathered = .ok final) :
    Gathers hostmem (bufs.add desc) final := by
  obtain ⟨outs, ins, packed, readable, writable⟩ := gathers
  obtain ⟨base, lookup, first, rfl⟩ := addIovec_ok filled
  rw [Collected.add]
  cases write : desc.isWrite with
  | true =>
    rw [write] at lookup
    exact ⟨outs, _, packed.fill_in _, readable, List.rel_append writable (.cons ⟨lookup, rfl⟩ .nil)⟩
  | false =>
    rw [write] at lookup
    -- a readable buffer is only accepted before the first writable one
    obtain rfl : ins = [] := List.length_eq_zero_iff.mp (packed.inNum ▸ first write)
    exact ⟨_, [], packed.fill_out _, List.rel_append readable (.cons ⟨lookup, rfl⟩ .nil), writable⟩

end Gathers

def Segment.iovec (segment : Segment) : Iovec := ⟨segment.iovBase, segment.iovLen⟩

section Agree

variable {space : GuestSpace} {left right : HostMemory} {capacity head budget i : Nat}
  {bufs : Collected} {gathered final : Gathered} {vr : HostVring} {phys : UInt64}
  {isWrite : Bool} {vq : VirtQueue}

/-- `get_indirect` gathers the entries of its table one behind the other. -/
theorem Gathers.table {table : UInt64} {count found : Nat}
    (gathers : Gathers space.hostmemInit bufs gathered)
    (walked : getIndirectFrom space.hostmemInit right capacity table count budget found i gathered =
      .ok final) :
    Gathers space.hostmemInit
      ((listedDescs (space.desc right table) budget found).foldl Collected.add bufs) final := by
  induction budget generalizing found i bufs gathered with
  | zero =>
    obtain ⟨_, -, looped⟩ := bind_ok_iff.mp walked
    cases looped
  | succ budget ih =>
    obtain ⟨host, _, _, mid, entry, filled, more, last⟩ := getIndirectFrom_ok walked
    rw [← desc_entry entry] at filled more last
    rw [listedDescs, List.foldl_cons]
    split
    next links => exact ih (gathers.add filled) (more links)
    next ends =>
      rw [last (Bool.eq_false_of_not_eq_true ends)]
      exact gathers.add filled

/-- `vring_pop` gathers the links of the ring up to a table, and its entries. -/
theorem Gathers.ring
    (ring : ∀ i < vr.num.toNat, space.desc right phys i = hostDesc right (vr.desc + 16 * .ofNat i))
    (gathers : Gathers space.hostmemInit bufs gathered)
    (walked : vringWalk space.hostmemInit right capacity vr head budget i gathered = .ok final) :
    ∃ expanded, Gathers space.hostmemInit
        ((expandedDescs space right phys budget i).foldl Collected.add bufs) expanded ∧
      final.readable = expanded.readable ∧ final.writable = expanded.writable := by
  induction budget generalizing i bufs gathered with
  | zero =>
    obtain ⟨_, -, looped⟩ := bind_ok_iff.mp walked
    cases looped
  | succ budget ih =>
    have read := ring i (vringWalk_inside walked)
    rw [expandedDescs]
    by_cases indirect : (space.desc right phys i).isIndirect = true
    · -- the dataplane expands the table and stops
      obtain ⟨expanded, expands, rfl, -⟩ := vringWalk_indirect (by rwa [← read]) walked
      rw [← read, getIndirect] at expands
      split at expands
      · cases expands
      split at expands
      · cases expands
      rw [if_pos indirect]
      exact ⟨expanded, gathers.table expands, rfl, rfl⟩
    · have plain := Bool.eq_false_of_not_eq_true indirect
      obtain ⟨_, _, mid, filled, more, last⟩ := vringWalk_plain (by rwa [← read]) walked
      rw [← read] at filled more last
      rw [if_neg indirect, List.foldl_cons]
      split
      next links => exact ih (gathers.add filled) (more links)
      next ends =>
        rw [last (Bool.eq_false_of_not_eq_true ends)]
        exact ⟨mid, gathers.add filled, rfl, rfl⟩

theorem map_looked {len host : UInt64}
    (lookup : hostmemLookup space.hostmemInit phys len isWrite = some host) :
    (space.map phys len isWrite).map Prod.fst = if len = 0 then none else some host := by
  obtain ⟨ram, translated, pointer⟩ := hostmemLookup_direct lookup (.inl rfl)
  rw [show UInt64.ofNat 0 = 0 from rfl, UInt64.add_zero] at translated pointer
  rw [GuestSpace.map, translated]
  split
  · rfl
  · rw [Option.map_some, pointer]

/-- An iovec as `virtqueue_pop` would map it, which maps no empty buffer. -/
def Iovec.mapped (iovec : Iovec) : Option UInt64 × UInt32 :=
  (if iovec.iovLen.toUInt64 = 0 then none else some iovec.iovBase, iovec.iovLen)

theorem hostBuffers_looked {bufs : List (UInt64 × UInt32)} {iovecs : List Iovec}
    (looked : List.Forall₂ (Looked space.hostmemInit isWrite) bufs iovecs) :
    hostBuffers space isWrite bufs = iovecs.map Iovec.mapped := by
  induction looked with
  | nil => rfl
  | cons one _ ih =>
    obtain ⟨lookup, length⟩ := one
    rw [List.map_cons, ← ih, Iovec.mapped, length, ← map_looked lookup]
    rfl

theorem hostBuffers_mapped {bufs : List (UInt64 × UInt32)} {segments : List Segment}
    (mapped : virtqueueMapSg space.map isWrite bufs = .ok segments) :
    hostBuffers space isWrite bufs = (segments.map Segment.iovec).map Iovec.mapped ∧
      ∀ iovec ∈ segments.map Segment.iovec, iovec.iovLen.toUInt64 ≠ 0 := by
  induction bufs generalizing segments with
  | nil =>
    cases mapped
    exact ⟨rfl, List.forall_mem_nil _⟩
  | cons buf bufs ih =>
    rw [virtqueueMapSg] at mapped
    split at mapped
    · cases mapped
    next base len direct =>
      split at mapped
      · cases mapped
      obtain ⟨rest, restMapped, built⟩ := bind_ok_iff.mp mapped
      cases built
      obtain ⟨same, nonempty⟩ := ih restMapped
      have positive : buf.2.toUInt64 ≠ 0 := by
        intro zero
        rw [GuestSpace.map, if_pos zero] at direct
        cases direct
      refine ⟨?_, List.forall_mem_cons.mpr ⟨positive, nonempty⟩⟩
      rw [List.map_cons, List.map_cons, ← same, Segment.iovec, Iovec.mapped, if_neg positive,
        hostBuffers, List.map_cons, direct]
      rfl

theorem mapped_inj {iovecs others : List Iovec}
    (nonempty : ∀ iovec ∈ iovecs, iovec.iovLen.toUInt64 ≠ 0) :
    iovecs.map Iovec.mapped = others.map Iovec.mapped ↔ iovecs = others := by
  refine ⟨fun same => ?_, congrArg _⟩
  induction iovecs generalizing others with
  | nil => exact (List.map_eq_nil_iff.mp same.symm).symm
  | cons iovec rest ih =>
    obtain ⟨first, later⟩ := List.forall_mem_cons.mp nonempty
    cases others with
    | nil => cases same
    | cons other others =>
      obtain ⟨head, tail⟩ := List.cons.inj same
      obtain ⟨base, length⟩ := Prod.mk.inj head
      rw [← length, if_neg first, if_neg first] at base
      have same : iovec = other := by
        cases iovec
        cases length
        cases base
        rfl
      rw [same, ih later tail]

/-- The elements are the same exactly if the descriptors describe the same buffers. -/
theorem chain_agrees (vr : HostVring) (num : vr.num = vq.vring.num)
    (ring : ∀ i < vr.num.toNat, space.desc right vq.vring.desc i = hostDesc right (vr.desc + 16 *
      .ofNat i)) (popped : popChain space.map vq head (space.desc left) = .ok elem)
    (walked : vringWalk space.hostmemInit right capacity vr head vr.num.toNat head .empty = .ok
      final) :
    elem.outSg.map Segment.iovec = final.readable ∧ elem.inSg.map Segment.iovec = final.writable ↔
      SameBuffers space (poppedDescs space left vq.vring head)
        (expandedDescs space right vq.vring.desc vq.vring.num.toNat head) := by
  obtain ⟨⟨table, max, first⟩, started, popped⟩ := bind_ok_iff.mp popped
  obtain ⟨bufs, collected, popped⟩ := bind_ok_iff.mp popped
  obtain ⟨inSg, inMapped, popped⟩ := bind_ok_iff.mp popped
  obtain ⟨outSg, outMapped, built⟩ := bind_ok_iff.mp popped
  cases built
  have links : bufs = buffersOf (poppedDescs space left vq.vring head) := by
    rw [collect_linked collected, poppedDescs]
    rw [chainStart] at started
    split at started
    next plain =>
      cases started
      rw [if_neg (by simpa using plain)]
      rfl
    next indirect =>
      split at started
      · cases started
      cases started
      rw [if_pos (by simpa using indirect)]
      rfl
  have start : Gathers space.hostmemInit ⟨[], []⟩ .empty :=
    ⟨[], [], ⟨rfl, rfl, rfl, rfl⟩, .nil, .nil⟩
  obtain ⟨expanded, ⟨outs, ins, packed, readable, writable⟩, sameOut, sameIn⟩ :=
    start.ring ring walked
  rw [num] at readable writable
  obtain ⟨outHosts, outFull⟩ := hostBuffers_mapped outMapped
  obtain ⟨inHosts, inFull⟩ := hostBuffers_mapped inMapped
  rw [sameOut, sameIn, packed.readable, packed.writable, SameBuffers, ← links, outHosts, inHosts,
    buffersOf, hostBuffers_looked readable, hostBuffers_looked writable, mapped_inj outFull,
    mapped_inj inFull]

end Agree

/-! ### The same element -/

def virtqueueEvent (space : GuestSpace) (eventIdx : Bool) (vq : VirtQueue) (mem : HostMemory) :
    HostMemory :=
  let access := space.access vq.vring
  if eventIdx then vringAvailEvent access vq (access.availIdx mem) mem else mem

def nextHead (space : GuestSpace) (vq : VirtQueue) (mem : HostMemory) : Nat :=
  ((space.access vq.vring).availRing mem (vq.lastAvailIdx.toNat % vq.vring.num.toNat)).toNat

/-- If both accept the next entry, the descriptors that `virtqueue_pop` and the dataplane go
through, each with its own avail event, describe the same buffers. -/
def NextAlike (space : GuestSpace) (eventIdx : Bool) (capacity : Nat) (vq : VirtQueue)
    (mem : HostMemory) : Prop :=
  ∀ vring, vringSetup space vq mem = .ok vring →
    (∃ elem left after, virtqueuePop (space.access vq.vring) eventIdx space.map vq mem =
      .ok (some elem, left, after)) →
    (∃ entry, (vringPop eventIdx capacity vring mem).1 = .ok entry) →
    SameBuffers space
      (poppedDescs space (virtqueueEvent space eventIdx vq mem) vq.vring (nextHead space vq mem))
      (expandedDescs space (vringEvent eventIdx vring mem) vq.vring.desc vq.vring.num.toNat
        (nextHead space vq mem))

/-- If both accept the next entry, they return the same element and advance by one. -/
def PopsAgree (space : GuestSpace) (eventIdx : Bool) (capacity : Nat) (vq : VirtQueue)
    (mem : HostMemory) : Prop :=
  ∀ vring elem left after head gathered right vringAfter,
    vringSetup space vq mem = .ok vring →
    virtqueuePop (space.access vq.vring) eventIdx space.map vq mem = .ok (some elem, left, after) →
    vringPop eventIdx capacity vring mem = (.ok (head, gathered), right, vringAfter) →
    elem.index.toNat = head ∧
      elem.outSg.map Segment.iovec = gathered.readable ∧
      elem.inSg.map Segment.iovec = gathered.writable ∧
      after.lastAvailIdx = vq.lastAvailIdx + 1 ∧
      vringAfter.lastAvailIdx = vq.lastAvailIdx + 1

/-- Without event indices, a chain without INDIRECT descriptors is alike. -/
theorem nextAlike_plain {space : GuestSpace} {mem : HostMemory} (capacity : Nat)
    (some : 0 < vq.vring.num.toNat)
    (plain : ∀ desc ∈ linkedDescs (space.desc mem vq.vring.desc) vq.vring.num.toNat
      (nextHead space vq mem), desc.isIndirect = false) :
    NextAlike space false capacity vq mem := by
  intro vring _ _ _
  obtain ⟨budget, size⟩ := Nat.exists_eq_add_one.mpr some
  have first : (space.desc mem vq.vring.desc (nextHead space vq mem)).isIndirect = false := by
    refine plain _ ?_
    rw [size, linkedDescs]
    exact List.mem_cons_self
  rw [virtqueueEvent, vringEvent, if_neg Bool.false_ne_true, if_neg Bool.false_ne_true,
    expandedDescs_plain plain, poppedDescs, if_neg (ne_true_of_eq_false first)]
  exact ⟨rfl, rfl⟩

theorem PopsAgree.element {space : GuestSpace} {eventIdx : Bool} {capacity head : Nat}
    {mem : HostMemory} {vring : Vring} {gathered : Gathered}
    (agree : PopsAgree space eventIdx capacity vq mem) (ready : vringSetup space vq mem = .ok vring)
    (taken : (virtqueuePop (space.access vq.vring) eventIdx space.map vq mem).map (·.1) = .ok (some
      elem)) (popped : (vringPop eventIdx capacity vring mem).1 = .ok (head, gathered)) :
    elem.index.toNat = head ∧ elem.outSg.map Segment.iovec = gathered.readable ∧
      elem.inSg.map Segment.iovec = gathered.writable := by
  cases returned : virtqueuePop (space.access vq.vring) eventIdx space.map vq mem with
  | error exit =>
    rw [returned] at taken
    cases taken
  | ok values =>
    rw [returned] at taken
    obtain ⟨result, left, after⟩ := values
    cases taken
    obtain ⟨index, outs, ins, -⟩ := agree vring elem left after head gathered _ _ ready returned
      (Prod.ext popped rfl)
    exact ⟨index, outs, ins⟩

def smallRegions : Regions := fun _ => memoryRegionInitRam 0x10000 0

def smallView : FlatView := [⟨0, 0, ⟨0, 0x10000⟩, 0, true, false⟩]

theorem smallView_generated : generateMemoryTopology smallRegions 1 (some 0) = some smallView := by
  decide +kernel

def smallRam : RamList := ⟨[⟨0x7f0000000000, 0, 0x10000, 5⟩], by decide, by decide, by decide⟩

def smallGuest : GuestSpace :=
  .ofTopology smallRam (fun _ _ => 0) (fun _ _ _ => none)
    (fun _ _ => ⟨_, List.mem_singleton_self _, rfl, le_refl 0x10000⟩) smallView_generated

def smallMemory (scalars : List (Nat × Nat × Nat)) : HostMemory :=
  scalars.foldl (fun mem (addr, width, value) => putLE mem (0x7f0000000000 + addr) width value)
    fun _ => 0

def descScalars (addr : Nat) (desc : VRingDesc) : List (Nat × Nat × Nat) :=
  [(addr, 8, desc.addr.toNat), (addr + 8, 4, desc.len.toNat), (addr + 12, 2, desc.flags.toNat),
    (addr + 14, 2, desc.next.toNat)]

def smallConfig : VirtQueue := ⟨⟨4, 4096, 0, 0, 0⟩, 0x1000, 0, 0, false, true, 0⟩

def smallQueue : VirtQueue := virtqueueInit smallConfig

def smallVring : Vring :=
  ⟨smallGuest.hostmemInit, vringInit 4 0x7f0000001000, 0, 0, 0, false, false⟩

def oneEntry (scalars : List (Nat × Nat × Nat)) : HostMemory :=
  smallMemory ((0x1042, 2, 1) :: scalars)

def laterIndirect : HostMemory := oneEntry
  (descScalars 0x1000 ⟨0x4000, 16, 1, 1⟩ ++ descScalars 0x1010 ⟨0x3000, 16, 4, 0⟩ ++
    descScalars 0x3000 ⟨0x5000, 8, 0, 0⟩)

/-- `virtqueue_pop` returns the table of the second descriptor as a buffer, the dataplane the
buffer in the table. -/
theorem popsAgree_fails_laterIndirect :
    ¬ PopsAgree smallGuest false 4 smallQueue laterIndirect := by
  intro agree
  have ready : vringSetup smallGuest smallQueue laterIndirect = .ok smallVring := by decide +kernel
  have taken : (virtqueuePop (smallGuest.access smallQueue.vring) false smallGuest.map smallQueue
      laterIndirect).map (·.1) = .ok (some ⟨0, [⟨0x4000, 0x7f0000004000, 16⟩,
        ⟨0x3000, 0x7f0000003000, 16⟩], []⟩) := by decide +kernel
  have popped : (vringPop false 4 smallVring laterIndirect).1 =
      .ok (0, ⟨[⟨0x7f0000004000, 16⟩, ⟨0x7f0000005000, 8⟩], 1, 2, 0⟩) := by decide +kernel
  obtain ⟨-, outs, -⟩ := agree.element ready taken popped
  exact absurd outs (by decide)

section Pops

variable {space : GuestSpace} {eventIdx : Bool} {capacity head : Nat} {vq : VirtQueue}
  {vring after : Vring} {mem right : HostMemory} {gathered : Gathered}

theorem ring_host {ptr : UInt64} (aligned : vq.vring.align ≠ 0) (mem : HostMemory)
    (lookup : hostmemLookup space.hostmemInit (virtqueueInit vq).vring.desc
      (ringSize (virtqueueInit vq).vring) true = some ptr) {i : Nat}
    (inside : i < vq.vring.num.toNat) :
    space.desc mem (virtqueueInit vq).vring.desc i = hostDesc mem (ptr + 16 * .ofNat i) ∧
      (space.access (virtqueueInit vq).vring).availRing mem i =
        (vringInit vq.vring.num ptr).availRing mem i := by
  have covers := ringSize_covers aligned
  refine ⟨desc_ring lookup (by omega), ?_⟩
  have offset : UInt64.ofNat (16 * vq.vring.num.toNat + (4 + 2 * i)) =
      16 * vq.vring.num.toUInt64 + (4 + 2 * UInt64.ofNat i) := by
    rw [UInt64.ofNat_add, UInt64.ofNat_add, UInt64.ofNat_mul, UInt64.ofNat_mul,
      UInt64.ofNat_uInt32ToNat]
    rfl
  have guest : (virtqueueInit vq).vring.avail + (4 + 2 * UInt64.ofNat i) =
      (virtqueueInit vq).vring.desc + UInt64.ofNat (16 * vq.vring.num.toNat + (4 + 2 * i)) := by
    rw [offset]
    simp only [virtqueueInit]
    grind
  have host : (vringInit vq.vring.num ptr).avail + (4 + 2 * UInt64.ofNat i) =
      ptr + UInt64.ofNat (16 * vq.vring.num.toNat + (4 + 2 * i)) := by
    rw [offset]
    simp only [vringInit]
    grind
  simp only [GuestSpace.access, HostVring.availRing]
  rw [guest, host, load_host 2 lookup (by omega)]

/-- Both have the same head and advance by one; their elements are the same exactly if the
descriptors describe the same buffers. -/
theorem accepted_agrees {left : HostMemory} {popped : VirtQueue} (aligned : vq.vring.align ≠ 0)
    (ready : vringSetup space (virtqueueInit vq) mem = .ok vring)
    (taken : virtqueuePop (space.access (virtqueueInit vq).vring) eventIdx space.map (virtqueueInit
      vq) mem = .ok (some elem, left, popped))
    (returned : vringPop eventIdx capacity vring mem = (.ok (head, gathered), right, after)) :
    elem.index.toNat = head ∧ popped.lastAvailIdx = vq.lastAvailIdx + 1 ∧
      after.lastAvailIdx = vq.lastAvailIdx + 1 ∧
      (elem.outSg.map Segment.iovec = gathered.readable ∧
          elem.inSg.map Segment.iovec = gathered.writable ↔
        SameBuffers space
          (poppedDescs space (virtqueueEvent space eventIdx (virtqueueInit vq) mem)
            (virtqueueInit vq).vring (nextHead space (virtqueueInit vq) mem))
          (expandedDescs space (vringEvent eventIdx vring mem) (virtqueueInit vq).vring.desc
            (virtqueueInit vq).vring.num.toNat (nextHead space (virtqueueInit vq) mem))) := by
  obtain ⟨ptr, lookup, hostmem, vr, last⟩ := vringSetup_ok ready
  obtain ⟨got, walked, rfl⟩ := vringPop_ok returned
  obtain ⟨none, -⟩ | ⟨_, some, taken⟩ := virtqueuePop_ok taken
  · cases none
  cases some
  obtain ⟨first, gotVirtio, taken⟩ := bind_ok_iff.mp taken
  obtain ⟨_, chain, taken⟩ := bind_ok_iff.mp taken
  cases taken
  obtain ⟨read, inside⟩ := vringHead_ok got
  rw [hostmem] at walked
  rw [vr, last] at read
  rw [vr] at walked inside
  have positive : 0 < vq.vring.num.toNat := lt_of_le_of_lt (Nat.zero_le head) inside
  have sameHead : nextHead space (virtqueueInit vq) mem = head := by
    rw [read]
    exact congrArg UInt16.toNat (ring_host aligned mem lookup (Nat.mod_lt _ positive)).2
  obtain rfl : first = head := (virtqueueGetHead_ok gotVirtio).1.trans sameHead
  rw [sameHead]
  refine ⟨?_, rfl, by rw [last]; rfl,
    chain_agrees (vringInit vq.vring.num ptr) rfl (fun i small => ?_) chain walked⟩
  · rw [popChain_index chain, UInt32.toNat_ofNat']
    exact Nat.mod_eq_of_lt (inside.trans (UInt32.toNat_lt _))
  · exact (ring_host aligned _ lookup small).1

end Pops

/-- The two return the same element exactly if the descriptors that they go through describe the
same buffers. -/
theorem popsAgree_iff (space : GuestSpace) (eventIdx : Bool) (capacity : Nat) {vq : VirtQueue}
    (mem : HostMemory) (aligned : vq.vring.align ≠ 0) :
    PopsAgree space eventIdx capacity (virtqueueInit vq) mem ↔
      NextAlike space eventIdx capacity (virtqueueInit vq) mem := by
  constructor
  · rintro agree vring ready ⟨elem, left, after, taken⟩ ⟨⟨head, gathered⟩, popped⟩
    have accepted := accepted_agrees aligned ready taken (Prod.ext popped rfl)
    obtain ⟨-, outs, ins, -⟩ := agree _ _ _ _ _ _ _ _ ready taken (Prod.ext popped rfl)
    exact accepted.2.2.2.mp ⟨outs, ins⟩
  · intro alike vring elem left after head gathered right vringAfter ready taken popped
    obtain ⟨index, last, vringLast, same⟩ := accepted_agrees aligned ready taken popped
    obtain ⟨outs, ins⟩ :=
      same.mpr (alike vring ready ⟨elem, left, after, taken⟩ ⟨_, congrArg Prod.fst popped⟩)
    exact ⟨index, outs, ins, last, vringLast⟩

/-- A table whose links are not in order: 0, 2, 1, 3. -/
def crossedTable : HostMemory := oneEntry
  (descScalars 0x1000 ⟨0x3000, 64, 4, 0⟩ ++ descScalars 0x3000 ⟨0x4000, 16, 1, 2⟩ ++
    descScalars 0x3010 ⟨0x5000, 8, 1, 3⟩ ++ descScalars 0x3020 ⟨0x6000, 4, 3, 1⟩ ++
    descScalars 0x3030 ⟨0x7000, 1, 2, 0⟩)

theorem popsAgree_crossed : ∃ elem gathered,
    (virtqueuePop (smallGuest.access smallQueue.vring) true smallGuest.map smallQueue
      crossedTable).map (·.1) = .ok (some elem) ∧
    (vringPop true 4 smallVring crossedTable).1 = .ok (0, gathered) ∧
    elem.outSg.map Segment.iovec = gathered.readable ∧
    elem.inSg.map Segment.iovec = gathered.writable := by
  have ready : vringSetup smallGuest smallQueue crossedTable = .ok smallVring := by decide +kernel
  have alike : NextAlike smallGuest true 4 smallQueue crossedTable := by
    intro vring set _ _
    cases ready.symm.trans set
    decide +kernel
  have taken : (virtqueuePop (smallGuest.access smallQueue.vring) true smallGuest.map smallQueue
      crossedTable).map (·.1) = .ok (some ⟨0, [⟨0x4000, 0x7f0000004000, 16⟩,
        ⟨0x5000, 0x7f0000005000, 8⟩], [⟨0x6000, 0x7f0000006000, 4⟩,
        ⟨0x7000, 0x7f0000007000, 1⟩]⟩) := by decide +kernel
  have popped : (vringPop true 4 smallVring crossedTable).1 =
      .ok (0, ⟨[⟨0x7f0000004000, 16⟩, ⟨0x7f0000005000, 8⟩, ⟨0x7f0000006000, 4⟩,
        ⟨0x7f0000007000, 1⟩], 0, 2, 2⟩) := by decide +kernel
  have agree := (popsAgree_iff smallGuest true 4 crossedTable (by decide)).mpr alike
  exact ⟨_, _, taken, popped, (agree.element ready taken popped).2⟩

end VhostUser.Qemu.Virtio
