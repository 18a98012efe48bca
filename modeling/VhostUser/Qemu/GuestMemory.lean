import VhostUser.Qemu.Topology
import VhostUser.Qemu.VirtQueue
import Mathlib.Data.List.Pairwise

/-!
Contract: the two ways in which QEMU's devices reach guest memory: through the address space
(`exec.c`: `lduw_phys`, `stw_phys`, `cpu_physical_memory_map`) and through the list of host
pointers that the dataplane keeps (`hostmem.c`).

Both end at bytes of the host. `address_space_translate` hands back the length it was given,
so a load or a mapping is not cut at the end of a range. What is not RAM (devices, ROM
devices, unassigned memory) is a parameter: what it reads as, and how it is mapped through the
bounce buffer.

Owns: where the dataplane finds an address, the address space finds it too.
-/

namespace VhostUser.Qemu.Virtio

open VhostUser.Lib
open VhostUser.Lib.ByteImage (getLE putLE)

abbrev HostMemory := ByteImage

/-- A flat view over regions whose RAM is in the blocks of `ram_list`. -/
structure GuestSpace where
  regions : Regions
  view : FlatView
  ram : RamList
  deviceRead : UInt64 → Nat → Nat
  bounce : GuestMap
  rendered : Rendered regions view
  readonly : ∀ fr ∈ view, (regions fr.mr).readonly = true → fr.readonly = true
  backed : ∀ mr, (regions mr).ram = true → ∃ block ∈ ram.blocks,
    block.offset = (regions mr).ramAddr ∧ (regions mr).size ≤ block.length.toNat

namespace GuestSpace

variable (space : GuestSpace)

/-! ### The address space -/

def ramBlock (addr : UInt64) : Option RAMBlock :=
  space.ram.blocks.find? fun block => decide (addr - block.offset < block.length)

def ramPtr (addr : UInt64) : UInt64 :=
  match space.ramBlock addr with
  | some block => block.host + (addr - block.offset)
  | none => 0

def ramLength (addr size : UInt64) : UInt64 :=
  match space.ramBlock addr with
  | some block =>
    if block.length < addr - block.offset + size then block.length - addr + block.offset else size
  | none => 0

def ramAddr (fr : FlatRange) (addr : UInt64) : UInt64 :=
  (space.regions fr.mr).ramAddr + (fr.offsetInRegion + (addr - UInt64.ofInt fr.addr.start))

/-- `address_space_translate` and `memory_access_is_direct`: the address in RAM, if the access
goes there. -/
def directRam (addr : UInt64) (isWrite : Bool) : Option UInt64 :=
  match space.view.find? fun fr => fr.addr.contains addr.toNat with
  | some fr =>
    let mr := space.regions fr.mr
    if mr.ram && !(isWrite && mr.readonly) then some (space.ramAddr fr addr) else none
  | none => none

def load (mem : HostMemory) (addr : UInt64) (width : Nat) : Nat :=
  match space.directRam addr false with
  | some ram => getLE mem (space.ramPtr ram).toNat width
  | none => space.deviceRead addr width

def store (mem : HostMemory) (addr : UInt64) (width value : Nat) : HostMemory :=
  match space.directRam addr true with
  | some ram => putLE mem (space.ramPtr ram).toNat width value
  | none => mem

def map (addr len : UInt64) (isWrite : Bool) : Option (UInt64 × UInt64) :=
  if len = 0 then none
  else
    match space.directRam addr isWrite with
    | some ram => some (space.ramPtr ram, space.ramLength ram len)
    | none => space.bounce addr len isWrite

/-- A descriptor of the table at `table`, as `vring_desc_addr` and its like read it. -/
def desc (mem : HostMemory) (table : UInt64) (i : Nat) : VRingDesc :=
  let entry := table + 16 * UInt64.ofNat i
  ⟨.ofNat (space.load mem entry 8), .ofNat (space.load mem (entry + 8) 4),
    .ofNat (space.load mem (entry + 12) 2), .ofNat (space.load mem (entry + 14) 2)⟩

/-- The accessors of `virtio.c` for a queue in guest memory. Unmapping marks pages dirty and
changes no bytes of RAM. -/
def access (vring : VRing) : RingAccess HostMemory where
  availFlags mem := .ofNat (space.load mem vring.avail 2)
  availIdx mem := .ofNat (space.load mem (vring.avail + 2) 2)
  availRing mem i := .ofNat (space.load mem (vring.avail + (4 + 2 * UInt64.ofNat i)) 2)
  usedIdx mem := .ofNat (space.load mem (vring.used + 2) 2)
  desc := space.desc
  usedRingId mem i id :=
    space.store mem (vring.used + (4 + 8 * UInt64.ofNat i)) 4 id.toNat
  usedRingLen mem i len :=
    space.store mem (vring.used + (8 + 8 * UInt64.ofNat i)) 4 len.toNat
  usedIdxSet mem idx := space.store mem (vring.used + 2) 2 idx.toNat
  availEvent mem val :=
    space.store mem (vring.used + (4 + 8 * vring.num.toUInt64)) 2 val.toNat
  unmap mem _ := mem

/-! ### Host pointers -/

structure HostMemRegion where
  hostAddr : UInt64
  guestAddr : UInt64
  size : UInt64
  readonly : Bool
deriving DecidableEq, Repr

/-- `hostmem_listener_append_region`, with `memory_region_get_ram_ptr`. -/
def hostmemAppend (fr : FlatRange) : Option HostMemRegion :=
  let mr := space.regions fr.mr
  if !mr.ram then none
  else if mr.dirtyLogMask ≠ 0 then none
  else some ⟨space.ramPtr mr.ramAddr + fr.offsetInRegion, .ofInt fr.addr.start,
    .ofInt fr.addr.size, fr.readonly⟩

/-- `hostmem_init`: the listener gets every range of the view, and commits. -/
def hostmemInit : List HostMemRegion := space.view.filterMap space.hostmemAppend

def hostmemLookupCmp (phys : UInt64) (region : HostMemRegion) : Int :=
  if phys < region.guestAddr then -1
  else if region.guestAddr + region.size ≤ phys then 1
  else 0

/-- `hostmem_lookup`. The regions are in order and apart, so `bsearch` returns the one that
compares equal. -/
def hostmemLookup (regions : List HostMemRegion) (phys len : UInt64) (isWrite : Bool) :
    Option UInt64 :=
  match regions.find? fun region => decide (hostmemLookupCmp phys region = 0) with
  | none => none
  | some region =>
    if isWrite && region.readonly then none
    else if len ≤ region.size - (phys - region.guestAddr) then
      some (region.hostAddr + (phys - region.guestAddr))
    else none

end GuestSpace

/-! ### The same bytes -/

theorem find?_eq_of_unique {α : Type} {list : List α} {test : α → Bool} {value : α}
    (member : value ∈ list) (holds : test value = true)
    (unique : ∀ other ∈ list, test other = true → other = value) :
    list.find? test = some value := by
  cases found : list.find? test with
  | none => exact absurd holds (List.find?_eq_none.mp found value member)
  | some other =>
    rw [unique other (List.mem_of_find?_eq_some found) (List.find?_some found)]

namespace GuestSpace

variable {space : GuestSpace}

theorem ramBlock_eq {block : RAMBlock} {addr : UInt64} (member : block ∈ space.ram.blocks)
    (inside : (addr - block.offset).toNat < block.length.toNat) :
    space.ramBlock addr = some block := by
  refine find?_eq_of_unique member ?_ fun other otherMember otherInside => ?_
  · rw [decide_eq_true_eq, UInt64.lt_iff_toNat_lt]
    exact inside
  by_contra differ
  rw [decide_eq_true_eq, UInt64.lt_iff_toNat_lt] at otherInside
  have bounded := space.ram.bounded block member
  have otherBounded := space.ram.bounded other otherMember
  have : Std.Symm fun left right : RAMBlock =>
      left.offset.toNat + left.length.toNat ≤ right.offset.toNat ∨
        right.offset.toNat + right.length.toNat ≤ left.offset.toNat := ⟨fun _ _ => Or.symm⟩
  have apart := space.ram.disjoint.forall otherMember member differ
  rw [UInt64.toNat_sub] at inside otherInside
  omega

section Range

variable {fr : FlatRange} {addr : UInt64}

theorem ramPtr_region {offset : UInt64} {mr : Nat} (ram : (space.regions mr).ram = true)
    (inside : offset.toNat < (space.regions mr).size) :
    space.ramPtr ((space.regions mr).ramAddr + offset) =
      space.ramPtr (space.regions mr).ramAddr + offset := by
  obtain ⟨block, member, start, fits⟩ := space.backed mr ram
  have here : space.ramBlock (block.offset + offset) = some block := by
    refine ramBlock_eq member ?_
    rw [show block.offset + offset - block.offset = offset by grind]
    omega
  have first : space.ramBlock block.offset = some block := by
    refine ramBlock_eq member ?_
    rw [UInt64.sub_self, UInt64.toNat_zero]
    omega
  rw [← start, ramPtr, ramPtr, here, first]
  grind

theorem find_range (member : fr ∈ space.view) (inside : fr.addr.contains addr.toNat = true) :
    (space.view.find? fun fr => fr.addr.contains addr.toNat) = some fr := by
  refine find?_eq_of_unique member inside fun other otherMember otherInside => ?_
  by_contra differ
  have : Std.Symm fun left right : FlatRange =>
      left.addr.last ≤ right.addr.start ∨ right.addr.last ≤ left.addr.start := ⟨fun _ _ => Or.symm⟩
  have pairwise : space.view.Pairwise fun left right =>
      left.addr.last ≤ right.addr.start ∨ right.addr.last ≤ left.addr.start :=
    space.rendered.ordered.pairwise.imp Or.inl
  have apart := pairwise.forall otherMember member differ
  rw [AddrRange.contains_iff] at inside otherInside
  simp only [AddrRange.last] at apart
  omega

theorem range_bounds (member : fr ∈ space.view) :
    0 ≤ fr.addr.start ∧ 0 < fr.addr.size ∧ fr.addr.last ≤ 2 ^ 64 := by
  obtain ⟨low, nonempty⟩ := space.rendered.ordered.bounds fr member
  exact ⟨low, nonempty, (space.rendered.placed fr member).high⟩

theorem toNat_ofInt {value : Int} (low : 0 ≤ value) (high : value < 2 ^ 64) :
    ((UInt64.ofInt value).toNat : Int) = value := by
  rw [UInt64.ofInt, UInt64.toNat_ofNat']
  omega

section

variable (member : fr ∈ space.view)
include member

theorem start_toNat : ((UInt64.ofInt fr.addr.start).toNat : Int) = fr.addr.start := by
  obtain ⟨low, nonempty, high⟩ := range_bounds member
  simp only [AddrRange.last] at high
  exact toNat_ofInt low (by omega)

theorem size_toNat (ram : (space.regions fr.mr).ram = true) :
    ((UInt64.ofInt fr.addr.size).toNat : Int) = fr.addr.size := by
  obtain ⟨low, nonempty, high⟩ := range_bounds member
  obtain ⟨block, -, -, fits⟩ := space.backed fr.mr ram
  have inside := (space.rendered.placed fr member).inside
  have := UInt64.toNat_lt block.length
  exact toNat_ofInt nonempty.le (by omega)

theorem ramPtr_range (ram : (space.regions fr.mr).ram = true)
    (inside : fr.addr.contains addr.toNat = true) :
    space.ramPtr (space.ramAddr fr addr) =
      space.ramPtr (space.regions fr.mr).ramAddr + fr.offsetInRegion +
        (addr - UInt64.ofInt fr.addr.start) := by
  have start := start_toNat member
  have room := (space.rendered.placed fr member).inside
  rw [AddrRange.contains_iff] at inside
  rw [ramAddr, ramPtr_region ram, UInt64.add_assoc]
  rw [UInt64.toNat_add, UInt64.toNat_sub]
  have := UInt64.toNat_lt (UInt64.ofInt fr.addr.start)
  omega

theorem directRam_range {isWrite : Bool} (ram : (space.regions fr.mr).ram = true)
    (writable : isWrite = true → (space.regions fr.mr).readonly = false)
    (inside : fr.addr.contains addr.toNat = true) :
    space.directRam addr isWrite = some (space.ramAddr fr addr) := by
  rw [directRam, find_range member inside]
  cases isWrite with
  | false => simp [ram]
  | true => simp [ram, writable rfl]

end

end Range

theorem hostmem_find {phys : UInt64} {region : HostMemRegion}
    (found : (space.hostmemInit.find? fun region =>
      decide (hostmemLookupCmp phys region = 0)) = some region) :
    ∃ fr ∈ space.view, (space.regions fr.mr).ram = true ∧
      fr.addr.contains phys.toNat = true ∧
      region = ⟨space.ramPtr (space.regions fr.mr).ramAddr + fr.offsetInRegion,
        .ofInt fr.addr.start, .ofInt fr.addr.size, fr.readonly⟩ := by
  obtain ⟨fr, member, appended⟩ := List.mem_filterMap.mp (List.mem_of_find?_eq_some found)
  rw [hostmemAppend] at appended
  simp only [Option.ite_none_left_eq_some, Bool.not_eq_true', Bool.not_eq_false, Option.some.injEq]
    at appended
  obtain ⟨ram, -, rfl⟩ := appended
  refine ⟨fr, member, ram, ?_, rfl⟩
  have equal := List.find?_some found
  rw [decide_eq_true_eq] at equal
  have start := start_toNat member
  have size := size_toNat member ram
  simp only [hostmemLookupCmp] at equal
  split at equal
  · cases equal
  split at equal
  · cases equal
  next notBelow notAbove =>
    -- a range that ends at 2^64 has the end zero here, and is never found
    rw [UInt64.lt_iff_toNat_lt] at notBelow
    rw [UInt64.le_iff_toNat_le, UInt64.toNat_add] at notAbove
    rw [AddrRange.contains_iff]
    omega

/-- Where the dataplane finds `len` bytes, the address space has RAM, at the same bytes of the
host. -/
theorem hostmemLookup_direct {phys len host : UInt64} {isWrite : Bool} {k : Nat}
    (found : hostmemLookup space.hostmemInit phys len isWrite = some host)
    (inside : k = 0 ∨ k < len.toNat) :
    ∃ ram, space.directRam (phys + UInt64.ofNat k) isWrite = some ram ∧
      space.ramPtr ram = host + UInt64.ofNat k := by
  rw [hostmemLookup] at found
  split at found
  · cases found
  next region search =>
    obtain ⟨fr, member, ram, contains, rfl⟩ := hostmem_find search
    rw [Option.ite_none_left_eq_some] at found
    obtain ⟨notReadonly, found⟩ := found
    rw [Option.ite_none_right_eq_some, Option.some.injEq] at found
    obtain ⟨room, rfl⟩ := found
    have start := start_toNat member
    have size := size_toNat member ram
    obtain ⟨low, nonempty, high⟩ := range_bounds member
    simp only [AddrRange.last] at high
    rw [AddrRange.contains_iff] at contains
    dsimp only at room
    rw [UInt64.le_iff_toNat_le, UInt64.toNat_sub, UInt64.toNat_sub] at room
    -- the range has room for `len` bytes, so the address does not wrap
    have address : (phys + UInt64.ofNat k).toNat = phys.toNat + k := by
      rw [UInt64.toNat_add, UInt64.toNat_ofNat']
      omega
    have stillInside : fr.addr.contains (phys + UInt64.ofNat k).toNat = true := by
      rw [AddrRange.contains_iff, address]
      omega
    refine ⟨space.ramAddr fr (phys + UInt64.ofNat k), ?_, ?_⟩
    · refine directRam_range member ram (fun isWrite => ?_) stillInside
      rw [isWrite, Bool.true_and, Bool.not_eq_true] at notReadonly
      refine Bool.eq_false_iff.mpr fun readonly => ?_
      rw [space.readonly fr member readonly] at notReadonly
      cases notReadonly
    · rw [ramPtr_range member ram stillInside]
      grind

end GuestSpace

/-! ### The views of QEMU -/

section Topology

variable {regions : Regions}

def Guarded (regions : Regions) (view : FlatView) : Prop :=
  ∀ fr ∈ view, (regions fr.mr).readonly = true → fr.readonly = true

theorem generateMemoryTopology_guarded {fuel : Nat} {root : Option Nat} {view : FlatView}
    (result : generateMemoryTopology regions fuel root = some view) : Guarded regions view :=
  generateMemoryTopology_forall
    (fun mr readonly => (regions mr).readonly = true → readonly = true)
    (fun _ _ _ readonly => Bool.or_eq_true_iff.mpr (.inr readonly)) result

def GuestSpace.ofTopology (ram : RamList) (deviceRead : UInt64 → Nat → Nat) (bounce : GuestMap)
    (backed : ∀ mr, (regions mr).ram = true → ∃ block ∈ ram.blocks,
      block.offset = (regions mr).ramAddr ∧ (regions mr).size ≤ block.length.toNat)
    {fuel : Nat} {root : Option Nat} {view : FlatView}
    (result : generateMemoryTopology regions fuel root = some view) : GuestSpace where
  regions := regions
  view := view
  ram := ram
  deviceRead := deviceRead
  bounce := bounce
  rendered := generateMemoryTopology_rendered result
  readonly := generateMemoryTopology_guarded result
  backed := backed

end Topology

end VhostUser.Qemu.Virtio
