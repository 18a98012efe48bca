import VhostUser.Qemu.Dispatch
import VhostUser.Qemu.GuestMemory

/-!
Contract: `address_space_translate`, and the accesses over it: `address_space_rw` and
`address_space_map` (`exec.c`).

An access is the list of its transfers: copies from or to RAM, and calls of a device. What
the devices answer and the bytes that move are left out, and so is the error that
`address_space_rw` returns (`AccessValid`).

Owns: on which ranges the three agree with accesses of single bytes.
Does not own: the dispatch table (`Dispatch`).
-/

namespace VhostUser.Qemu

open VhostUser.Lib
open Virtio (GuestSpace)

/-! ### The address space -/

/-- What `memory_access_size` reads of `MemoryRegionOps`. No device takes more than 8 bytes at
once. -/
structure AccessOps where
  maxAccessSize : UInt32
  unaligned : Bool
  max_le : maxAccessSize ≤ 8

structure IommuTlbEntry where
  targetAs : Nat
  translatedAddr : UInt64
  addrMask : UInt64
  perm : UInt32

/-- The regions and RAM, the dispatch tables by address space, and the operations of the regions. -/
structure AccessEnv where
  guest : GuestSpace
  dispatch : Nat → AddressSpaceDispatch
  romDevice : Nat → Bool
  ops : PhysRegion → AccessOps
  iommuOps : Nat → Option (UInt64 → IommuTlbEntry)

namespace AccessEnv

variable (env : AccessEnv)

def sizeOf : PhysRegion → Int
  | .memory mr => (env.guest.regions mr).size
  | .subpage _ => targetPageSize.toNat
  | _ => 2 ^ 64

def iommuOf : PhysRegion → Option (UInt64 → IommuTlbEntry)
  | .memory mr => env.iommuOps mr
  | _ => none

/-! ### Translation -/

/-- `address_space_translate_internal`: the section, `*xlat` and `*plen`. -/
def translateInternal (d : AddressSpaceDispatch) (addr plen : UInt64) :
    Except DispatchError (PhysSection × UInt64 × UInt64) := do
  let sec ← d.addressSpaceLookupRegion addr true
  let addr := addr - sec.offsetWithinAddressSpace
  let xlat := addr + sec.offsetWithinRegion
  let diff := env.sizeOf sec.mr - addr.toNat
  let plen ← assert64 (min diff plen.toNat)
  return (sec, xlat, plen)

def translateLoop (isWrite : Bool) : Nat → Nat → UInt64 → UInt64 → UInt64 →
    Except DispatchError (PhysRegion × UInt64 × UInt64)
  | 0, _, _, _, _ => .error .unfinished
  | turns + 1, space, addr, plen, len => do
      let (sec, addr, plen) ← env.translateInternal (env.dispatch space) addr plen
      match env.iommuOf sec.mr with
      | none => return (sec.mr, addr, len)
      | some translate =>
        let iotlb := translate addr
        let addr := (iotlb.translatedAddr &&& ~~~iotlb.addrMask) ||| (addr &&& iotlb.addrMask)
        let len := min len ((addr ||| iotlb.addrMask) - addr + 1)
        if iotlb.perm &&& (if isWrite then 2 else 1) = 0 then return (.unassigned, addr, len)
        else translateLoop isWrite turns iotlb.targetAs addr plen len

/-- `address_space_translate`: the region, `*xlat` and `*plen`. -/
def addressSpaceTranslate (turns space : Nat) (addr plen : UInt64) (isWrite : Bool) :
    Except DispatchError (PhysRegion × UInt64 × UInt64) :=
  env.translateLoop isWrite turns space addr plen plen

/-! ### Reading and writing -/

def memoryAccessIsDirect (isWrite : Bool) : PhysRegion → Bool
  | .memory mr =>
    if (env.guest.regions mr).ram then !(isWrite && (env.guest.regions mr).readonly)
    else if env.romDevice mr && (env.guest.regions mr).romdMode then !isWrite
    else false
  | _ => false

def ramAddrOf : PhysRegion → UInt64
  | .memory mr => (env.guest.regions mr).ramAddr
  | _ => 0

end AccessEnv

def memoryAccessSize (ops : AccessOps) (l : UInt32) (addr : UInt64) : UInt32 :=
  let accessSizeMax := if ops.maxAccessSize = 0 then 4 else ops.maxAccessSize
  let alignSizeMax := (addr &&& (0 - addr)).toUInt32
  let accessSizeMax :=
    if !ops.unaligned && alignSizeMax ≠ 0 && alignSizeMax < accessSizeMax then alignSizeMax
    else accessSizeMax
  let l := if accessSizeMax < l then accessSizeMax else l
  -- `1 << (qemu_fls(l) - 1)`
  if l &&& (l - 1) ≠ 0 then .ofNat (2 ^ l.toNat.log2) else l

theorem roundDown_ok {l : UInt32} (positive : l ≠ 0) (small : l ≤ 8) :
    let rounded : UInt32 := if l &&& (l - 1) ≠ 0 then .ofNat (2 ^ l.toNat.log2) else l
    (rounded = 8 ∨ rounded = 4 ∨ rounded = 2 ∨ rounded = 1) ∧ rounded ≤ l := by
  have cases : ∀ k : Fin 9, (UInt32.ofNat k.val) ≠ 0 →
      let l := UInt32.ofNat k.val
      let rounded : UInt32 := if l &&& (l - 1) ≠ 0 then .ofNat (2 ^ l.toNat.log2) else l
      (rounded = 8 ∨ rounded = 4 ∨ rounded = 2 ∨ rounded = 1) ∧ rounded ≤ l := by
    decide
  have bound : l.toNat < 9 := by
    have := UInt32.le_iff_toNat_le.mp small
    exact Nat.lt_succ_of_le this
  have known := cases ⟨l.toNat, bound⟩
  rw [UInt32.ofNat_toNat] at known
  exact known positive

theorem memoryAccessSize_ok (ops : AccessOps) {l : UInt32} (positive : l ≠ 0) (addr : UInt64) :
    (memoryAccessSize ops l addr = 8 ∨ memoryAccessSize ops l addr = 4 ∨
      memoryAccessSize ops l addr = 2 ∨ memoryAccessSize ops l addr = 1) ∧
      (memoryAccessSize ops l addr).toNat ≤ l.toNat := by
  have bound := ops.max_le
  simp only [memoryAccessSize]
  generalize first_eq : (if ops.maxAccessSize = 0 then 4 else ops.maxAccessSize) = first
  have firstOk : first ≠ 0 ∧ first ≤ 8 := by
    subst first_eq
    split
    · decide
    next nonzero => exact ⟨nonzero, bound⟩
  generalize (addr &&& (0 - addr)).toUInt32 = align
  generalize second_eq :
    (if (!ops.unaligned && align ≠ 0 && align < first) = true then align else first) = second
  have secondOk : second ≠ 0 ∧ second ≤ 8 := by
    subst second_eq
    split
    next aligned =>
      simp only [ne_eq, Bool.and_eq_true, decide_eq_true_eq] at aligned
      have := UInt32.lt_iff_toNat_lt.mp aligned.2
      have := UInt32.le_iff_toNat_le.mp firstOk.2
      exact ⟨aligned.1.2, UInt32.le_iff_toNat_le.mpr (by omega)⟩
    · exact firstOk
  generalize third_eq : (if second < l then second else l) = third
  have thirdOk : third ≠ 0 ∧ third ≤ 8 ∧ third.toNat ≤ l.toNat := by
    subst third_eq
    split
    next longer => exact ⟨secondOk.1, secondOk.2, (UInt32.lt_iff_toNat_lt.mp longer).le⟩
    next short =>
      have := UInt32.le_iff_toNat_le.mp secondOk.2
      rw [UInt32.lt_iff_toNat_lt] at short
      exact ⟨positive, UInt32.le_iff_toNat_le.mpr (by omega), le_rfl⟩
  obtain ⟨size, smaller⟩ := roundDown_ok thirdOk.1 thirdOk.2.1
  exact ⟨size, (UInt32.le_iff_toNat_le.mp smaller).trans thirdOk.2.2⟩

/-- A copy at a RAM address and its host address, or an access to a device. -/
inductive Transfer where
  | copy (ramAddr host : UInt64) (len : Nat)
  | io (mr : PhysRegion) (addr : UInt64) (len : Nat)
deriving DecidableEq, Repr

def Transfer.len : Transfer → Nat
  | .copy _ _ len | .io _ _ len => len

/-- `NULL`, the bounce buffer with its length and the transfers that fill it, or a host address
and a length. -/
inductive Mapping where
  | null
  | bounce (len : UInt64) (filled : List Transfer)
  | ram (host len : UInt64)
deriving DecidableEq, Repr

namespace AccessEnv

variable (env : AccessEnv)

def transfer (isWrite : Bool) (mr : PhysRegion) (addr1 l : UInt64) :
    Except DispatchError Transfer :=
  if env.memoryAccessIsDirect isWrite mr then
    let ramAddr := env.ramAddrOf mr + addr1
    match env.guest.ramBlock ramAddr with
    | some block => .ok (.copy ramAddr (block.host + (ramAddr - block.offset)) l.toNat)
    | none => .error .assertion
  else
    let l := memoryAccessSize (env.ops mr) l.toUInt32 addr1
    if l = 8 || l = 4 || l = 2 || l = 1 then .ok (.io mr addr1 l.toNat) else .error .assertion

/-- `address_space_rw`. Every turn transfers a byte at least. -/
def addressSpaceRw (isWrite : Bool) (turns space : Nat) :
    Nat → UInt64 → Nat → Except DispatchError (List Transfer)
  | 0, _, len => if len = 0 then .ok [] else .error .unfinished
  | left + 1, addr, len =>
    if len = 0 then .ok []
    else do
      let (mr, addr1, l) ← env.addressSpaceTranslate turns space addr (.ofNat len) isWrite
      let first ← env.transfer isWrite mr addr1 l
      let rest ← addressSpaceRw isWrite turns space left (addr + .ofNat first.len)
        (len - first.len)
      return first :: rest

/-! ### Mapping -/

def mapLoop (isWrite : Bool) (turns space : Nat) (mr : PhysRegion) (base : UInt64) :
    Nat → UInt64 → UInt64 → UInt64 → UInt64 → Except DispatchError UInt64
  | 0, _, _, _, _ => .error .unfinished
  | left + 1, addr, len, done, l => do
      let len := len - l
      let addr := addr + l
      let done := done + l
      if len = 0 then return done
      else
        let (thisMr, xlat, l) ← env.addressSpaceTranslate turns space addr len isWrite
        if thisMr ≠ mr || xlat ≠ base + done then return done
        else mapLoop isWrite turns space mr base left addr len done l

def ramPtrLength (addr size : UInt64) : Except DispatchError Mapping :=
  if size = 0 then .ok .null
  else
    match env.guest.ramBlock addr with
    | some block => .ok (.ram (block.host + (addr - block.offset)) (env.guest.ramLength addr size))
    | none => .error .assertion

/-- `address_space_map`, where `bounced` says whether the bounce buffer is in use. -/
def addressSpaceMap (isWrite bounced : Bool) (turns space : Nat) (addr len : UInt64) :
    Except DispatchError Mapping :=
  if len = 0 then .ok .null
  else do
    let (mr, xlat, l) ← env.addressSpaceTranslate turns space addr len isWrite
    if !env.memoryAccessIsDirect isWrite mr then
      if bounced then return .null
      else
        let l := min l targetPageSize
        if isWrite then return .bounce l []
        else return .bounce l (← env.addressSpaceRw false turns space l.toNat addr l.toNat)
    else
      let done ← env.mapLoop isWrite turns space mr xlat len.toNat addr len 0 l
      env.ramPtrLength (env.ramAddrOf mr + xlat) done

end AccessEnv

/-! ### Single bytes -/

/-- A byte that an access reads or writes: of the host, or of a device. -/
inductive Location where
  | host (addr : UInt64)
  | io (mr : PhysRegion) (offset : UInt64)
deriving DecidableEq, Repr

def Transfer.bytes : Transfer → List Location
  | .copy _ host len => (List.range len).map fun i => .host (host + .ofNat i)
  | .io mr addr len => (List.range len).map fun i => .io mr (addr + .ofNat i)

namespace AccessEnv

variable (env : AccessEnv) {offset : UInt64} {count : Nat} {mr : PhysRegion}

/-- The address space `space` is that of the guest, its table is built, and it has no IOMMU.
ROM devices have RAM, as RAM has. -/
structure Mapped (space : Nat) : Prop where
  built : ∃ id, buildDispatch id env.guest.view = .ok (env.dispatch space)
  noIommu : ∀ fr ∈ env.guest.view, env.iommuOps fr.mr = none
  romBacked : ∀ mr, env.romDevice mr = true → ∃ block ∈ env.guest.ram.blocks,
    block.offset = (env.guest.regions mr).ramAddr ∧ (env.guest.regions mr).size ≤ block.length.toNat

/-- The region that the flat view has at an address, and the offset. -/
def resolve (addr : UInt64) : PhysRegion × UInt64 :=
  match env.guest.view.byteAt addr with
  | some (mr, offset) => (.memory mr, offset)
  | none => (.unassigned, addr)

def locate (isWrite : Bool) (addr : UInt64) : Location :=
  let (mr, offset) := env.resolve addr
  if env.memoryAccessIsDirect isWrite mr then .host (env.guest.ramPtr (env.ramAddrOf mr + offset))
  else .io mr offset

def rwBytes (isWrite : Bool) (turns space : Nat) (addr : UInt64) (len : Nat) :
    Except DispatchError (List Location) :=
  (env.addressSpaceRw isWrite turns space len addr len).map fun transfers =>
    transfers.flatMap Transfer.bytes

/-- The length that `address_space_translate` returns is of the region and the offset of the flat
view. -/
def TranslatesExactly (space : Nat) (addr len : UInt64) : Prop :=
  ∀ turns isWrite, ∃ mr xlat l,
    env.addressSpaceTranslate (turns + 1) space addr len isWrite = .ok (mr, xlat, l) ∧
      1 ≤ l.toNat ∧ l ≤ len ∧
      ((∃ number, mr = .memory number ∧ ∀ i < l.toNat,
          env.guest.view.byteAt (addr + .ofNat i) = some (number, xlat + .ofNat i)) ∨
        mr = .unassigned ∧ ∀ i < l.toNat, env.guest.view.byteAt (addr + .ofNat i) = none)

/-- `address_space_rw` accesses the bytes that accesses to single bytes do. The length is an
`int`. -/
def RwsExactly (space : Nat) (addr len : UInt64) : Prop :=
  ∀ turns isWrite, len.toNat < 2 ^ 31 →
    ∃ bytes, env.rwBytes isWrite (turns + 1) space addr len.toNat = .ok bytes ∧
      bytes.length = len.toNat ∧
      ∀ i < len.toNat, ∃ byte, bytes[i]? = some byte ∧
        env.rwBytes isWrite (turns + 1) space (addr + .ofNat i) 1 = .ok [byte]

/-- A mapping is no longer than its range and has the host bytes of its addresses; the bounce
buffer is filled from them. -/
def Mapping.Denotes (isWrite : Bool) (addr len : UInt64) : Mapping → Prop
  | .null => True
  | .bounce l filled => l ≤ len ∧ (isWrite = false → filled.flatMap Transfer.bytes =
      (List.range l.toNat).map fun i => env.locate false (addr + .ofNat i))
  | .ram host l => l ≤ len ∧ ∀ i < l.toNat,
      env.locate isWrite (addr + .ofNat i) = .host (host + .ofNat i)

/-- `address_space_map` returns memory that the addresses denote. -/
def MapsExactly (space : Nat) (addr len : UInt64) : Prop :=
  ∀ turns isWrite bounced, ∃ mapping,
    env.addressSpaceMap isWrite bounced (turns + 1) space addr len = .ok mapping ∧
      Mapping.Denotes env isWrite addr len mapping

/-- The range is of one region, at offsets in sequence, or not assigned. -/
def Uniform (view : FlatView) (addr : UInt64) (len : Nat) : Prop :=
  (∃ mr offset, ∀ i < len, view.byteAt (addr + .ofNat i) = some (mr, offset + .ofNat i)) ∨
    ∀ i < len, view.byteAt (addr + .ofNat i) = none

/-! ### The length is not cut -/

variable {env} {space turns : Nat} {addr len : UInt64} {isWrite : Bool}

theorem byteAt_region {mr : Nat} (found : env.guest.view.byteAt addr = some (mr, offset)) :
    ∃ fr ∈ env.guest.view, fr.mr = mr ∧ offset.toNat < (env.guest.regions mr).size := by
  obtain ⟨fr, search, same⟩ := Option.map_eq_some_iff.mp found
  cases same
  have member := List.mem_of_find?_eq_some search
  have room := (env.guest.rendered.placed fr member).inside
  have inside := List.find?_some search
  rw [AddrRange.contains_iff] at inside
  refine ⟨fr, member, rfl, ?_⟩
  rw [UInt64.toNat_add, UInt64.toNat_sub, UInt64.toNat_ofNat']
  omega

theorem flat : env.guest.view.Flat := env.guest.rendered.flat

theorem Mapped.lookup (mapped : env.Mapped space) (addr : UInt64) :
    ∃ sec, (env.dispatch space).addressSpaceLookupRegion addr true = .ok sec ∧
      sec.Finds addr (env.guest.view.byteAt addr) ∧
      ∀ mr, sec.mr = .memory mr → sec.size ≤ (env.guest.regions mr).size := by
  obtain ⟨id, built⟩ := mapped.built
  have limited : ∀ fr ∈ env.guest.view, fr.addr.size ≤ ((env.guest.regions fr.mr).size : Int) := by
    intro fr member
    have := (env.guest.rendered.placed fr member).inside
    omega
  obtain ⟨d, result, holds⟩ := @buildDispatch_holds _ flat id
    (fun mr => (env.guest.regions mr).size) limited (by rw [built]; exact nofun)
  rw [Except.ok.inj (built.symm.trans result)]
  obtain ⟨sec, found, finds, proper⟩ := holds.lookup addr
  exact ⟨sec, found, finds, proper.limited⟩

/-- `address_space_translate` hands back the length it was given. -/
theorem Mapped.translate (mapped : env.Mapped space) (turns : Nat) (addr len : UInt64)
    (isWrite : Bool) :
    env.addressSpaceTranslate (turns + 1) space addr len isWrite =
      .ok ((env.resolve addr).1, (env.resolve addr).2, len) := by
  obtain ⟨sec, found, finds, limited⟩ := mapped.lookup addr
  have := addr.toNat_lt
  have := len.toNat_lt
  rw [addressSpaceTranslate, translateLoop, translateInternal, found, resolve]
  cases hit : env.guest.view.byteAt addr with
  | none =>
    rw [hit] at finds
    obtain rfl : sec = dummySection .unassigned := finds
    have bounds : 0 ≤ min (env.sizeOf (dummySection .unassigned).mr -
          (addr - (dummySection .unassigned).offsetWithinAddressSpace).toNat) len.toNat ∧
        min (env.sizeOf (dummySection .unassigned).mr -
          (addr - (dummySection .unassigned).offsetWithinAddressSpace).toNat) len.toNat <
            2 ^ 64 := by
      simp only [dummySection, sizeOf, UInt64.sub_zero]
      omega
    simp only [bind, Except.bind, pure, Except.pure, assert64_ok bounds.1 bounds.2]
    simp only [dummySection, iommuOf, UInt64.sub_zero, UInt64.add_zero]
  | some byte =>
    obtain ⟨mr, offset⟩ := byte
    rw [hit] at finds
    obtain ⟨region, offset_eq, low, high⟩ := finds
    obtain ⟨fr, member, rfl, -⟩ := byteAt_region hit
    have size := limited fr.mr region
    have bounds : 0 ≤ min (env.sizeOf sec.mr -
          (addr - sec.offsetWithinAddressSpace).toNat) len.toNat ∧
        min (env.sizeOf sec.mr - (addr - sec.offsetWithinAddressSpace).toNat) len.toNat <
          2 ^ 64 := by
      rw [region, UInt64.toNat_sub, sizeOf]
      omega
    have xlat : addr - sec.offsetWithinAddressSpace + sec.offsetWithinRegion = offset := by
      rw [← offset_eq, PhysSection.offsetAt, UInt64.add_comm]
    simp only [bind, Except.bind, pure, Except.pure, assert64_ok bounds.1 bounds.2]
    simp only [region, iommuOf, mapped.noIommu fr member, xlat]

/-! ### Ranges of one region -/

theorem uniform_iff : Uniform env.guest.view addr count ↔ ∀ i < count,
    env.resolve (addr + .ofNat i) = ((env.resolve addr).1, (env.resolve addr).2 + .ofNat i) := by
  constructor
  · rintro (⟨mr, offset, found⟩ | unassigned) i small
    · have first := found 0 (by omega)
      rw [show UInt64.ofNat 0 = 0 from rfl, UInt64.add_zero, UInt64.add_zero] at first
      rw [resolve, resolve, found i small, first]
    · have first := unassigned 0 (by omega)
      rw [show UInt64.ofNat 0 = 0 from rfl, UInt64.add_zero] at first
      rw [resolve, resolve, unassigned i small, first]
  · intro same
    cases first : env.guest.view.byteAt addr with
    | none =>
      right
      intro i small
      have here := same i small
      rw [resolve, resolve, first] at here
      split at here
      next => cases here
      next none => exact none
    | some byte =>
      obtain ⟨mr, offset⟩ := byte
      left
      refine ⟨mr, offset, fun i small => ?_⟩
      have here := same i small
      rw [resolve, resolve, first] at here
      split at here
      next otherMr other found =>
        cases here
        exact found
      next => cases here

/-- A region that is accessed directly has the RAM of one block, from the block's start on. -/
theorem Mapped.direct_block (mapped : env.Mapped space)
    (direct : env.memoryAccessIsDirect isWrite mr = true) :
    ∃ number, mr = .memory number ∧ ∃ block ∈ env.guest.ram.blocks,
      block.offset = env.ramAddrOf mr ∧ (env.guest.regions number).size ≤ block.length.toNat := by
  cases mr with
  | memory number =>
    refine ⟨number, rfl, ?_⟩
    simp only [memoryAccessIsDirect] at direct
    split at direct
    next ram => exact env.guest.backed number ram
    next =>
      split at direct
      next rom =>
        rw [Bool.and_eq_true] at rom
        exact mapped.romBacked number rom.1
      next => cases direct
  | _ => cases direct

theorem Mapped.locate_direct (mapped : env.Mapped space) (positive : 0 < count)
    (same : ∀ i < count, env.resolve (addr + .ofNat i) = (mr, offset + .ofNat i))
    (direct : env.memoryAccessIsDirect isWrite mr = true) :
    ∃ block, env.guest.ramBlock (env.ramAddrOf mr + offset) = some block ∧
      block.offset = env.ramAddrOf mr ∧ offset.toNat + count ≤ block.length.toNat ∧
      ∀ i < count, env.locate isWrite (addr + .ofNat i) =
        .host (block.host + offset + .ofNat i) := by
  obtain ⟨number, rfl, block, member, start, fits⟩ := mapped.direct_block direct
  have inside : ∀ i < count, (offset + .ofNat i).toNat < block.length.toNat := by
    intro i small
    have here := same i small
    rw [resolve] at here
    split at here
    next otherMr other found =>
      cases here
      obtain ⟨fr, -, -, bound⟩ := byteAt_region found
      omega
    next => cases here
  have held : ∀ other : UInt64, other.toNat < block.length.toNat →
      env.guest.ramBlock (env.ramAddrOf (.memory number) + other) = some block := by
    intro other small
    refine GuestSpace.ramBlock_eq member ?_
    rw [← start, show block.offset + other - block.offset = other by grind]
    exact small
  have zero : offset + .ofNat 0 = offset := UInt64.add_zero offset
  have first := inside 0 positive
  rw [zero] at first
  refine ⟨block, held offset first, start, ?_, fun i small => ?_⟩
  · -- the first offset past the block's end would be the length of the block
    by_contra beyond
    have last := inside (block.length.toNat - offset.toNat) (by omega)
    have := block.length.toNat_lt
    rw [UInt64.toNat_add, UInt64.toNat_ofNat'] at last
    omega
  · rw [locate, same i small]
    simp only [if_pos direct, GuestSpace.ramPtr, held _ (inside i small)]
    grind

/-! ### Reading and writing ranges of one region -/

/-- A turn of `address_space_rw` copies all that is left, or accesses a device. -/
theorem Mapped.transfer_cases (mapped : env.Mapped space) (isWrite : Bool) (positive : 0 < count)
    (small : count < 2 ^ 31) (here : env.resolve addr = (mr, offset)) :
    (env.memoryAccessIsDirect isWrite mr = true ∧ ∃ block,
      env.guest.ramBlock (env.ramAddrOf mr + offset) = some block ∧
        env.transfer isWrite mr offset (.ofNat count) = .ok (.copy (env.ramAddrOf mr + offset)
          (block.host + (env.ramAddrOf mr + offset - block.offset)) count)) ∨
    env.memoryAccessIsDirect isWrite mr = false ∧ ∃ size, 0 < size ∧ size ≤ count ∧
      env.transfer isWrite mr offset (.ofNat count) = .ok (.io mr offset size) := by
  have count_eq : (UInt64.ofNat count).toNat = count := by
    rw [UInt64.toNat_ofNat']
    omega
  cases direct : env.memoryAccessIsDirect isWrite mr with
  | true =>
    have single : ∀ i < 1, env.resolve (addr + .ofNat i) = (mr, offset + .ofNat i) := by
      intro i first
      obtain rfl : i = 0 := by omega
      simpa using here
    obtain ⟨block, found, -⟩ := mapped.locate_direct (by decide) single direct
    refine .inl ⟨rfl, block, found, ?_⟩
    rw [transfer, if_pos direct]
    simp only [found, count_eq]
  | false =>
    have word : (UInt64.ofNat count).toUInt32 ≠ 0 := by
      rw [ne_eq, ← UInt32.toNat_inj, UInt64.toNat_toUInt32, count_eq, UInt32.toNat_zero]
      omega
    obtain ⟨sizes, bounded⟩ := memoryAccessSize_ok (env.ops mr) word offset
    rw [UInt64.toNat_toUInt32, count_eq] at bounded
    refine .inr ⟨rfl, _, ?_, bounded.trans (Nat.mod_le _ _), ?_⟩
    · rcases sizes with eq | eq | eq | eq
      all_goals
        rw [eq]
        decide
    · rw [transfer, if_neg (by rw [direct]; exact Bool.false_ne_true)]
      refine if_pos ?_
      simp only [Bool.or_eq_true, decide_eq_true_eq, or_assoc]
      exact sizes

theorem Mapped.transfer_ok (mapped : env.Mapped space) (positive : 0 < count)
    (small : count < 2 ^ 31)
    (same : ∀ i < count, env.resolve (addr + .ofNat i) = (mr, offset + .ofNat i)) :
    ∃ first, env.transfer isWrite mr offset (.ofNat count) = .ok first ∧
      0 < first.len ∧ first.len ≤ count ∧
      first.bytes = (List.range first.len).map fun i => env.locate isWrite (addr + .ofNat i) := by
  have here : env.resolve addr = (mr, offset) := by
    simpa using same 0 positive
  rcases mapped.transfer_cases isWrite positive small here with
    ⟨direct, block, found, moved⟩ | ⟨device, size, some, most, moved⟩
  · refine ⟨_, moved, positive, le_rfl, List.map_congr_left fun i member => ?_⟩
    obtain ⟨other, otherFound, start, -, located⟩ := mapped.locate_direct positive same direct
    obtain rfl : other = block := Option.some.inj (otherFound.symm.trans found)
    rw [located i (List.mem_range.mp member), start,
      show env.ramAddrOf mr + offset - env.ramAddrOf mr = offset by grind]
  · refine ⟨_, moved, some, most, List.map_congr_left fun i member => ?_⟩
    rw [locate, same i ((List.mem_range.mp member).trans_le most)]
    simp only [device, Bool.false_eq_true, if_false]

theorem ofNat_add_ofNat (addr : UInt64) (first i : Nat) :
    addr + .ofNat first + .ofNat i = addr + UInt64.ofNat (first + i) := by
  rw [UInt64.ofNat_add, UInt64.add_assoc]

/-- `address_space_rw` over a range of one region, by the bytes that remain. -/
theorem Mapped.addressSpaceRw_ok (mapped : env.Mapped space) (turns : Nat) {mr : PhysRegion} :
    ∀ {left count : Nat} {addr offset : UInt64}, count ≤ left → count < 2 ^ 31 →
      (∀ i < count, env.resolve (addr + .ofNat i) = (mr, offset + .ofNat i)) →
      ∃ transfers, env.addressSpaceRw isWrite (turns + 1) space left addr count = .ok transfers ∧
        transfers.flatMap Transfer.bytes =
          (List.range count).map fun i => env.locate isWrite (addr + .ofNat i)
  | 0, 0, _, _, _, _, _ => ⟨[], rfl, rfl⟩
  | left + 1, count, addr, offset, enough, small, same => by
    by_cases done : count = 0
    · subst done
      exact ⟨[], rfl, rfl⟩
    have positive : 0 < count := by omega
    have here : env.resolve addr = (mr, offset) := by
      simpa using same 0 positive
    obtain ⟨first, moved, nonempty, bounded, bytes⟩ :
        ∃ first, env.transfer isWrite mr offset (.ofNat count) = .ok first ∧ _ :=
      mapped.transfer_ok positive small same
    have shifted : ∀ i < count - first.len,
        env.resolve (addr + .ofNat first.len + .ofNat i) =
          (mr, offset + .ofNat first.len + .ofNat i) := by
      intro i inRest
      rw [ofNat_add_ofNat, ofNat_add_ofNat]
      exact same _ (by omega)
    obtain ⟨rest, result, restBytes⟩ := mapped.addressSpaceRw_ok turns
      (show count - first.len ≤ left by omega) (by omega) shifted
    refine ⟨first :: rest, ?_, ?_⟩
    · rw [addressSpaceRw, if_neg done, mapped.translate, here]
      simp only [bind, Except.bind, moved, result]
      rfl
    · have split : List.range count = List.range first.len ++
          (List.range (count - first.len)).map (first.len + ·) := by
        rw [← List.range_add, Nat.add_sub_cancel' bounded]
      rw [List.flatMap_cons, bytes, restBytes, split, List.map_append, List.map_map]
      simp only [ofNat_add_ofNat, Function.comp_def]

theorem Mapped.rwBytes_ok (mapped : env.Mapped space) (turns : Nat) (small : count < 2 ^ 31)
    (uniform : Uniform env.guest.view addr count) :
    env.rwBytes isWrite (turns + 1) space addr count =
      .ok ((List.range count).map fun i => env.locate isWrite (addr + .ofNat i)) := by
  obtain ⟨transfers, result, bytes⟩ := mapped.addressSpaceRw_ok turns le_rfl small
    (uniform_iff.mp uniform)
  rw [rwBytes, result, ← bytes]
  rfl

theorem uniform_one (view : FlatView) (addr : UInt64) : Uniform view addr 1 := by
  cases found : view.byteAt addr with
  | none =>
    right
    intro i small
    obtain rfl : i = 0 := by omega
    simpa using found
  | some byte =>
    refine .inl ⟨byte.1, byte.2, fun i small => ?_⟩
    obtain rfl : i = 0 := by omega
    simpa using found

theorem Mapped.rwsExactly (mapped : env.Mapped space)
    (uniform : Uniform env.guest.view addr len.toNat) : env.RwsExactly space addr len := by
  intro turns isWrite small
  refine ⟨_, mapped.rwBytes_ok turns small uniform, by simp, fun i inRange =>
    ⟨env.locate isWrite (addr + .ofNat i), ?_, ?_⟩⟩
  · rw [List.getElem?_map, List.getElem?_range inRange]
    rfl
  · rw [mapped.rwBytes_ok turns (by decide) (uniform_one _ _)]
    simp

/-! ### Mapping ranges of one region -/

theorem mapLoop_whole {base : UInt64} {left : Nat} (some : 0 < left) :
    env.mapLoop isWrite turns space mr base left addr len 0 len = .ok len := by
  cases left with
  | zero => cases some
  | succ left =>
    rw [mapLoop]
    simp only [UInt64.sub_self, UInt64.zero_add, if_pos]
    rfl

theorem Mapped.mapsExactly (mapped : env.Mapped space) (nonempty : len ≠ 0)
    (uniform : Uniform env.guest.view addr len.toNat) : env.MapsExactly space addr len := by
  intro turns isWrite bounced
  have same := uniform_iff.mp uniform
  have positive : 0 < len.toNat := UInt64.pos_iff_ne_zero.mpr nonempty
  rw [addressSpaceMap, if_neg nonempty, mapped.translate]
  simp only [bind, Except.bind]
  by_cases direct : env.memoryAccessIsDirect isWrite (env.resolve addr).1 = true
  · obtain ⟨block, found, start, fits, located⟩ := mapped.locate_direct positive same direct
    have offset_eq : env.ramAddrOf (env.resolve addr).1 + (env.resolve addr).2 - block.offset =
        (env.resolve addr).2 := by grind
    have uncut : env.guest.ramLength (env.ramAddrOf (env.resolve addr).1 + (env.resolve addr).2)
        len = len := by
      rw [GuestSpace.ramLength, found]
      refine if_neg ?_
      rw [offset_eq, UInt64.lt_iff_toNat_lt, UInt64.toNat_add]
      omega
    refine ⟨.ram (block.host + (env.resolve addr).2) len, ?_, UInt64.le_refl len, located⟩
    simp only [direct, Bool.not_true, Bool.false_eq_true, if_false, mapLoop_whole positive]
    rw [ramPtrLength, if_neg nonempty, found]
    simp only [uncut, offset_eq]
  · have min_eq := min_toNat len targetPageSize
    have page : targetPageSize.toNat = 4096 := rfl
    have len_le : min len targetPageSize ≤ len := by
      rw [UInt64.le_iff_toNat_le]
      omega
    simp only [direct, Bool.not_false, if_true]
    cases bounced with
    | true => exact ⟨.null, rfl, trivial⟩
    | false =>
      cases isWrite with
      | true => exact ⟨.bounce (min len targetPageSize) [], rfl, len_le, nofun⟩
      | false =>
        obtain ⟨transfers, result, bytes⟩ := mapped.addressSpaceRw_ok turns le_rfl
          (show (min len targetPageSize).toNat < 2 ^ 31 by omega)
          fun i small => same i (small.trans_le (UInt64.le_iff_toNat_le.mp len_le))
        refine ⟨.bounce (min len targetPageSize) transfers, ?_, len_le, fun _ => bytes⟩
        simp only [Bool.false_eq_true, if_false, result]
        rfl

/-! ### Ranges that start in directly accessed memory -/

/-- The whole length is copied at once, whatever the range goes on with. -/
theorem Mapped.addressSpaceRw_direct (mapped : env.Mapped space) {left : Nat} {block : RAMBlock}
    (direct : env.memoryAccessIsDirect isWrite (env.resolve addr).1 = true)
    (found : env.guest.ramBlock (env.ramAddrOf (env.resolve addr).1 + (env.resolve addr).2) =
      some block) (small : count + 1 < 2 ^ 64) :
    env.addressSpaceRw isWrite (turns + 1) space (left + 1) addr (count + 1) =
      .ok [.copy (env.ramAddrOf (env.resolve addr).1 + (env.resolve addr).2)
        (block.host + (env.ramAddrOf (env.resolve addr).1 + (env.resolve addr).2 - block.offset))
        (count + 1)] := by
  have count_eq : (UInt64.ofNat (count + 1)).toNat = count + 1 := by
    rw [UInt64.toNat_ofNat']
    omega
  have done : env.addressSpaceRw isWrite (turns + 1) space left
      (addr + .ofNat (count + 1)) 0 = .ok [] := by
    cases left <;> rfl
  rw [addressSpaceRw, if_neg (by omega), mapped.translate]
  simp only [bind, Except.bind, transfer, if_pos direct, found, count_eq, Transfer.len,
    Nat.sub_self, done]
  rfl

/-- The whole length is mapped, up to the end of the block. -/
theorem Mapped.addressSpaceMap_direct (mapped : env.Mapped space) {bounced : Bool}
    (nonempty : len ≠ 0)
    (direct : env.memoryAccessIsDirect isWrite (env.resolve addr).1 = true) :
    env.addressSpaceMap isWrite bounced (turns + 1) space addr len =
      env.ramPtrLength (env.ramAddrOf (env.resolve addr).1 + (env.resolve addr).2) len := by
  have positive : 0 < len.toNat := UInt64.pos_iff_ne_zero.mpr nonempty
  rw [addressSpaceMap, if_neg nonempty, mapped.translate]
  simp only [bind, Except.bind, direct, Bool.not_true, Bool.false_eq_true, if_false,
    mapLoop_whole positive]

/-! ### Which ranges are exact -/

theorem Mapped.translatesExactly_iff (mapped : env.Mapped space) (nonempty : len ≠ 0) :
    env.TranslatesExactly space addr len ↔ Uniform env.guest.view addr len.toNat := by
  have positive : 0 < len.toNat := UInt64.pos_iff_ne_zero.mpr nonempty
  constructor
  · intro exact
    obtain ⟨mr, xlat, l, result, -, -, found⟩ := exact 0 false
    rw [mapped.translate] at result
    cases result
    rcases found with ⟨number, -, found⟩ | ⟨-, unassigned⟩
    · exact .inl ⟨number, _, found⟩
    · exact .inr unassigned
  · intro uniform turns isWrite
    refine ⟨_, _, _, mapped.translate turns addr len isWrite, positive, UInt64.le_refl len, ?_⟩
    rcases uniform with ⟨mr, offset, found⟩ | unassigned
    · have first : env.guest.view.byteAt addr = some (mr, offset) := by
        simpa using found 0 positive
      refine .inl ⟨mr, ?_, ?_⟩
      · rw [resolve, first]
      · rw [resolve, first]
        exact found
    · have first : env.guest.view.byteAt addr = none := by
        simpa using unassigned 0 positive
      refine .inr ⟨?_, unassigned⟩
      rw [resolve, first]

/-- Translation, transfers and mapping are exact on the ranges that are of one region, at offsets
in sequence, or not assigned, and translation is exact on no others. -/
theorem addressSpace_exact_iff (mapped : env.Mapped space) (nonempty : len ≠ 0) :
    (env.TranslatesExactly space addr len ∧ env.RwsExactly space addr len ∧
      env.MapsExactly space addr len) ↔ Uniform env.guest.view addr len.toNat := by
  constructor
  · rintro ⟨translates, -, -⟩
    exact (mapped.translatesExactly_iff nonempty).mp translates
  · intro uniform
    exact ⟨(mapped.translatesExactly_iff nonempty).mpr uniform, mapped.rwsExactly uniform,
      mapped.mapsExactly nonempty uniform⟩

end AccessEnv

def halves : FlatView :=
  [⟨1, 0, ⟨0, 0x800⟩, 0, true, false⟩, ⟨2, 0, ⟨0x800, 0x800⟩, 0, true, false⟩]

def halvesRegions : Regions
  | 0 => { memoryRegionInit 0x1000 with subregions := [2, 1] }
  | 1 => { memoryRegionInitRam 0x1000 0 with parent := some 0 }
  | 2 => { memoryRegionInitRam 0x1000 0x1000 with parent := some 0, addr := 0x800 }
  | _ => memoryRegionInit 0

theorem halves_generated : generateMemoryTopology halvesRegions 2 (some 0) = some halves := by
  decide +kernel

def halvesRam : RamList :=
  ⟨[⟨0x100000, 0, 0x1000, -1⟩, ⟨0x200000, 0x1000, 0x1000, -1⟩], by decide, by decide, by decide⟩

def halvesSpace : GuestSpace :=
  .ofTopology halvesRam (fun _ _ => 0) (fun _ _ _ => none)
    (fun mr isRam => by
      match mr with
      | 0 => cases isRam
      | 1 | 2 => decide
      | _ + 3 => cases isRam) halves_generated

def wordOps : AccessOps := ⟨4, false, by decide⟩

/-- A guest without ROM devices and IOMMUs, and the table that is built of its view. -/
def AccessEnv.ofGuest (guest : GuestSpace) : AccessEnv where
  guest := guest
  dispatch _ :=
    match buildDispatch 0 guest.view with
    | .ok d => d
    | .error _ => memBegin
  romDevice _ := false
  ops _ := wordOps
  iommuOps _ := none

theorem AccessEnv.ofGuest_mapped {guest : GuestSpace}
    (built : (buildDispatch 0 guest.view).isOk = true) : (ofGuest guest).Mapped 0 where
  built := by
    refine ⟨0, ?_⟩
    unfold ofGuest
    cases result : buildDispatch 0 guest.view with
    | ok d => rfl
    | error failure =>
      rw [result] at built
      cases built
  noIommu := fun _ _ => rfl
  romBacked := nofun

def halvesEnv : AccessEnv := .ofGuest halvesSpace

theorem halves_mapped : halvesEnv.Mapped 0 := AccessEnv.ofGuest_mapped (by decide +kernel)

theorem addressSpace_exact_halves : halvesEnv.Mapped 0 ∧
    halvesEnv.TranslatesExactly 0 0x10 0x20 ∧ halvesEnv.RwsExactly 0 0x10 0x20 ∧
      halvesEnv.MapsExactly 0 0x10 0x20 :=
  ⟨halves_mapped, (AccessEnv.addressSpace_exact_iff halves_mapped (by decide)).mpr
    (.inl ⟨1, 0x10, by decide +kernel⟩)⟩

/-- A range over the end of a region is taken for bytes of that region, by the translation, a
write and a mapping. -/
theorem addressSpace_overruns : halvesEnv.Mapped 0 ∧
    halvesEnv.addressSpaceTranslate 1 0 0x7f8 16 true = .ok (.memory 1, 0x7f8, 16) ∧
    halves.byteAt 0x800 = some (2, 0) ∧
    ¬ halvesEnv.TranslatesExactly 0 0x7f8 16 ∧ ¬ halvesEnv.RwsExactly 0 0x7f8 16 ∧
    ¬ halvesEnv.MapsExactly 0 0x7f8 16 := by
  have here : halvesEnv.resolve 0x7f8 = (.memory 1, 0x7f8) := by decide +kernel
  have found : halvesEnv.guest.ramBlock (halvesEnv.ramAddrOf (halvesEnv.resolve 0x7f8).1 +
      (halvesEnv.resolve 0x7f8).2) = some ⟨0x100000, 0, 0x1000, -1⟩ := by decide +kernel
  have direct : halvesEnv.memoryAccessIsDirect true (halvesEnv.resolve 0x7f8).1 = true := by
    decide +kernel
  refine ⟨halves_mapped, ?_, by decide +kernel, fun exact => ?_, fun exact => ?_, fun exact => ?_⟩
  · rw [halves_mapped.translate, here]
  · have uniform := AccessEnv.uniform_iff.mp
      ((halves_mapped.translatesExactly_iff (by decide)).mp exact) 8 (by decide)
    cases uniform
  · obtain ⟨bytes, result, -, single⟩ := exact 0 true (by decide)
    obtain ⟨byte, at8, alone⟩ := single 8 (by decide)
    rw [AccessEnv.rwBytes, show (16 : UInt64).toNat = 16 from rfl,
      halves_mapped.addressSpaceRw_direct direct found (by decide)] at result
    rw [show (0x7f8 : UInt64) + .ofNat 8 = 0x800 by decide,
      halves_mapped.rwBytes_ok 0 (by decide) (AccessEnv.uniform_one _ _)] at alone
    cases result
    cases alone
    revert at8
    decide +kernel
  · obtain ⟨mapping, result, denotes⟩ := exact 0 true false
    rw [halves_mapped.addressSpaceMap_direct (by decide) direct, AccessEnv.ramPtrLength, found]
      at result
    cases result
    have := denotes.2 8 (by decide)
    revert this
    decide +kernel

end VhostUser.Qemu
