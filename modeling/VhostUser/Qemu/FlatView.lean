import VhostUser.Qemu.Backend

/-!
Contract: QEMU's memory regions, RAM blocks and flat views (`memory.c`,
`exec.c`), and which byte of RAM a flat view has at a guest-physical address.

`Int128` values are integers. A region is known by a number, and the pointers
between regions are numbers too.
-/

namespace VhostUser.Qemu

structure AddrRange where
  start : Int
  size : Int
deriving DecidableEq, Repr

def AddrRange.last (range : AddrRange) : Int := range.start + range.size

def AddrRange.contains (range : AddrRange) (addr : Int) : Bool :=
  range.start ≤ addr && addr < range.last

theorem AddrRange.contains_iff {range : AddrRange} {addr : Int} :
    range.contains addr = true ↔ range.start ≤ addr ∧ addr < range.start + range.size := by
  rw [contains, Bool.and_eq_true, decide_eq_true_eq, decide_eq_true_eq, last]

def AddrRange.intersects (left right : AddrRange) : Bool :=
  left.contains right.start || right.contains left.start

def AddrRange.intersection (left right : AddrRange) : AddrRange :=
  let start := max left.start right.start
  ⟨start, min left.last right.last - start⟩

/-- The fields that the memory API, rendering and the listeners use. A size is at most the whole
64-bit space. -/
structure MemoryRegion where
  enabled : Bool
  parent : Option Nat
  addr : UInt64
  size : Nat
  size_le : size ≤ 2 ^ 64
  priority : Int
  mayOverlap : Bool
  readonly : Bool
  terminates : Bool
  ram : Bool
  romdMode : Bool
  aliasOf : Option Nat
  aliasOffset : UInt64
  subregions : List Nat
  dirtyLogMask : UInt8
  ramAddr : UInt64

/-- `memory_region_init`, on memory that is zero. The size `UINT64_MAX` is the whole space. -/
def memoryRegionInit (size : UInt64) : MemoryRegion where
  enabled := true
  parent := none
  addr := 0
  size := if size = 0xffffffffffffffff then 2 ^ 64 else size.toNat
  size_le := by
    split
    · rfl
    · exact (UInt64.toNat_lt size).le
  priority := 0
  mayOverlap := false
  readonly := false
  terminates := false
  ram := false
  romdMode := true
  aliasOf := none
  aliasOffset := 0
  subregions := []
  dirtyLogMask := 0
  ramAddr := 0

/-- `memory_region_init_ram`, where `qemu_ram_alloc` returned `ramAddr`. -/
def memoryRegionInitRam (size ramAddr : UInt64) : MemoryRegion :=
  { memoryRegionInit size with ram := true, terminates := true, ramAddr }

abbrev Regions := Nat → MemoryRegion

structure FlatRange where
  mr : Nat
  offsetInRegion : UInt64
  addr : AddrRange
  dirtyLogMask : UInt8
  romdMode : Bool
  readonly : Bool
deriving DecidableEq, Repr

abbrev FlatView := List FlatRange

/-- The RAM address a flat view has at a guest-physical address, if it is RAM. -/
def FlatView.ramAddrAt (regions : Regions) (view : FlatView) (gpa : UInt64) : Option UInt64 :=
  match view.find? fun range => range.addr.contains gpa.toNat with
  | some range =>
    let mr := regions range.mr
    if mr.ram then
      some (mr.ramAddr + range.offsetInRegion + (gpa - .ofInt range.addr.start))
    else none
  | none => none

/-! ### RAM blocks -/

def RAMBlock.holds (block : RAMBlock) (ramAddr : UInt64) : Bool :=
  block.offset ≤ ramAddr && ramAddr < block.offset + block.length

/-- `ram_list`, with what `qemu_ram_alloc` and `find_ram_offset` keep. -/
structure RamList where
  blocks : List RAMBlock
  pageSized : ∀ block ∈ blocks, 4096 ≤ block.length.toNat
  bounded : ∀ block ∈ blocks, block.offset.toNat + block.length.toNat < 2 ^ 64
  disjoint : blocks.Pairwise fun left right =>
    left.offset.toNat + left.length.toNat ≤ right.offset.toNat ∨
      right.offset.toNat + right.length.toNat ≤ left.offset.toNat

/-- A byte of a file-backed block: the position of the block in `backed` and
the offset in its file. -/
def fileByteAt (backed : List RAMBlock) (ramAddr : UInt64) : Option (Nat × UInt64) :=
  (backed.zipIdx.find? fun entry => entry.1.holds ramAddr).map fun entry =>
    (entry.2, ramAddr - entry.1.offset)

/-- The byte of a file-backed block that a flat view has at `gpa`. -/
def FlatView.fileByteAt (regions : Regions) (backed : List RAMBlock) (view : FlatView)
    (gpa : UInt64) : Option (Nat × UInt64) :=
  (view.ramAddrAt regions gpa).bind (Qemu.fileByteAt backed)

section Blocks

variable {block : RAMBlock} {ramAddr : UInt64}

theorem RAMBlock.holds_iff (bounded : block.offset.toNat + block.length.toNat < 2 ^ 64) :
    block.holds ramAddr = true ↔ block.offset.toNat ≤ ramAddr.toNat ∧
      ramAddr.toNat < block.offset.toNat + block.length.toNat := by
  simp only [RAMBlock.holds, Bool.and_eq_true, decide_eq_true_eq, UInt64.le_iff_toNat_le,
    UInt64.lt_iff_toNat_lt, UInt64.toNat_add, Nat.mod_eq_of_lt bounded]

theorem RAMBlock.offset_lt (bounded : block.offset.toNat + block.length.toNat < 2 ^ 64)
    (held : block.holds ramAddr = true) :
    (ramAddr - block.offset).toNat < block.length.toNat := by
  rw [RAMBlock.holds_iff bounded] at held
  rw [UInt64.toNat_sub]
  omega

theorem fileByteAt_some {backed : List RAMBlock} {idx : Nat} {offset : UInt64}
    (found : fileByteAt backed ramAddr = some (idx, offset)) :
    ∃ block, backed[idx]? = some block ∧ block.holds ramAddr = true ∧
      offset = ramAddr - block.offset := by
  obtain ⟨⟨block, position⟩, search, same⟩ := Option.map_eq_some_iff.mp found
  cases same
  have held := List.find?_some search
  exact ⟨block, List.mk_mem_zipIdx_iff_getElem?.mp (List.mem_of_find?_eq_some search), held, rfl⟩

end Blocks

namespace RamList

variable (ram : RamList) {block : RAMBlock} {idx : Nat}

theorem backed_mem (member : block ∈ fileBacked ram.blocks) : block ∈ ram.blocks :=
  (List.mem_filter.mp member).1

theorem backed_bounded (at_ : (fileBacked ram.blocks)[idx]? = some block) :
    block.offset.toNat + block.length.toNat < 2 ^ 64 :=
  ram.bounded _ (ram.backed_mem (List.mem_of_getElem? at_))

theorem backed_unique {left right : Nat} {leftBlock rightBlock : RAMBlock} {ramAddr : UInt64}
    (leftAt : (fileBacked ram.blocks)[left]? = some leftBlock)
    (rightAt : (fileBacked ram.blocks)[right]? = some rightBlock)
    (leftHolds : leftBlock.holds ramAddr = true) (rightHolds : rightBlock.holds ramAddr = true) :
    left = right := by
  rw [RAMBlock.holds_iff (ram.backed_bounded leftAt)] at leftHolds
  rw [RAMBlock.holds_iff (ram.backed_bounded rightAt)] at rightHolds
  have separate : (fileBacked ram.blocks).Pairwise _ := ram.disjoint.sublist List.filter_sublist
  rw [List.pairwise_iff_getElem] at separate
  obtain ⟨leftLt, rfl⟩ := List.getElem?_eq_some_iff.mp leftAt
  obtain ⟨rightLt, rfl⟩ := List.getElem?_eq_some_iff.mp rightAt
  rcases Nat.lt_trichotomy left right with before | same | after
  · have := separate left right leftLt rightLt before
    omega
  · exact same
  · have := separate right left rightLt leftLt after
    omega

theorem fileByteAt_of_holds {ramAddr : UInt64} (at_ : (fileBacked ram.blocks)[idx]? = some block)
    (held : block.holds ramAddr = true) :
    fileByteAt (fileBacked ram.blocks) ramAddr = some (idx, ramAddr - block.offset) := by
  cases search : fileByteAt (fileBacked ram.blocks) ramAddr with
  | none =>
    rw [fileByteAt, Option.map_eq_none_iff, List.find?_eq_none] at search
    exact absurd held (search (block, idx) (List.mk_mem_zipIdx_iff_getElem?.mpr at_))
  | some found =>
    obtain ⟨other, offset⟩ := found
    obtain ⟨otherBlock, otherAt, otherHolds, rfl⟩ := fileByteAt_some search
    obtain rfl := ram.backed_unique otherAt at_ otherHolds held
    rw [otherAt, Option.some.injEq] at at_
    rw [at_]

theorem second_byte (at_ : (fileBacked ram.blocks)[idx]? = some block) :
    ∃ ramAddr, fileByteAt (fileBacked ram.blocks) ramAddr = some (idx, 1) := by
  have bounded := ram.backed_bounded at_
  have page := ram.pageSized _ (ram.backed_mem (List.mem_of_getElem? at_))
  have held : block.holds (block.offset + 1) = true := by
    simp only [RAMBlock.holds_iff bounded, UInt64.toNat_add, UInt64.reduceToNat]
    omega
  refine ⟨block.offset + 1, ?_⟩
  rw [ram.fileByteAt_of_holds at_ held, UInt64.add_comm, UInt64.add_sub_cancel]

end RamList

end VhostUser.Qemu
