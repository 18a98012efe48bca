import VhostUser.Qemu.DeviceWrites
import Mathlib.Data.List.Sort

/-!
Contract: the list of RAM blocks over allocations, frees and lookups (`exec.c`:
`find_ram_offset`, `qemu_ram_alloc_from_ptr`, `qemu_ram_free`, `qemu_get_ram_block`).

A call that asserts or aborts is `none`, and so is an access past the end of
`ram_list.phys_dirty`. Where the memory of a block comes from is a parameter of the call.

Owns: what every run keeps of the blocks, the dirty flags and the block used last. This is
what `RamList` asks for.
-/

namespace VhostUser.Qemu

open VhostUser.Lib

/-! ### Dirty flags -/

/-- `ram_list.phys_dirty`, with its number of entries. -/
structure PhysDirtyArray where
  size : Nat
  flags : PhysDirty

namespace PhysDirtyArray

def realloc (array : PhysDirtyArray) (size : Nat) (fresh : PhysDirty) : PhysDirtyArray :=
  ⟨size, fun page => if page < array.size then array.flags page else fresh page⟩

def memset (array : PhysDirtyArray) (start count : Nat) : Option PhysDirtyArray :=
  if start + count ≤ array.size then
    some { array with
      flags := fun page => if start ≤ page ∧ page < start + count then 0 else array.flags page }
  else none

def setDirtyLoop (flags : UInt8) : Nat → PhysDirtyArray → UInt64 → UInt64 → Option PhysDirtyArray
  | 0, array, addr, stop => if addr < stop then none else some array
  | turns + 1, array, addr, stop =>
    if addr < stop then
      if pageOf addr < array.size then
        setDirtyLoop flags turns
          { array with flags := cpuPhysicalMemorySetDirtyFlags array.flags addr flags }
          (addr + targetPageSize) stop
      else none
    else some array

def setDirtyRange (array : PhysDirtyArray) (start length : UInt64) (flags : UInt8) :
    Option PhysDirtyArray :=
  let stop := targetPageAlign (start + length)
  let start := start &&& targetPageMask
  setDirtyLoop flags ((stop - start).toNat / 4096) array start stop

end PhysDirtyArray

/-! ### Blocks -/

def ramAddrMax : UInt64 := 0xffffffffffffffff

/-- The offset of the next block behind `stop`, in `find_ram_offset`. -/
def nextOffset (blocks : List RAMBlock) (stop : UInt64) : UInt64 :=
  blocks.foldl (fun next block => if stop ≤ block.offset then min next block.offset else next)
    ramAddrMax

/-- A turn of the outer loop of `find_ram_offset`, on `offset` and `mingap`. -/
def fitGap (blocks : List RAMBlock) (size : UInt64) (best : UInt64 × UInt64) (block : RAMBlock) :
    UInt64 × UInt64 :=
  let stop := block.offset + block.length
  let next := nextOffset blocks stop
  if size ≤ next - stop && next - stop < best.2 then (stop, next - stop) else best

def findRamOffset (blocks : List RAMBlock) (size : UInt64) : Option UInt64 :=
  if size = 0 then none
  else if blocks.isEmpty then some 0
  else
    let best := blocks.foldl (fitGap blocks size) (ramAddrMax, ramAddrMax)
    if best.1 = ramAddrMax then none else some best.1

def lastRamOffset (blocks : List RAMBlock) : UInt64 :=
  blocks.foldl (fun last block => max last (block.offset + block.length)) 0

structure RamState where
  blocks : List RAMBlock
  mruBlock : Option RAMBlock
  physDirty : PhysDirtyArray

/-- The block is put before the first smaller one. -/
def insertBlock (new : RAMBlock) (blocks : List RAMBlock) : List RAMBlock :=
  blocks.orderedInsert (fun new block => block.length < new.length) new

/-- `qemu_ram_alloc_from_ptr`: the offset and the list after it. The memory of the block is at
`host`, with the file `fd`. -/
def qemuRamAllocFromPtr (ram : RamState) (size host : UInt64) (fd : Int) (fresh : PhysDirty) :
    Option (UInt64 × RamState) := do
  let size := targetPageAlign size
  let offset ← findRamOffset ram.blocks size
  let blocks := insertBlock ⟨host, offset, size, fd⟩ ram.blocks
  let dirty := ram.physDirty.realloc (lastRamOffset blocks >>> 12).toNat fresh
  let dirty ← dirty.memset (offset >>> 12).toNat (size >>> 12).toNat
  let dirty ← dirty.setDirtyRange offset size 0xff
  return (offset, ⟨blocks, none, dirty⟩)

/-- `qemu_ram_free` and `qemu_ram_free_from_ptr`. -/
def qemuRamFree (ram : RamState) (addr : UInt64) : RamState :=
  if ram.blocks.any fun block => addr = block.offset then
    { ram with
      blocks := ram.blocks.eraseP fun block => addr = block.offset
      mruBlock := none }
  else ram

def RAMBlock.covers (block : RAMBlock) (addr : UInt64) : Bool :=
  addr - block.offset < block.length

/-- `qemu_get_ram_block`: the block and the list after it. -/
def qemuGetRamBlock (ram : RamState) (addr : UInt64) : Option (RAMBlock × RamState) :=
  let block? :=
    match ram.mruBlock.filter fun block => block.covers addr with
    | some block => some block
    | none => ram.blocks.find? fun block => block.covers addr
  block?.map fun block => (block, { ram with mruBlock := some block })

inductive RamCall where
  | alloc (size host : UInt64) (fd : Int) (fresh : PhysDirty)
  | free (addr : UInt64)
  | getBlock (addr : UInt64)

def ramMachine : Machine RamState RamCall where
  start ram := ram.blocks = [] ∧ ram.mruBlock = none ∧ ram.physDirty.size = 0
  step ram
    | .alloc size host fd fresh => (qemuRamAllocFromPtr ram size host fd fresh).map (·.2)
    | .free addr => some (qemuRamFree ram addr)
    | .getBlock addr => (qemuGetRamBlock ram addr).map (·.2)

/-! ### What every run keeps -/

def RAMBlock.Apart (left right : RAMBlock) : Prop :=
  left.offset.toNat + left.length.toNat ≤ right.offset.toNat ∨
    right.offset.toNat + right.length.toNat ≤ left.offset.toNat

/-- A block of whole pages, which ends in the address space. -/
structure RAMBlock.Paged (block : RAMBlock) : Prop where
  offset : block.offset.toNat % 4096 = 0
  length : block.length.toNat % 4096 = 0
  nonempty : 0 < block.length.toNat
  bounded : block.offset.toNat + block.length.toNat < 2 ^ 64

structure RamState.Sound (ram : RamState) : Prop where
  paged : ∀ block ∈ ram.blocks, block.Paged
  disjoint : ram.blocks.Pairwise RAMBlock.Apart
  sorted : ram.blocks.Pairwise fun left right => right.length ≤ left.length
  cached : ∀ block, ram.mruBlock = some block → block ∈ ram.blocks
  dirty : ∀ block ∈ ram.blocks, block.offset.toNat + block.length.toNat ≤ 4096 * ram.physDirty.size

section Blocks

variable {block other : RAMBlock} {blocks : List RAMBlock} {addr stop size offset : UInt64}

theorem RAMBlock.Apart.symm (apart : block.Apart other) : other.Apart block := Or.symm apart

theorem RAMBlock.Paged.toNat_stop (paged : block.Paged) :
    (block.offset + block.length).toNat = block.offset.toNat + block.length.toNat := by
  rw [UInt64.toNat_add, Nat.mod_eq_of_lt paged.bounded]

theorem RAMBlock.Paged.covers_iff (paged : block.Paged) : block.covers addr = true ↔
    block.offset.toNat ≤ addr.toNat ∧ addr.toNat < block.offset.toNat + block.length.toNat := by
  have := paged.bounded
  have := addr.toNat_lt
  rw [RAMBlock.covers, decide_eq_true_eq, UInt64.lt_iff_toNat_lt, UInt64.toNat_sub]
  omega

/-! ### Finding a gap -/

/-- From `init` on, the loop takes the least offset behind `stop`. -/
theorem foldl_nextOffset : ∀ (blocks : List RAMBlock) {init : UInt64}, stop ≤ init →
    let next := blocks.foldl (fun next block =>
      if stop ≤ block.offset then min next block.offset else next) init
    stop ≤ next ∧ next ≤ init ∧ ∀ block ∈ blocks, stop ≤ block.offset → next ≤ block.offset
  | [], init, low => ⟨low, UInt64.le_refl init, nofun⟩
  | block :: blocks, init, low => by
    simp only [List.foldl_cons]
    by_cases behind : stop ≤ block.offset
    · rw [if_pos behind]
      have least := min_toNat init block.offset
      rw [UInt64.le_iff_toNat_le] at low behind
      obtain ⟨above, below, nearest⟩ := foldl_nextOffset blocks
        (show stop ≤ min init block.offset by rw [UInt64.le_iff_toNat_le]; omega)
      rw [UInt64.le_iff_toNat_le] at below
      refine ⟨above, UInt64.le_iff_toNat_le.mpr (by omega), fun other member isBehind => ?_⟩
      rcases List.mem_cons.mp member with rfl | member
      · exact UInt64.le_iff_toNat_le.mpr (by omega)
      · exact nearest other member isBehind
    · rw [if_neg behind]
      obtain ⟨above, below, nearest⟩ := foldl_nextOffset blocks low
      refine ⟨above, below, fun other member isBehind => ?_⟩
      rcases List.mem_cons.mp member with rfl | member
      · exact absurd isBehind behind
      · exact nearest other member isBehind

theorem nextOffset_spec (blocks : List RAMBlock) (stop : UInt64) :
    stop ≤ nextOffset blocks stop ∧
      ∀ block ∈ blocks, stop ≤ block.offset → nextOffset blocks stop ≤ block.offset := by
  have high : stop ≤ ramAddrMax := by
    have := stop.toNat_lt
    rw [UInt64.le_iff_toNat_le, show ramAddrMax.toNat = 2 ^ 64 - 1 from rfl]
    omega
  obtain ⟨above, -, nearest⟩ := foldl_nextOffset blocks high
  exact ⟨above, nearest⟩

/-- The offset is at the end of a block, with enough room behind it. -/
def EndsBlock (blocks : List RAMBlock) (size offset : UInt64) : Prop :=
  ∃ block ∈ blocks, offset = block.offset + block.length ∧ size ≤ nextOffset blocks offset - offset

theorem foldl_fitGap : ∀ {rest : List RAMBlock} {best : UInt64 × UInt64}, rest ⊆ blocks →
    best.1 = ramAddrMax ∨ EndsBlock blocks size best.1 →
    (rest.foldl (fitGap blocks size) best).1 = ramAddrMax ∨
      EndsBlock blocks size (rest.foldl (fitGap blocks size) best).1
  | [], _, _, known => known
  | block :: rest, best, inBlocks, known => by
    rw [List.foldl_cons]
    refine foldl_fitGap (List.cons_subset.mp inBlocks).2 ?_
    rw [fitGap]
    split
    next fits =>
      rw [Bool.and_eq_true, decide_eq_true_eq] at fits
      exact .inr ⟨block, inBlocks List.mem_cons_self, rfl, fits.1⟩
    next => exact known

theorem findRamOffset_cases (found : findRamOffset blocks size = some offset) :
    size ≠ 0 ∧ (blocks = [] ∧ offset = 0 ∨ EndsBlock blocks size offset) := by
  rw [findRamOffset] at found
  split at found
  next => cases found
  next nonzero =>
    refine ⟨nonzero, ?_⟩
    split at found
    next empty =>
      cases found
      exact .inl ⟨List.isEmpty_iff.mp empty, rfl⟩
    next =>
      simp only at found
      split at found
      next => cases found
      next notMax =>
        cases found
        exact .inr ((foldl_fitGap (List.Subset.refl blocks) (.inl rfl)).resolve_left notMax)

theorem findRamOffset_fits (paged : ∀ block ∈ blocks, block.Paged)
    (disjoint : blocks.Pairwise RAMBlock.Apart) (whole : size.toNat % 4096 = 0)
    (found : findRamOffset blocks size = some offset) (host : UInt64) (fd : Int) :
    RAMBlock.Paged ⟨host, offset, size, fd⟩ ∧
      ∀ block ∈ blocks, RAMBlock.Apart ⟨host, offset, size, fd⟩ block := by
  obtain ⟨nonzero, ⟨rfl, rfl⟩ | ⟨before, member, rfl, room⟩⟩ := findRamOffset_cases found
  all_goals have positive : size.toNat ≠ 0 := fun zero => nonzero (UInt64.toNat_inj.mp zero)
  · have := size.toNat_lt
    exact ⟨⟨rfl, whole, by dsimp only; omega, by dsimp only; rw [UInt64.toNat_zero]; omega⟩, nofun⟩
  · have stop := (paged before member).toNat_stop
    obtain ⟨above, nearest⟩ := nextOffset_spec blocks (before.offset + before.length)
    have gap : (nextOffset blocks (before.offset + before.length) -
        (before.offset + before.length)).toNat =
          (nextOffset blocks (before.offset + before.length)).toNat -
            (before.offset + before.length).toNat := UInt64.toNat_sub_of_le _ _ above
    rw [UInt64.le_iff_toNat_le] at above room
    have := (nextOffset blocks (before.offset + before.length)).toNat_lt
    refine ⟨⟨?_, whole, by dsimp only; omega, by dsimp only; omega⟩, fun block isBlock => ?_⟩
    · obtain ⟨offset, length, -, -⟩ := paged before member
      dsimp only
      omega
    by_cases behind : before.offset + before.length ≤ block.offset
    · have next := nearest block isBlock behind
      rw [UInt64.le_iff_toNat_le] at next
      exact .inl (by dsimp only; omega)
    refine .inr ?_
    rw [UInt64.le_iff_toNat_le] at behind
    dsimp only
    by_cases same : block = before
    · subst same
      omega
    have : Std.Symm RAMBlock.Apart := ⟨fun _ _ => RAMBlock.Apart.symm⟩
    have apart := disjoint.forall isBlock member same
    rw [RAMBlock.Apart] at apart
    omega

/-! ### The list -/

theorem insertBlock_perm (new : RAMBlock) (blocks : List RAMBlock) :
    (insertBlock new blocks).Perm (new :: blocks) := List.perm_orderedInsert _ new blocks

theorem insertBlock_sorted {new : RAMBlock} : ∀ {blocks : List RAMBlock},
    blocks.Pairwise (fun left right => right.length ≤ left.length) →
    (insertBlock new blocks).Pairwise fun left right => right.length ≤ left.length
  | [], _ => List.pairwise_singleton _ _
  | block :: blocks, sorted => by
    have ⟨first, later⟩ := List.pairwise_cons.mp sorted
    rw [insertBlock, List.orderedInsert_cons]
    split
    next smaller =>
      refine List.pairwise_cons.mpr ⟨fun other member => ?_, sorted⟩
      rw [UInt64.lt_iff_toNat_lt] at smaller
      rw [UInt64.le_iff_toNat_le]
      rcases List.mem_cons.mp member with rfl | member
      · omega
      · have := UInt64.le_iff_toNat_le.mp (first other member)
        omega
    next notSmaller =>
      refine List.pairwise_cons.mpr ⟨fun other member => ?_, insertBlock_sorted later⟩
      rcases List.mem_cons.mp ((insertBlock_perm new blocks).mem_iff.mp member) with
        rfl | member
      · rw [UInt64.lt_iff_toNat_lt] at notSmaller
        rw [UInt64.le_iff_toNat_le]
        omega
      · exact first other member

theorem foldl_lastRamOffset : ∀ {blocks : List RAMBlock} {init : UInt64},
    (∀ block ∈ blocks, block.Paged) →
    let last := blocks.foldl (fun last block => max last (block.offset + block.length)) init
    init ≤ last ∧ (∀ block ∈ blocks, block.offset.toNat + block.length.toNat ≤ last.toNat) ∧
      (last = init ∨ ∃ block ∈ blocks, last.toNat = block.offset.toNat + block.length.toNat)
  | [], init, _ => ⟨UInt64.le_refl init, nofun, .inl rfl⟩
  | block :: blocks, init, paged => by
    have stop := (paged block List.mem_cons_self).toNat_stop
    have greatest := max_toNat init (block.offset + block.length)
    obtain ⟨above, covers, reached⟩ := @foldl_lastRamOffset blocks
      (max init (block.offset + block.length)) fun other member =>
        paged other (List.mem_cons_of_mem _ member)
    rw [UInt64.le_iff_toNat_le] at above
    simp only [List.foldl_cons]
    refine ⟨UInt64.le_iff_toNat_le.mpr (by omega), fun other member => ?_, ?_⟩
    · rcases List.mem_cons.mp member with rfl | member
      · omega
      · exact covers other member
    rcases reached with same | ⟨other, member, same⟩
    · rw [same]
      by_cases larger : (block.offset + block.length).toNat ≤ init.toNat
      · exact .inl (UInt64.toNat_inj.mp (by omega))
      · exact .inr ⟨block, List.mem_cons_self, by omega⟩
    · exact .inr ⟨other, List.mem_cons_of_mem _ member, same⟩

end Blocks

/-! ### Marking a block -/

namespace PhysDirtyArray

variable {array : PhysDirtyArray} {addr stop : UInt64}

theorem setDirtyLoop_ok (flags : UInt8) : ∀ {turns : Nat} {array : PhysDirtyArray} {addr : UInt64},
    addr.toNat % 4096 = 0 → stop.toNat = addr.toNat + 4096 * turns →
    stop.toNat ≤ 4096 * array.size →
    ∃ after, setDirtyLoop flags turns array addr stop = some after ∧ after.size = array.size ∧
      ∀ page, after.flags page =
        if pageOf addr ≤ page ∧ page < pageOf addr + turns then array.flags page ||| flags
        else array.flags page
  | 0, array, addr, aligned, length, room => by
    refine ⟨array, if_neg ?_, rfl, fun page => (if_neg (by omega)).symm⟩
    rw [UInt64.lt_iff_toNat_lt]
    omega
  | turns + 1, array, addr, aligned, length, room => by
    have size : targetPageSize.toNat = 4096 := rfl
    have := stop.toNat_lt
    have next : (addr + targetPageSize).toNat = addr.toNat + 4096 := by
      rw [UInt64.toNat_add, size]
      omega
    have here : pageOf addr = addr.toNat / 4096 := rfl
    have there : pageOf (addr + targetPageSize) = pageOf addr + 1 := by
      rw [pageOf, next, pageOf]
      omega
    have more : addr < stop := by
      rw [UInt64.lt_iff_toNat_lt]
      omega
    rw [setDirtyLoop, if_pos more, if_pos (by omega)]
    obtain ⟨after, result, size_eq, marked⟩ := @setDirtyLoop_ok flags turns
      { array with flags := cpuPhysicalMemorySetDirtyFlags array.flags addr flags }
      (addr + targetPageSize) (by omega) (by omega) room
    refine ⟨after, result, size_eq, fun page => ?_⟩
    rw [marked, there]
    simp only [cpuPhysicalMemorySetDirtyFlags]
    split_ifs <;> first | rfl | omega

theorem setDirtyRange_ok {start length : UInt64} (flags : UInt8) (aligned : start.toNat % 4096 = 0)
    (whole : length.toNat % 4096 = 0) (bounded : start.toNat + length.toNat < 2 ^ 64)
    (room : start.toNat + length.toNat ≤ 4096 * array.size) :
    ∃ after, array.setDirtyRange start length flags = some after ∧ after.size = array.size ∧
      ∀ page, after.flags page =
        if pageOf start ≤ page ∧ page < pageOf start + pageOf length then
          array.flags page ||| flags
        else array.flags page := by
  have sum : (start + length).toNat = start.toNat + length.toNat := by
    rw [UInt64.toNat_add, Nat.mod_eq_of_lt bounded]
  have start_eq : start &&& targetPageMask = start := by
    rw [← UInt64.toNat_inj, toNat_pageBase, pageOf]
    omega
  have stop_eq : (targetPageAlign (start + length)).toNat = start.toNat + length.toNat := by
    have rounded : (start + length + targetPageSize - 1).toNat =
        (start.toNat + length.toNat + 4095) % 2 ^ 64 := by
      rw [UInt64.toNat_sub, UInt64.toNat_add, sum]
      simp only [targetPageSize, UInt64.reduceToNat]
      omega
    rw [targetPageAlign, toNat_pageBase, pageOf, rounded]
    omega
  have difference : (targetPageAlign (start + length) - start).toNat = length.toNat := by
    rw [UInt64.toNat_sub_of_le _ _ (UInt64.le_iff_toNat_le.mpr (by omega)), stop_eq]
    omega
  rw [setDirtyRange]
  simp only [start_eq, difference]
  exact setDirtyLoop_ok flags aligned (by omega) (by omega)

end PhysDirtyArray

/-! ### Allocation -/

def RAMBlock.HasPage (block : RAMBlock) (page : Nat) : Prop :=
  pageOf block.offset ≤ page ∧ page < pageOf block.offset + pageOf block.length

instance (block : RAMBlock) (page : Nat) : Decidable (block.HasPage page) :=
  inferInstanceAs (Decidable (_ ∧ _))

/-- The block is added, its pages are dirty, and the flags of the others stay. -/
structure Allocates (ram : RamState) (block : RAMBlock) (next : RamState) : Prop where
  added : next.blocks.Perm (block :: ram.blocks)
  marked : ∀ page < next.physDirty.size, next.physDirty.flags page =
    if block.HasPage page then 0xff else ram.physDirty.flags page

namespace RamState.Sound

variable {ram : RamState} {size offset : UInt64}

theorem pageAlign_whole (size : UInt64) : (targetPageAlign size).toNat % 4096 = 0 := by
  rw [targetPageAlign, toNat_pageBase]
  omega

theorem insert (sound : ram.Sound) {block : RAMBlock} {dirty : PhysDirtyArray}
    (paged : block.Paged) (apart : ∀ other ∈ ram.blocks, block.Apart other)
    (room : ∀ other ∈ insertBlock block ram.blocks,
      other.offset.toNat + other.length.toNat ≤ 4096 * dirty.size) :
    Sound ⟨insertBlock block ram.blocks, none, dirty⟩ where
  paged other member := by
    rcases List.mem_cons.mp ((insertBlock_perm block ram.blocks).mem_iff.mp member)
      with rfl | member
    · exact paged
    · exact sound.paged other member
  disjoint := ((insertBlock_perm block ram.blocks).pairwise_iff RAMBlock.Apart.symm).mpr
    (List.pairwise_cons.mpr ⟨apart, sound.disjoint⟩)
  sorted := insertBlock_sorted sound.sorted
  cached := nofun
  dirty := room

/-- A new block begins where a block ends, so no page is skipped. -/
theorem offset_le (sound : ram.Sound) (found : findRamOffset ram.blocks size = some offset) :
    offset.toNat ≤ 4096 * ram.physDirty.size := by
  obtain ⟨-, ⟨-, rfl⟩ | ⟨before, member, rfl, -⟩⟩ := findRamOffset_cases found
  · exact Nat.zero_le _
  · rw [(sound.paged before member).toNat_stop]
    exact sound.dirty before member

/-- `realloc`, `memset` and the loop, for a new block that begins on or before the end of the
flags. -/
theorem mark (sound : ram.Sound) {new : RAMBlock} (paged : new.Paged)
    (apart : ∀ block ∈ ram.blocks, new.Apart block)
    (begins : new.offset.toNat ≤ 4096 * ram.physDirty.size) (fresh : PhysDirty) :
    ∃ cleared dirty,
      (ram.physDirty.realloc (lastRamOffset (insertBlock new ram.blocks) >>> 12).toNat
        fresh).memset (new.offset >>> 12).toNat (new.length >>> 12).toNat = some cleared ∧
      cleared.setDirtyRange new.offset new.length 0xff = some dirty ∧
      Sound ⟨insertBlock new ram.blocks, none, dirty⟩ ∧
      Allocates ram new ⟨insertBlock new ram.blocks, none, dirty⟩ := by
  have perm := insertBlock_perm new ram.blocks
  have allPaged : ∀ block ∈ insertBlock new ram.blocks, block.Paged := by
    intro block member
    rcases List.mem_cons.mp (perm.mem_iff.mp member) with rfl | member
    · exact paged
    · exact sound.paged block member
  have ⟨aligned, whole, nonempty, bounded⟩ := paged
  obtain ⟨-, covers, reached⟩ := @foldl_lastRamOffset _ 0 allPaged
  rw [← lastRamOffset] at covers reached
  generalize lastRamOffset (insertBlock new ram.blocks) = last at covers reached ⊢
  have newEnd := covers new (perm.mem_iff.mpr List.mem_cons_self)
  obtain ⟨final, isBlock, final_eq⟩ := reached.resolve_left (by
    rintro rfl
    rw [UInt64.toNat_zero] at newEnd
    omega)
  obtain ⟨finalOffset, finalLength, -, -⟩ := allPaged final isBlock
  have pageOffset : pageOf new.offset = new.offset.toNat / 4096 := rfl
  have pageLength : pageOf new.length = new.length.toNat / 4096 := rfl
  have pageLast : pageOf last = last.toNat / 4096 := rfl
  obtain ⟨dirty, marks, size_eq, marked⟩ := @PhysDirtyArray.setDirtyRange_ok
    ⟨pageOf last, fun page => if new.HasPage page then 0
      else if page < ram.physDirty.size then ram.physDirty.flags page else fresh page⟩
    new.offset new.length 0xff aligned whole bounded (by dsimp only; omega)
  dsimp only at size_eq marked
  refine ⟨_, dirty, ?_, marks, sound.insert paged apart fun other member => ?_, perm,
    fun page inside => ?_⟩
  · simp only [PhysDirtyArray.memset, PhysDirtyArray.realloc, toNat_shiftPage]
    rw [if_pos (by omega)]
    rfl
  · have := covers other member
    omega
  dsimp only at inside ⊢
  rw [marked]
  by_cases has : new.HasPage page
  · rw [if_pos has, if_pos has, if_pos (show _ ∧ _ from has)]
    rfl
  rw [if_neg has, if_neg has, if_neg (show ¬(_ ∧ _) from has), if_pos]
  -- a page behind the old flags belongs to the new block
  rw [RAMBlock.HasPage] at has
  rcases List.mem_cons.mp (perm.mem_iff.mp isBlock) with rfl | member
  · omega
  · have := sound.dirty final member
    omega

theorem alloc (sound : ram.Sound)
    (found : findRamOffset ram.blocks (targetPageAlign size) = some offset) (host : UInt64)
    (fd : Int) (fresh : PhysDirty) :
    ∃ next, qemuRamAllocFromPtr ram size host fd fresh = some (offset, next) ∧ next.Sound ∧
      Allocates ram ⟨host, offset, targetPageAlign size, fd⟩ next := by
  obtain ⟨paged, apart⟩ := findRamOffset_fits sound.paged sound.disjoint (pageAlign_whole size)
    found host fd
  obtain ⟨cleared, dirty, clears, marks, nextSound, allocates⟩ :=
    sound.mark paged apart (sound.offset_le found) fresh
  refine ⟨_, ?_, nextSound, allocates⟩
  rw [qemuRamAllocFromPtr]
  simp only [found, bind, Option.bind, clears, marks]
  rfl

theorem alloc_none (none : findRamOffset ram.blocks (targetPageAlign size) = none) (host : UInt64)
    (fd : Int) (fresh : PhysDirty) : qemuRamAllocFromPtr ram size host fd fresh = .none := by
  rw [qemuRamAllocFromPtr]
  simp only [none, bind, Option.bind]

/-! ### Frees and lookups -/

theorem free (sound : ram.Sound) (addr : UInt64) : (qemuRamFree ram addr).Sound := by
  rw [qemuRamFree]
  split
  · have fewer : (ram.blocks.eraseP fun block => addr = block.offset).Sublist ram.blocks :=
      List.eraseP_sublist
    exact ⟨fun block member => sound.paged block (fewer.subset member),
      sound.disjoint.sublist fewer, sound.sorted.sublist fewer, nofun,
      fun block member => sound.dirty block (fewer.subset member)⟩
  · exact sound

variable {addr : UInt64} {block : RAMBlock}

theorem getBlock (sound : ram.Sound) (member : block ∈ ram.blocks) (covers : block.covers addr) :
    qemuGetRamBlock ram addr = some (block, { ram with mruBlock := some block }) := by
  have only : ∀ other ∈ ram.blocks, other.covers addr → other = block := by
    intro other isOther otherCovers
    by_contra different
    have : Std.Symm RAMBlock.Apart := ⟨fun _ _ => RAMBlock.Apart.symm⟩
    have apart := sound.disjoint.forall isOther member different
    rw [(sound.paged block member).covers_iff] at covers
    rw [(sound.paged other isOther).covers_iff] at otherCovers
    rw [RAMBlock.Apart] at apart
    omega
  rw [qemuGetRamBlock]
  cases cache : ram.mruBlock.filter fun block => block.covers addr with
  | some found =>
    obtain ⟨isCached, foundCovers⟩ := Option.filter_eq_some_iff.mp cache
    rw [only found (sound.cached found isCached) foundCovers]
    rfl
  | none =>
    cases search : ram.blocks.find? fun block => block.covers addr with
    | none => exact absurd covers (List.find?_eq_none.mp search block member)
    | some found =>
      have foundCovers := List.find?_some search
      rw [only found (List.mem_of_find?_eq_some search) foundCovers]
      rfl

theorem of_getBlock (sound : ram.Sound) {next : RamState}
    (result : qemuGetRamBlock ram addr = some (block, next)) :
    block ∈ ram.blocks ∧ block.covers addr = true ∧ next = { ram with mruBlock := some block } := by
  obtain ⟨found, search, found_eq⟩ := Option.map_eq_some_iff.mp result
  obtain ⟨rfl, rfl⟩ := Prod.mk.inj found_eq
  split at search
  next cached =>
    cases search
    obtain ⟨isCached, covers⟩ := Option.filter_eq_some_iff.mp cached
    exact ⟨sound.cached found isCached, covers, rfl⟩
  next =>
    have covers := List.find?_some search
    exact ⟨List.mem_of_find?_eq_some search, covers, rfl⟩

theorem getBlock_iff (sound : ram.Sound) :
    (∃ next, qemuGetRamBlock ram addr = some (block, next)) ↔
      block ∈ ram.blocks ∧ block.offset.toNat ≤ addr.toNat ∧
        addr.toNat < block.offset.toNat + block.length.toNat := by
  constructor
  · rintro ⟨next, result⟩
    obtain ⟨member, covers, -⟩ := sound.of_getBlock result
    exact ⟨member, (sound.paged block member).covers_iff.mp covers⟩
  · rintro ⟨member, inside⟩
    exact ⟨_, sound.getBlock member ((sound.paged block member).covers_iff.mpr inside)⟩

/-! ### Runs -/

theorem start (initial : ramMachine.start ram) : ram.Sound := by
  obtain ⟨empty, none, -⟩ := initial
  constructor <;> simp [empty, none]

theorem step (sound : ram.Sound) {call : RamCall} {next : RamState}
    (taken : ramMachine.step ram call = some next) : next.Sound := by
  cases call with
  | alloc size host fd fresh =>
    obtain ⟨⟨offset, after⟩, result, rfl⟩ := Option.map_eq_some_iff.mp taken
    cases found : findRamOffset ram.blocks (targetPageAlign size) with
    | none =>
      rw [alloc_none found] at result
      cases result
    | some room =>
      obtain ⟨allocated, returns, allocatedSound, -⟩ := sound.alloc found host fd fresh
      rw [returns] at result
      cases result
      exact allocatedSound
  | free addr =>
    cases taken
    exact sound.free addr
  | getBlock addr =>
    obtain ⟨⟨block, after⟩, result, rfl⟩ := Option.map_eq_some_iff.mp taken
    obtain ⟨member, -, rfl⟩ := sound.of_getBlock result
    exact { sound with cached := fun cached same => Option.some.inj same ▸ member }

end RamState.Sound

/-- In every run the blocks are disjoint, of whole pages, sorted by length, and each page has its
flags; a lookup finds the block of an address and nothing else; an allocation that finds room adds
one block and marks its pages. -/
theorem ramBlocks_sound {ram : RamState} (reached : ramMachine.Reached Machine.anyAction ram) :
    ram.Sound ∧
    (∀ addr block, (∃ next, qemuGetRamBlock ram addr = some (block, next)) ↔
      block ∈ ram.blocks ∧ block.offset.toNat ≤ addr.toNat ∧
        addr.toNat < block.offset.toNat + block.length.toNat) ∧
    ∀ size host fd fresh,
      match findRamOffset ram.blocks (targetPageAlign size) with
      | none => qemuRamAllocFromPtr ram size host fd fresh = none
      | some offset => ∃ next, qemuRamAllocFromPtr ram size host fd fresh = some (offset, next) ∧
          Allocates ram ⟨host, offset, targetPageAlign size, fd⟩ next := by
  have sound : ram.Sound := reached.invariant (fun _ => RamState.Sound.start)
    fun _ _ _ sound _ => sound.step
  refine ⟨sound, fun addr block => sound.getBlock_iff, fun size host fd fresh => ?_⟩
  split
  next none => exact RamState.Sound.alloc_none none host fd fresh
  next offset found =>
    obtain ⟨next, returns, -, allocates⟩ := sound.alloc found host fd fresh
    exact ⟨next, returns, allocates⟩

def clean : PhysDirty := fun _ => 0

def emptyRam : RamState := ⟨[], none, ⟨0, clean⟩⟩

def reuseGap : List RamCall :=
  [.alloc 0x1000 0x10000 (-1) clean, .alloc 0x3000 0x20000 (-1) clean,
    .alloc 0x1000 0x30000 (-1) clean, .getBlock 0x2000, .free 0x1000,
    .alloc 0x1800 0x40000 (-1) clean, .getBlock 0x2fff]

theorem ramBlocks_sound_reuseGap : ∃ ram,
    ramMachine.run reuseGap emptyRam = some ram ∧
    ram.blocks = [⟨0x40000, 0x1000, 0x2000, -1⟩, ⟨0x10000, 0, 0x1000, -1⟩,
      ⟨0x30000, 0x4000, 0x1000, -1⟩] ∧
    ram.mruBlock = some ⟨0x40000, 0x1000, 0x2000, -1⟩ ∧ ram.Sound ∧
    ∃ next, qemuGetRamBlock ram 0x4010 = some (⟨0x30000, 0x4000, 0x1000, -1⟩, next) := by
  have ran : ∃ ram, ramMachine.run reuseGap emptyRam = some ram ∧
      ram.blocks = [⟨0x40000, 0x1000, 0x2000, -1⟩, ⟨0x10000, 0, 0x1000, -1⟩,
        ⟨0x30000, 0x4000, 0x1000, -1⟩] ∧
      ram.mruBlock = some ⟨0x40000, 0x1000, 0x2000, -1⟩ := by
    decide +kernel
  obtain ⟨ram, ran, blocks, cached⟩ := ran
  have start : ramMachine.start emptyRam := ⟨rfl, rfl, rfl⟩
  obtain ⟨sound, lookup, -⟩ := ramBlocks_sound
    ((Machine.Reached.start start).run (Machine.runAllowed_any _ _) ran)
  exact ⟨ram, ran, blocks, cached, sound, (lookup _ _).mpr (by rw [blocks]; decide)⟩

end VhostUser.Qemu
