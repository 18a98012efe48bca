import VhostUser.Qemu.Backend

/-!
Contract: the loop of `vhost_user_call` that fills the memory table (case `VHOST_SET_MEM_TABLE` in
`vhost-backend.c`).

The loop runs over all blocks of `ram_list` and stores an entry of `msg.memory.regions` and one of
`fds` for each block with a file. Every store is kept with its index, so that one behind the end of
an array shows. What the process does after such a store is not modelled.

Owns:
- that the loop lists the file-backed blocks, in order, and at which indices it stores;
- that it sends what `Backend` says, and for which lists of blocks that is sound.
-/

namespace VhostUser.Qemu

open VhostUser.Lib VhostUser.Wire
open VhostUser.Lib.ByteImage (ByteField overlay)

/-- The locals of the case: `fd_num`, and the stores into `msg.memory.regions` and `fds`. -/
structure TableFill where
  fdNum : Nat
  regions : List (ByteField × Nat)
  fds : List (Nat × Int)
deriving DecidableEq

def fillRegion (fill : TableFill) (block : RAMBlock) : TableFill :=
  if 0 < block.fd then
    ⟨fill.fdNum + 1, fill.regions ++ regionWrites block fill.fdNum,
      fill.fds ++ [(fill.fdNum, block.fd)]⟩
  else fill

def fillTable (blocks : List RAMBlock) : TableFill :=
  blocks.foldl fillRegion ⟨0, [], []⟩

def TableFill.stores (fill : TableFill) : List Nat := fill.fds.map Prod.fst

/-- The message of a filled table. `nregions` stands apart, so that it does not matter that it is
stored last. -/
def TableFill.payload (fill : TableFill) : Payload where
  writes := (memoryNregions, fill.fdNum) :: fill.regions
  size := 4 + 4 + fill.fdNum * 24
  fds := fill.fds.map Prod.snd

def setMemTableCall (control : Int) (blocks : List RAMBlock) (stale : ByteImage) : CallResult :=
  if control < 0 then .refused
  else
    let fill := fillTable blocks
    if fill.stores.any (vhostMemoryMaxNregions ≤ ·) then .overrun
    else if fill.fdNum = 0 then .refused
    else .sent (frameOf .setMemTable fill.payload stale)

section Loop

variable {blocks : List RAMBlock} {block : RAMBlock} {fill : TableFill}

theorem fillRegion_backed (backed : 0 < block.fd) :
    fillRegion fill block = ⟨fill.fdNum + 1, fill.regions ++ regionWrites block fill.fdNum,
      fill.fds ++ [(fill.fdNum, block.fd)]⟩ :=
  if_pos backed

theorem fillRegion_anonymous (anonymous : ¬ 0 < block.fd) : fillRegion fill block = fill :=
  if_neg anonymous

/-- The loop appends one entry for each file-backed block, counted on from where it stood. -/
theorem foldl_fillRegion (blocks : List RAMBlock) (fill : TableFill) :
    blocks.foldl fillRegion fill =
      ⟨fill.fdNum + (fileBacked blocks).length,
        fill.regions ++ ((fileBacked blocks).zipIdx fill.fdNum).flatMap
          fun entry => regionWrites entry.1 entry.2,
        fill.fds ++ ((fileBacked blocks).zipIdx fill.fdNum).map
          fun entry => (entry.2, entry.1.fd)⟩ := by
  induction blocks generalizing fill with
  | nil => simp [fileBacked]
  | cons block rest ih =>
    rw [List.foldl_cons, ih]
    by_cases backed : 0 < block.fd
    · have listed : fileBacked (block :: rest) = block :: fileBacked rest :=
        List.filter_cons_of_pos (by simpa using backed)
      rw [fillRegion_backed backed, listed]
      simp only [List.length_cons, List.zipIdx_cons, List.flatMap_cons, List.map_cons,
        List.append_assoc, List.singleton_append, Nat.add_assoc, Nat.add_comm 1]
    · have skipped : fileBacked (block :: rest) = fileBacked rest :=
        List.filter_cons_of_neg (by simpa using backed)
      rw [fillRegion_anonymous backed, skipped]

theorem fillTable_eq (blocks : List RAMBlock) : fillTable blocks =
    ⟨(fileBacked blocks).length,
      (fileBacked blocks).zipIdx.flatMap fun entry => regionWrites entry.1 entry.2,
      (fileBacked blocks).zipIdx.map fun entry => (entry.2, entry.1.fd)⟩ := by
  have looped := foldl_fillRegion blocks ⟨0, [], []⟩
  rw [Nat.zero_add, List.nil_append, List.nil_append] at looped
  exact looped

theorem fillTable_payload : (fillTable blocks).payload = memPayload (fileBacked blocks) := by
  have descriptors : ((fileBacked blocks).zipIdx.map fun entry => (entry.2, entry.1.fd)).map
      Prod.snd = (fileBacked blocks).map RAMBlock.fd := by
    rw [List.map_map]
    conv_rhs => rw [← List.zipIdx_map_fst 0 (fileBacked blocks), List.map_map]
    rfl
  rw [fillTable_eq]
  simp only [TableFill.payload, memPayload, descriptors, Nat.mul_comm 24]

/-- The loop stores at the indices below the number of file-backed blocks, and only there. -/
theorem fillTable_stores : (fillTable blocks).stores = List.range (fileBacked blocks).length := by
  rw [fillTable_eq, TableFill.stores, List.map_map, List.range_eq_range',
    ← List.zipIdx_map_snd 0 (fileBacked blocks)]
  rfl

theorem fillTable_inside_iff : (∀ index ∈ (fillTable blocks).stores, index < 8) ↔
    (fileBacked blocks).length ≤ 8 := by
  rw [fillTable_stores]
  simp only [List.mem_range]
  constructor
  · intro inside
    by_contra more
    exact absurd (inside 8 (Nat.lt_of_not_le more)) (lt_irrefl 8)
  · intro few index below
    exact lt_of_lt_of_le below few

end Loop

/-- The loop does what `vhostUserCall` says of the table. -/
theorem setMemTableCall_eq (control : Int) (blocks : List RAMBlock) (stale : ByteImage) :
    setMemTableCall control blocks stale = vhostUserCall control blocks stale .setMemTable := by
  have outside : (fillTable blocks).stores.any (vhostMemoryMaxNregions ≤ ·) = true ↔
      vhostMemoryMaxNregions < (fileBacked blocks).length := by
    rw [← not_iff_not, Nat.not_lt, vhostMemoryMaxNregions, ← fillTable_inside_iff]
    simp
  have counted : (fillTable blocks).fdNum = (fileBacked blocks).length := by
    rw [fillTable_eq]
  unfold setMemTableCall vhostUserCall
  simp only [outside, counted, fillTable_payload]
  rfl

/-! ### The message -/

/-- What a message with a memory table tells its receiver, whatever was in its buffer. -/
structure ListsBlocks (frame : Frame) (backed : List RAMBlock) : Prop where
  request : ∀ buffer, Wire.request.get (overlay frame.data buffer) = Request.setMemTable.code
  size : ∀ buffer, Wire.size.get (overlay frame.data buffer) = 8 + 24 * backed.length
  length : frame.data.length = hdrSize + (8 + 24 * backed.length)
  nregions : ∀ buffer, memoryNregions.get (overlay frame.data buffer) = backed.length
  region : ∀ buffer idx block, backed[idx]? = some block →
    (regionGuestPhysAddr idx).get (overlay frame.data buffer) = block.offset.toNat ∧
      (regionMemorySize idx).get (overlay frame.data buffer) = block.length.toNat ∧
      (regionUserspaceAddr idx).get (overlay frame.data buffer) = block.host.toNat
  fds : frame.rights = backed.map RAMBlock.fd

theorem memPayload_lists {backed : List RAMBlock} {stale : ByteImage}
    (small : backed.length ≤ vhostMemoryMaxNregions) :
    ListsBlocks (frameOf .setMemTable (memPayload backed) stale) backed where
  request _ := frameOf_request (memPayload_apart small)
  size _ := by
    apply frameOf_header (memPayload_apart small) (by simp [memPayload])
    · unfold vhostMemoryMaxNregions at small
      simp only [Wire.size]
      omega
    · decide
  length := frameOf_length
  nregions _ := memTable_nregions small
  region _ idx block placed :=
    ⟨memTable_region small placed (by simp [regionWrites]),
      memTable_region small placed (by simp [regionWrites]),
      memTable_region small placed (by simp [regionWrites])⟩
  fds := rfl

/-- Nothing is sent, or a message with the file-backed blocks, and no entry behind the end of an
array is touched. -/
structure TableSound (control : Int) (blocks : List RAMBlock) (stale : ByteImage) : Prop where
  sent : setMemTableCall control blocks stale = .refused ∨
    ∃ frame, setMemTableCall control blocks stale = .sent frame ∧
      ListsBlocks frame (fileBacked blocks)
  inside : 0 ≤ control → ∀ index ∈ (fillTable blocks).stores, index < vhostMemoryMaxNregions

/-- The case is sound exactly when there is no connection or at most eight blocks have a file. -/
theorem setMemTableCall_sound_iff (control : Int) (blocks : List RAMBlock) (stale : ByteImage) :
    TableSound control blocks stale ↔
      control < 0 ∨ (fileBacked blocks).length ≤ vhostMemoryMaxNregions := by
  constructor
  · intro sound
    by_cases connected : control < 0
    · exact .inl connected
    · exact .inr (fillTable_inside_iff.mp (sound.inside (not_lt.mp connected)))
  · intro condition
    constructor
    · rw [setMemTableCall_eq]
      unfold vhostUserCall
      by_cases unconnected : control < 0
      · exact .inl (if_pos unconnected)
      have small := condition.resolve_left unconnected
      rw [if_neg unconnected]
      rw [if_neg (Nat.not_lt.mpr small)]
      by_cases none : (fileBacked blocks).length = 0
      · exact .inl (if_pos none)
      · rw [if_neg none]
        exact .inr ⟨_, rfl, memPayload_lists small⟩
    · intro connected
      exact fillTable_inside_iff.mpr (condition.resolve_left (not_lt.mpr connected))

/-- Nine blocks of two MiB, the smallest that `file_ram_alloc` puts into a file. -/
def nineBlocks : List RAMBlock :=
  (List.range 9).map fun position =>
    ⟨0x7f0000000000 + 0x200000 * .ofNat position, 0x200000 * .ofNat position, 0x200000,
      10 + position⟩

/-- With nine file-backed blocks the loop stores behind the end of both arrays. -/
theorem setMemTableCall_nine_blocks :
    ¬ TableSound 3 nineBlocks (fun _ => 0) ∧
      (fillTable nineBlocks).stores = [0, 1, 2, 3, 4, 5, 6, 7, 8] ∧
      setMemTableCall 3 nineBlocks (fun _ => 0) = .overrun := by
  have stores : (fillTable nineBlocks).stores = [0, 1, 2, 3, 4, 5, 6, 7, 8] := by decide
  have overrun : setMemTableCall 3 nineBlocks (fun _ => 0) = .overrun := by
    unfold setMemTableCall
    rw [if_neg (by decide)]
    dsimp only
    rw [stores]
    rfl
  refine ⟨?_, stores, overrun⟩
  intro sound
  have inside := sound.inside (by decide) 8
  rw [stores] at inside
  exact absurd (inside (by decide)) (by decide)

end VhostUser.Qemu
