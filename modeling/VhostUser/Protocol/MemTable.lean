import VhostUser.Qemu.FlatView
import VhostUser.Server.Handlers

/-!
Contract: guest-physical addresses across `VHOST_SET_MEM_TABLE`.

QEMU announces each file-backed RAM block with its offset in the RAM address
space as its guest-physical address; the guest sees the block wherever the flat
view puts it. The theorem says exactly when the two agree, so that the server
translates as QEMU does.

Assumptions about the kernel, named as hypotheses: passed descriptors arrive as
positive numbers, and successful `mmap`s are page-aligned, do not wrap and do
not overlap.
-/

namespace VhostUser.Protocol

open VhostUser.Lib VhostUser.Wire VhostUser.Qemu VhostUser.Server

def mmapAt (mmap : Mmap) (idx : Nat) : Option UInt64 :=
  if below : idx < memoryMaxNregions then mmap ⟨idx, below⟩ else none

/-- What the kernel guarantees about the mappings of the announced blocks. -/
structure SoundMmap (backed : List RAMBlock) (mmap : Mmap) : Prop where
  placed : ∀ {idx block base}, backed[idx]? = some block → mmapAt mmap idx = some base →
    4096 ≤ base.toNat ∧ base.toNat + block.length.toNat < 2 ^ 64
  disjoint : ∀ {left right leftBlock rightBlock leftBase rightBase}, left ≠ right →
    backed[left]? = some leftBlock → backed[right]? = some rightBlock →
    mmapAt mmap left = some leftBase → mmapAt mmap right = some rightBase →
    leftBase.toNat + leftBlock.length.toNat ≤ rightBase.toNat ∨
      rightBase.toNat + rightBlock.length.toNat ≤ leftBase.toNat

/-- The server reaches, at every guest-physical address, the byte of a file-backed block that
QEMU's flat view has there, and nothing else. -/
def TranslatesAsQemu (regions : Regions) (view : FlatView) (backed : List RAMBlock)
    (mmap : Mmap) (memory : VHostUserLocalMemory) : Prop :=
  ∀ gpa : UInt64,
    match view.fileByteAt regions backed gpa with
    | some (idx, offset) =>
      ∃ base, mmapAt mmap idx = some base ∧ mapGuestAddr memory gpa = base + offset
    | none => mapGuestAddr memory gpa = 0

/-- If QEMU sends its memory table, the server handles it and from then on translates as QEMU
does. -/
def MemTableAgrees (regions : Regions) (view : FlatView) (ram : RamList) (control : Int)
    (sendBuffer : ByteImage) (received : List Int) (recvBuffer : VHostUserLocalMsg)
    (mmap : Mmap) (server : VHostUser) : Prop :=
  match vhostUserCall control ram.blocks sendBuffer .setMemTable with
  | .refused => True
  | .overrun => False
  | .sent frame =>
    let msg := vhostUserReceive (.data frame.data received) recvBuffer
    ∃ after, (inMsgServer msg mmap).run server = .ok (0, msg) after ∧
      TranslatesAsQemu regions view (fileBacked ram.blocks) mmap after.memory

/-! ### The installed table -/

def announcedRegion (mmap : Mmap) (block : RAMBlock) (idx : Nat) : VHostUserLocalMemoryRegion where
  guestPhysAddr := block.offset
  memorySize := block.length
  userspaceAddr := block.host
  mmapAddr := (mmapAt mmap idx).getD 0

section Install

variable {backed : List RAMBlock} {mmap : Mmap} {sendBuffer : ByteImage} {received : List Int}
  {recvBuffer : VHostUserLocalMsg}

def memTableMsg (backed : List RAMBlock) (sendBuffer : ByteImage) (received : List Int)
    (recvBuffer : VHostUserLocalMsg) : VHostUserLocalMsg :=
  vhostUserReceive (.data (frameOf .setMemTable (memPayload backed) sendBuffer).data received)
    recvBuffer

theorem msgRegion_announced {idx : Nat} {block : RAMBlock}
    (small : backed.length ≤ vhostMemoryMaxNregions) (placed : backed[idx]? = some block) :
    msgRegion (memTableMsg backed sendBuffer received recvBuffer) idx
      (initShmFromFd (mmapAt mmap idx)) = announcedRegion mmap block idx := by
  set msg := memTableMsg backed sendBuffer received recvBuffer with msgDef
  have offset : (regionGuestPhysAddr idx).get msg.request = block.offset.toNat :=
    memTable_region small placed (by simp [regionWrites])
  have length : (regionMemorySize idx).get msg.request = block.length.toNat :=
    memTable_region small placed (by simp [regionWrites])
  have host : (regionUserspaceAddr idx).get msg.request = block.host.toNat :=
    memTable_region small placed (by simp [regionWrites])
  simp only [msgRegion, offset, length, host, UInt64.ofNat_toNat]
  rfl

theorem memTable_active (small : backed.length ≤ vhostMemoryMaxNregions)
    (memory : VHostUserLocalMemory) :
    (installed (memTableMsg backed sendBuffer received recvBuffer) mmap
      { memory with nregions := 0 }
      ((List.finRange memoryMaxNregions).take backed.length)).active =
      backed.zipIdx.map fun entry => announcedRegion mmap entry.1 entry.2 := by
  rw [installed_active _ small]
  apply List.ext_getElem?
  intro idx
  by_cases below : idx < backed.length
  · have inTable : idx < memoryMaxNregions := lt_of_lt_of_le below small
    have region := @msgRegion_announced backed mmap sendBuffer received recvBuffer idx _ small
      (List.getElem?_eq_getElem below)
    simp only [mmapAt, inTable, dif_pos] at region
    simp [below, inTable, region]
  · simp [below]

theorem memTable_handled (small : backed.length ≤ vhostMemoryMaxNregions)
    (arrived : received.length = backed.length) (positive : ∀ fd ∈ received, 0 < fd)
    (server : VHostUser) :
    let msg := memTableMsg backed sendBuffer received recvBuffer
    ∃ after, (inMsgServer msg mmap).run server = .ok (0, msg) after ∧
      after.memory.active = backed.zipIdx.map fun entry =>
        announcedRegion mmap entry.1 entry.2 := by
  intro msg
  have code : request.get msg.request = Request.setMemTable.code :=
    frameOf_request (memPayload_apart small)
  have announced : memoryNregions.get msg.request = backed.length := memTable_nregions small
  have valid : ∀ idx : Fin memoryMaxNregions, idx < backed.length → 0 < msg.fds idx := by
    intro idx below
    have inReceived : idx.val < received.length := by omega
    have found : msg.fds idx = received[idx.val] := by
      simp [msg, memTableMsg, vhostUserReceive, List.getD, inReceived]
    rw [found]
    exact positive _ (List.getElem_mem inReceived)
  have count : backed.length ≤ msg.fdNum := arrived.ge
  refine ⟨{ server with
    memory := installed msg mmap { server.memory with nregions := 0 }
      ((List.finRange memoryMaxNregions).take backed.length) }, ?_,
    memTable_active small server.memory⟩
  rw [inMsgServer_eq mmap code]
  simp only [msgHandlers, EStateM.run_bind, setMemTable_run announced small valid count,
    EStateM.run_pure]

end Install

section Agreement

variable {ram : RamList} {mmap : Mmap} {memory : VHostUserLocalMemory} {base ramAddr : UInt64}
  {byte : Nat × UInt64}

/-- The server's own view of an address, in terms of the announced blocks. -/
theorem mapGuestAddr_announced {backed : List RAMBlock}
    (table : memory.active = backed.zipIdx.map fun entry =>
      announcedRegion mmap entry.1 entry.2) (gpa : UInt64) :
    mapGuestAddr memory gpa = match Qemu.fileByteAt backed gpa with
      | some (idx, offset) => (mmapAt mmap idx).getD 0 + offset
      | none => 0 := by
  unfold mapGuestAddr mapAddr Qemu.fileByteAt
  rw [table, List.find?_map]
  have sameTest : ((fun region => regionHas region.guestPhysAddr region.memorySize gpa) ∘
      fun entry : RAMBlock × Nat => announcedRegion mmap entry.1 entry.2) =
      fun entry => entry.1.holds gpa := rfl
  rw [sameTest]
  cases backed.zipIdx.find? fun entry => entry.1.holds gpa with
  | none => rfl
  | some entry =>
    simp only [Option.map_some, announcedRegion, UInt64.sub_eq_add_neg, UInt64.add_assoc]

theorem base_add_toNat {idx : Nat} {offset : UInt64}
    (sound : SoundMmap (fileBacked ram.blocks) mmap)
    (found : Qemu.fileByteAt (fileBacked ram.blocks) ramAddr = some (idx, offset))
    (mapped : mmapAt mmap idx = some base) :
    ∃ block, (fileBacked ram.blocks)[idx]? = some block ∧
      offset.toNat < block.length.toNat ∧
      (base + offset).toNat = base.toNat + offset.toNat ∧ 4096 ≤ base.toNat := by
  obtain ⟨block, at_, held, rfl⟩ := fileByteAt_some found
  have inside := RAMBlock.offset_lt (ram.backed_bounded at_) held
  obtain ⟨page, room⟩ := sound.placed at_ mapped
  refine ⟨block, at_, inside, ?_, page⟩
  rw [UInt64.toNat_add]
  omega

theorem page_le_addr (sound : SoundMmap (fileBacked ram.blocks) mmap)
    (found : Qemu.fileByteAt (fileBacked ram.blocks) ramAddr = some byte)
    (mapped : mmapAt mmap byte.1 = some base) : 4096 ≤ (base + byte.2).toNat := by
  obtain ⟨-, -, -, sum, page⟩ := base_add_toNat sound found mapped
  omega

theorem base_of_found
    (allMapped : ∀ idx < (fileBacked ram.blocks).length, (mmapAt mmap idx).isSome = true)
    (found : Qemu.fileByteAt (fileBacked ram.blocks) ramAddr = some byte) :
    ∃ base, mmapAt mmap byte.1 = some base := by
  obtain ⟨block, at_, -, -⟩ := fileByteAt_some found
  exact Option.isSome_iff_exists.mp (allMapped _ (List.getElem?_eq_some_iff.mp at_).1)

theorem byte_eq_of_addr_eq {leftAddr rightAddr leftBase rightBase : UInt64}
    {left right : Nat × UInt64}
    (sound : SoundMmap (fileBacked ram.blocks) mmap)
    (leftFound : Qemu.fileByteAt (fileBacked ram.blocks) leftAddr = some left)
    (rightFound : Qemu.fileByteAt (fileBacked ram.blocks) rightAddr = some right)
    (leftMapped : mmapAt mmap left.1 = some leftBase)
    (rightMapped : mmapAt mmap right.1 = some rightBase)
    (same : leftBase + left.2 = rightBase + right.2) : left = right := by
  obtain ⟨leftBlock, leftAt, leftInside, leftSum, -⟩ :=
    base_add_toNat sound leftFound leftMapped
  obtain ⟨rightBlock, rightAt, rightInside, rightSum, -⟩ :=
    base_add_toNat sound rightFound rightMapped
  have sums : leftBase.toNat + left.2.toNat = rightBase.toNat + right.2.toNat := by
    rw [← leftSum, ← rightSum, same]
  have position : left.1 = right.1 := by
    by_contra different
    rcases sound.disjoint different leftAt rightAt leftMapped rightMapped with before | after
    · omega
    · omega
  rw [position, rightMapped, Option.some.injEq] at leftMapped
  subst leftMapped
  exact Prod.ext position (UInt64.toNat_inj.mp (by omega))

section Translates

variable {regions : Regions} {view : FlatView} (sound : SoundMmap (fileBacked ram.blocks) mmap)
  (table : memory.active = (fileBacked ram.blocks).zipIdx.map fun entry =>
    announcedRegion mmap entry.1 entry.2)
include sound table

/-- The second byte of an unmapped block translates to address 1, where QEMU has nothing. -/
theorem allMapped_of_translates
    (agrees : TranslatesAsQemu regions view (fileBacked ram.blocks) mmap memory) :
    ∀ idx < (fileBacked ram.blocks).length, (mmapAt mmap idx).isSome = true := by
  intro idx below
  by_contra unmapped
  rw [Option.not_isSome_iff_eq_none] at unmapped
  obtain ⟨gpa, found⟩ := ram.second_byte (List.getElem?_eq_getElem below)
  have value := agrees gpa
  rw [mapGuestAddr_announced table, found] at value
  simp only [unmapped, Option.getD_none] at value
  split at value
  next other offset viewFound =>
    obtain ⟨base, mapped, same⟩ := value
    obtain ⟨ramAddr, -, ramFound⟩ := Option.bind_eq_some_iff.mp viewFound
    have page := page_le_addr sound ramFound mapped
    rw [← same] at page
    exact absurd page (by decide)
  · exact absurd value (by decide)

/-- Where both translate, they name the same byte; and they translate at the same addresses, since
no mapped byte has address 0. -/
theorem fileByteAt_of_translates
    (agrees : TranslatesAsQemu regions view (fileBacked ram.blocks) mmap memory) (gpa : UInt64) :
    view.fileByteAt regions (fileBacked ram.blocks) gpa =
      Qemu.fileByteAt (fileBacked ram.blocks) gpa := by
  have allMapped := allMapped_of_translates sound table agrees
  have value := agrees gpa
  rw [mapGuestAddr_announced table] at value
  cases search : Qemu.fileByteAt (fileBacked ram.blocks) gpa with
  | none =>
    cases viewFound : view.fileByteAt regions (fileBacked ram.blocks) gpa with
    | none => rfl
    | some other =>
      simp only [search, viewFound] at value
      obtain ⟨base, mapped, same⟩ := value
      obtain ⟨ramAddr, -, ramFound⟩ := Option.bind_eq_some_iff.mp viewFound
      have page := page_le_addr sound ramFound mapped
      rw [← same] at page
      exact absurd page (by decide)
  | some found =>
    obtain ⟨base, mapped⟩ := base_of_found allMapped search
    cases viewFound : view.fileByteAt regions (fileBacked ram.blocks) gpa with
    | none =>
      simp only [search, viewFound, mapped, Option.getD_some] at value
      have page := page_le_addr sound search mapped
      rw [value] at page
      exact absurd page (by decide)
    | some other =>
      simp only [search, viewFound, mapped, Option.getD_some] at value
      obtain ⟨otherBase, otherMapped, same⟩ := value
      obtain ⟨ramAddr, -, ramFound⟩ := Option.bind_eq_some_iff.mp viewFound
      rw [byte_eq_of_addr_eq sound ramFound search otherMapped mapped same.symm]

/-- Once the blocks are mapped, the server translates as QEMU exactly when the flat view has each
file-backed byte at its RAM address. -/
theorem translatesAsQemu_iff :
    TranslatesAsQemu regions view (fileBacked ram.blocks) mmap memory ↔
      (∀ idx < (fileBacked ram.blocks).length, (mmapAt mmap idx).isSome = true) ∧
      ∀ gpa, view.fileByteAt regions (fileBacked ram.blocks) gpa =
        Qemu.fileByteAt (fileBacked ram.blocks) gpa := by
  constructor
  · intro agrees
    exact ⟨allMapped_of_translates sound table agrees, fileByteAt_of_translates sound table agrees⟩
  · rintro ⟨allMapped, identical⟩ gpa
    rw [mapGuestAddr_announced table, identical]
    cases search : Qemu.fileByteAt (fileBacked ram.blocks) gpa with
    | none => rfl
    | some found =>
      obtain ⟨base, mapped⟩ := base_of_found allMapped search
      exact ⟨base, mapped, by simp [mapped]⟩

end Translates

end Agreement

section Handled

variable {regions : Regions} {view : FlatView} {ram : RamList} {control : Int}
  {sendBuffer : ByteImage} {received : List Int} {recvBuffer : VHostUserLocalMsg} {mmap : Mmap}
  {server : VHostUser}

theorem memTableAgrees_of_sent (connected : 0 ≤ control) (nonempty : fileBacked ram.blocks ≠ [])
    (small : (fileBacked ram.blocks).length ≤ vhostMemoryMaxNregions)
    (arrived : received.length = (fileBacked ram.blocks).length)
    (positive : ∀ fd ∈ received, 0 < fd) :
    ∃ memory, memory.active = ((fileBacked ram.blocks).zipIdx.map fun entry =>
        announcedRegion mmap entry.1 entry.2) ∧
      (MemTableAgrees regions view ram control sendBuffer received recvBuffer mmap server ↔
        TranslatesAsQemu regions view (fileBacked ram.blocks) mmap memory) := by
  obtain ⟨after, ran, table⟩ := @memTable_handled _ mmap sendBuffer received recvBuffer small
    arrived positive server
  have sent : vhostUserCall control ram.blocks sendBuffer .setMemTable =
      .sent (frameOf .setMemTable (memPayload (fileBacked ram.blocks)) sendBuffer) := by
    simp only [vhostUserCall, Int.not_lt.mpr connected, if_false, Nat.not_lt.mpr small,
      List.length_eq_zero_iff, nonempty]
    rfl
  refine ⟨after.memory, table, ?_⟩
  unfold MemTableAgrees
  rw [sent]
  constructor
  · rintro ⟨other, otherRan, agrees⟩
    rw [show other = after by simpa [memTableMsg] using otherRan.symm.trans ran] at agrees
    exact agrees
  · exact fun agrees => ⟨after, ran, agrees⟩

end Handled

/-- The server translates as QEMU after `VHOST_SET_MEM_TABLE` exactly when there is nothing to
announce, or the table fits, every block could be mapped, and the flat view shows each file-backed
byte at the guest-physical address that equals its RAM address. -/
theorem memTableAgrees_iff (regions : Regions) (view : FlatView) (ram : RamList) {control : Int}
    (connected : 0 ≤ control) (sendBuffer : ByteImage) {received : List Int}
    (arrived : received.length = (fileBacked ram.blocks).length)
    (positive : ∀ fd ∈ received, 0 < fd) (recvBuffer : VHostUserLocalMsg) {mmap : Mmap}
    (sound : SoundMmap (fileBacked ram.blocks) mmap) (server : VHostUser) :
    MemTableAgrees regions view ram control sendBuffer received recvBuffer mmap server ↔
      fileBacked ram.blocks = [] ∨
      (fileBacked ram.blocks).length ≤ 8 ∧
      (∀ idx < (fileBacked ram.blocks).length, (mmapAt mmap idx).isSome = true) ∧
      ∀ gpa, view.fileByteAt regions (fileBacked ram.blocks) gpa =
        Qemu.fileByteAt (fileBacked ram.blocks) gpa := by
  by_cases empty : fileBacked ram.blocks = []
  · simp [MemTableAgrees, vhostUserCall, empty, Int.not_lt.mpr connected]
  by_cases small : (fileBacked ram.blocks).length ≤ vhostMemoryMaxNregions
  · obtain ⟨memory, table, agreesIff⟩ := @memTableAgrees_of_sent regions view ram control
      sendBuffer received recvBuffer mmap server connected empty small arrived positive
    rw [agreesIff, translatesAsQemu_iff sound table]
    have fits : (fileBacked ram.blocks).length ≤ 8 := small
    simp [empty, fits]
  · have large : ¬ (fileBacked ram.blocks).length ≤ 8 := small
    simp [MemTableAgrees, vhostUserCall, empty, Int.not_lt.mpr connected, large,
      Nat.lt_of_not_le small]

/-! ### Two machines -/

def oneBlock (length : UInt64) (page : 4096 ≤ length.toNat) : RamList where
  blocks := [⟨0x7f0000000000, 0, length, 5⟩]
  pageSized := by simpa using page
  bounded := by simpa using UInt64.toNat_lt length
  disjoint := List.pairwise_singleton _ _

theorem oneBlock_backed (length : UInt64) (page : 4096 ≤ length.toNat) :
    fileBacked (oneBlock length page).blocks = [⟨0x7f0000000000, 0, length, 5⟩] := rfl

def ramRegion (size : UInt64) : MemoryRegion := memoryRegionInitRam size 0

def ramRange (start size : Int) (offset : UInt64) : FlatRange where
  mr := 0
  offsetInRegion := offset
  addr := ⟨start, size⟩
  dirtyLogMask := 0
  romdMode := true
  readonly := false

theorem oneBlock_soundMmap (length : UInt64) (page : 4096 ≤ length.toNat)
    (room : 0x10000 + length.toNat < 2 ^ 64) :
    SoundMmap (fileBacked (oneBlock length page).blocks) fun _ => some 0x10000 where
  placed := by
    intro idx block base placed mapped
    obtain rfl : base = 0x10000 := by
      unfold mmapAt at mapped
      split at mapped <;> simp_all
    rw [oneBlock_backed, List.getElem?_singleton] at placed
    split at placed
    · cases placed
      exact ⟨by decide, room⟩
    · simp at placed
  disjoint := by
    intro left right leftBlock rightBlock leftBase rightBase different leftAt rightAt
    rw [oneBlock_backed, List.getElem?_singleton] at leftAt rightAt
    split at leftAt
    · split at rightAt
      · omega
      · simp at rightAt
    · simp at leftAt

theorem oneBlock_identical (length : UInt64) (page : 4096 ≤ length.toNat) (gpa : UInt64) :
    FlatView.fileByteAt (fun _ => ramRegion length)
      (fileBacked (oneBlock length page).blocks) [ramRange 0 length.toNat 0] gpa =
      Qemu.fileByteAt (fileBacked (oneBlock length page).blocks) gpa := by
  have ofIntZero : UInt64.ofInt 0 = 0 := rfl
  by_cases below : gpa.toNat < length.toNat
  · have inside : (AddrRange.mk 0 length.toNat).contains gpa.toNat = true := by
      simp [AddrRange.contains, AddrRange.last]
      omega
    simp [FlatView.fileByteAt, FlatView.ramAddrAt, ramRange, inside, ramRegion,
      memoryRegionInitRam, ofIntZero]
  · have outside : (AddrRange.mk 0 length.toNat).contains gpa.toNat = false := by
      simp [AddrRange.contains, AddrRange.last]
      omega
    have notHeld : (RAMBlock.mk 0x7f0000000000 0 length 5).holds gpa = false := by
      simp only [RAMBlock.holds, Bool.and_eq_false_iff, decide_eq_false_iff_not,
        UInt64.lt_iff_toNat_lt, UInt64.zero_add]
      exact .inr below
    simp [FlatView.fileByteAt, FlatView.ramAddrAt, ramRange, outside, Qemu.fileByteAt,
      oneBlock_backed, notHeld]

/-- A machine with all of its RAM at guest-physical address 0. -/
theorem memTableAgrees_flat_machine :
    MemTableAgrees (fun _ => ramRegion 0x8000000)
      [ramRange 0 (0x8000000 : UInt64).toNat 0] (oneBlock 0x8000000 (by decide)) 3 (fun _ => 0) [7]
      .zero (fun _ => some 0x10000) (.fresh .unmapped) :=
  (memTableAgrees_iff _ _ _ (by decide) _ rfl (by decide) _
    (oneBlock_soundMmap _ _ (by decide)) _).mpr
    (.inr ⟨by decide, by decide, oneBlock_identical _ _⟩)

/-- The PC machine with 5 GiB: the part above 4 GiB is not where its RAM address says. -/
theorem memTableAgrees_fails_above_4g :
    ¬ MemTableAgrees (fun _ => ramRegion 0x140000000)
      [ramRange 0 0xe0000000 0, ramRange 0x100000000 0x60000000 0xe0000000]
      (oneBlock 0x140000000 (by decide)) 3 (fun _ => 0) [7] .zero (fun _ => some 0x10000)
      (.fresh .unmapped) := by
  obtain ⟨memory, table, agreesIff⟩ := @memTableAgrees_of_sent (fun _ => ramRegion 0x140000000)
    [ramRange 0 0xe0000000 0, ramRange 0x100000000 0x60000000 0xe0000000]
    (oneBlock 0x140000000 (by decide)) 3 (fun _ => 0) [7] .zero (fun _ => some 0x10000)
    (.fresh .unmapped) (by decide) (by decide) (by decide) rfl (by decide)
  rw [agreesIff]
  intro agrees
  have value := agrees 0x100000000
  rw [mapGuestAddr_announced table] at value
  obtain ⟨base, mapped, same⟩ :
      ∃ base, mmapAt (fun _ => some 0x10000) 0 = some base ∧
        0x10000 + 0x100000000 = base + 0xe0000000 := value
  cases mapped
  exact absurd same (by decide)

end VhostUser.Protocol
