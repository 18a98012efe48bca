import VhostUser.Server.Readiness
import VhostUser.Server.TxWalk

/-!
Contract: what `process_desc` reads of the guest's memory while it walks a chain.

The head and the links are taken as indices into the descriptor table as they are, and only the
start of a buffer is looked up in the memory table. Nothing is compared with the ring size, with the
end of a region or with the result of `mmap`.

Owns: for which chains every read stays inside the descriptor table and inside one mapped region.

Does not own: the walk itself (`TxWalk`).
-/

namespace VhostUser.Server

open VhostUser.Lib Wire

/-- A read of the copy loop: a descriptor of the table, or the source of a `memcpy`. -/
inductive Access where
  | desc (index : Nat)
  | copy (cur : UInt64) (len : Nat)
deriving DecidableEq, Repr

/-- The reads of the copy loop of `process_desc` at descriptor `i`, with `len` bytes copied. -/
def copyAccesses (server : VHostUser) (table : UInt64) : Nat → UInt32 → UInt32 → List Access
  | 0, _, _ => []
  | fuel + 1, i, len =>
    .desc i.toNat ::
      if server.mem.mapped table then
        let desc := server.mem.desc table i.toNat
        let cur := mapGuestAddr server.memory desc.addr
        if (len + desc.len).toNat < ethPacketSize then
          .copy cur desc.len.toNat ::
            -- a copy that leaves the buffer or faults is the last read
            if ethPacketSize < len.toNat + desc.len.toNat then []
            else if (server.mem.readBytes cur desc.len.toNat).isNone then []
            else if desc.flags &&& descFNext ≠ 0 then
              copyAccesses server table fuel desc.next.toUInt32 (len + desc.len)
            else []
        else []
      else []

/-- The read gives the same in both memories. -/
def Access.Same (table : UInt64) (mem other : GuestMem) : Access → Prop
  | .desc index => mem.desc table index = other.desc table index
  | .copy cur len => mem.readBytes cur len = other.readBytes cur len

/-- The copy loop reads what is listed and nothing else: where those reads give the same, it ends
the same. -/
theorem gather_reads {server : VHostUser} {other : GuestMem} {table : UInt64} {fuel : Nat}
    {i len : UInt32} (buf : List UInt8) (mapped : server.mem.mapped table = other.mapped table)
    (same : ∀ access ∈ copyAccesses server table fuel i len, access.Same table server.mem other) :
    gather { server with mem := other } table fuel i len buf =
      gather server table fuel i len buf := by
  induction fuel generalizing i len buf with
  | zero => rfl
  | succ fuel ih =>
    rw [copyAccesses, List.forall_mem_cons] at same
    obtain ⟨read, same⟩ := same
    have desc : server.mem.desc table i.toNat = other.desc table i.toNat := read
    rw [gather, gather]
    dsimp only at same ⊢
    rw [← mapped, ← desc]
    split at same
    next usable =>
      rw [if_pos usable, if_pos usable]
      split at same
      next small =>
        rw [List.forall_mem_cons] at same
        obtain ⟨copy, same⟩ := same
        rw [if_pos small, if_pos small, ← show server.mem.readBytes _ _ = _ from copy]
        split at same
        next beyond => rw [if_pos beyond, if_pos beyond]
        next inside =>
          rw [if_neg inside, if_neg inside]
          split
          · rfl
          next data found =>
            rw [found, if_neg (by simp)] at same
            split at same
            next more =>
              rw [if_pos more, if_pos more]
              exact ih _ same
            next last => rw [if_neg last, if_neg last]
      next large => rw [if_neg large, if_neg large]
    next unusable => rw [if_neg unusable, if_neg unusable]

/-- The copy loop of a call of `process_desc` makes the read. -/
def ProcessDescReads (server : VHostUser) (index : Fin 2) (aIdx : UInt32) (access : Access) :
    Prop :=
  let ring := server.vring index
  let head := (server.mem.avail ring.avail).ring aIdx.toNat
  ∃ fuel, access ∈ copyAccesses server ring.desc fuel head.toUInt32 0

/-- The bytes lie in the mapping of one region of the table, which `mmap` placed. -/
def VHostUserLocalMemory.Contains (memory : VHostUserLocalMemory) (pointer : UInt64)
    (count : Nat) : Prop :=
  ∃ region ∈ memory.active, region.mmapAddr ≠ 0 ∧ region.mmapAddr.toNat ≤ pointer.toNat ∧
    pointer.toNat + count ≤ region.mmapAddr.toNat + region.memorySize.toNat

/-- The descriptor is one of the ring, or all the bytes lie in one mapped region. -/
def Access.Allowed (memory : VHostUserLocalMemory) (num : UInt32) : Access → Prop
  | .desc index => index < num.toNat
  | .copy cur len => len = 0 ∨ memory.Contains cur len

def ReadsInside (server : VHostUser) (index : Fin 2) (aIdx : UInt32) : Prop :=
  ∀ access, ProcessDescReads server index aIdx access →
    access.Allowed server.memory (server.vring index).num

section Turns

variable {server : VHostUser} {table : UInt64} {i len : UInt32} {access : Access}

def turnAccesses (server : VHostUser) (table : UInt64) : Nat × Nat → List Access
  | (i, total) =>
    let desc := server.mem.desc table i
    .desc i ::
      if (total + desc.len.toNat) % 2 ^ 32 < ethPacketSize then
        [.copy (mapGuestAddr server.memory desc.addr) desc.len.toNat]
      else []

section

variable (mapped : server.mem.mapped table = true)
include mapped

theorem copyAccesses_next {second : Nat × Nat}
    (points : walkNext server table (i.toNat, len.toNat) = some second) :
    ∃ successor total : UInt32, second = (successor.toNat, total.toNat) ∧ ∀ fuel,
      copyAccesses server table (fuel + 1) i len =
        turnAccesses server table (i.toNat, len.toNat) ++
          copyAccesses server table fuel successor total := by
  obtain ⟨flag, fits, readable, sum, second_eq⟩ := walkNext_words points
  have read : ¬ (server.mem.readBytes (mapGuestAddr server.memory
      (server.mem.desc table i.toNat).addr)
      (server.mem.desc table i.toNat).len.toNat).isNone = true := by
    rw [Option.isNone_iff_eq_none]
    exact Option.isSome_iff_ne_none.mp readable
  refine ⟨_, _, second_eq, fun fuel => ?_⟩
  rw [copyAccesses, turnAccesses, if_pos mapped]
  dsimp only
  rw [← UInt32.toNat_add, sum, if_pos fits, if_pos fits, if_neg (by omega), if_neg read,
    if_pos flag]
  rfl

theorem copyAccesses_last {fuel : Nat} (stop : walkNext server table (i.toNat, len.toNat) = none) :
    copyAccesses server table (fuel + 1) i len =
      turnAccesses server table (i.toNat, len.toNat) := by
  rw [copyAccesses, turnAccesses, if_pos mapped]
  dsimp only
  rw [UInt32.toNat_add]
  by_cases small : (len.toNat + (server.mem.desc table i.toNat).len.toNat) % 2 ^ 32 < ethPacketSize
  swap
  · rw [if_neg small, if_neg small]
  rw [if_pos small, if_pos small]
  -- one of the three tests after the copy ends the loop, or the walk would go on
  split_ifs with beyond unread flag
  · rfl
  · rfl
  · have fits : len.toNat + (server.mem.desc table i.toNat).len.toNat < ethPacketSize := by
      unfold ethPacketSize at *
      omega
    have readable : bufferReadable server (server.mem.desc table i.toNat) = true := by
      rw [bufferReadable, Option.isSome_iff_ne_none]
      exact fun none => unread (Option.isNone_iff_eq_none.mpr none)
    have goesOn : walkNext server table (i.toNat, len.toNat) =
        some ((server.mem.desc table i.toNat).next.toNat, _) :=
      walkNext_eq_some.mpr ⟨if_pos flag, fits, readable, rfl⟩
    rw [stop] at goesOn
    cases goesOn
  · rfl

theorem mem_copyAccesses_iff :
    (∃ fuel, access ∈ copyAccesses server table fuel i len) ↔
      ∃ states last, Trail (walkNext server table) (i.toNat, len.toNat) states last ∧
        access ∈ turnAccesses server table last := by
  constructor
  · rintro ⟨fuel, member⟩
    induction fuel generalizing i len with
    | zero => cases member
    | succ fuel ih =>
      cases points : walkNext server table (i.toNat, len.toNat) with
      | none =>
        rw [copyAccesses_last mapped points] at member
        exact ⟨[], _, .here, member⟩
      | some second =>
        obtain ⟨successor, total, rfl, turn⟩ := copyAccesses_next mapped points
        rw [turn, List.mem_append] at member
        rcases member with now | later
        · exact ⟨[], _, .here, now⟩
        · obtain ⟨states, last, trail, read⟩ := ih later
          exact ⟨_, last, .step points trail, read⟩
  · rintro ⟨states, last, trail, read⟩
    induction states generalizing i len with
    | nil =>
      cases trail
      refine ⟨1, ?_⟩
      cases points : walkNext server table (i.toNat, len.toNat) with
      | none =>
        rw [copyAccesses_last mapped points]
        exact read
      | some second =>
        obtain ⟨successor, total, -, turn⟩ := copyAccesses_next mapped points
        rw [turn]
        exact List.mem_append_left _ read
    | cons first rest ih =>
      cases trail with
      | step points later =>
        obtain ⟨successor, total, rfl, turn⟩ := copyAccesses_next mapped points
        obtain ⟨fuel, member⟩ := ih later
        exact ⟨fuel + 1, by rw [turn]; exact List.mem_append_right _ member⟩

end

end Turns

/-! ### Reads that stay inside -/

/-- The loop copies descriptor `i` behind `front`: the sum of the lengths is below the limit, in
32 bits. -/
def Copies (server : VHostUser) (table : UInt64) (front : List Nat) (i : Nat) : Prop :=
  let sum := totalLen (front.map (server.mem.desc table)) + (server.mem.desc table i).len.toNat
  sum < ethPacketSize ∨ 2 ^ 32 ≤ sum

/-- The buffer has no bytes, or those that `_map_guest_addr` leads to lie in one mapped region. -/
def Backed (server : VHostUser) (desc : VringDesc) : Prop :=
  desc.len.toNat = 0 ∨ server.memory.Contains (mapGuestAddr server.memory desc.addr) desc.len.toNat

/-- The first region that has the start of a buffer contains all of it, when `mmap` placed the
region and the buffer does not reach past its end. -/
theorem contains_of_find {memory : VHostUserLocalMemory} {addr : UInt64} {count : Nat}
    {region : VHostUserLocalMemoryRegion}
    (found : memory.active.find? (fun region =>
      regionHas region.guestPhysAddr region.memorySize addr) = some region)
    (placed : region.mmapAddr ≠ 0)
    (fits : region.mmapAddr.toNat + region.memorySize.toNat ≤ 2 ^ 64)
    (inside : addr.toNat - region.guestPhysAddr.toNat + count ≤ region.memorySize.toNat)
    (some : 0 < count) : memory.Contains (mapGuestAddr memory addr) count := by
  have accepted := List.find?_some found
  simp only [regionHas, Bool.and_eq_true, decide_eq_true_eq, UInt64.le_iff_toNat_le] at accepted
  refine ⟨region, List.mem_of_find?_eq_some found, placed, ?_⟩
  have pointer : (mapGuestAddr memory addr).toNat =
      region.mmapAddr.toNat + (addr.toNat - region.guestPhysAddr.toNat) := by
    rw [mapGuestAddr, mapAddr_of_find found, UInt64.toNat_sub, UInt64.toNat_add]
    have := addr.toNat_lt
    omega
  omega

section Safety

variable {server : VHostUser} {table : UInt64} {head i : Nat} {front : List Nat} {access : Access}

theorem mem_turnAccesses_iff (walks : Walks server table head front i) :
    access ∈ turnAccesses server table (i, totalLen (front.map (server.mem.desc table))) ↔
      access = .desc i ∨ Copies server table front i ∧
        access = .copy (mapGuestAddr server.memory (server.mem.desc table i).addr)
          (server.mem.desc table i).len.toNat := by
  have below := walks.below
  have bound := (server.mem.desc table i).len.toNat_lt
  have compared : (totalLen (front.map (server.mem.desc table)) +
      (server.mem.desc table i).len.toNat) % 2 ^ 32 < ethPacketSize ↔
        Copies server table front i := by
    unfold Copies
    omega
  rw [turnAccesses, List.mem_cons]
  refine or_congr_right ?_
  by_cases copies : Copies server table front i
  · rw [if_pos (compared.mpr copies), List.mem_singleton]
    simp [copies]
  · rw [if_neg fun small => copies (compared.mp small)]
    simp [copies]

end Safety

/-- The reads of a call stay inside the ring and the mapped regions exactly when every descriptor
that the loop comes to is one of the ring, and every buffer that it copies lies in one mapped
region. -/
theorem processDesc_reads_iff (server : VHostUser) (index : Fin 2) (aIdx : UInt32) (head : UInt16)
    (mapped : RingMapped server index)
    (headEq : (server.mem.avail (server.vring index).avail).ring aIdx.toNat = head) :
    ReadsInside server index aIdx ↔
      ∀ front i, Walks server (server.vring index).desc head.toNat front i →
        i < (server.vring index).num.toNat ∧ (Copies server (server.vring index).desc front i →
          Backed server (server.mem.desc (server.vring index).desc i)) := by
  have reads : ∀ access, ProcessDescReads server index aIdx access ↔
      ∃ states last, Trail (walkNext server (server.vring index).desc) (head.toNat, 0) states last ∧
        access ∈ turnAccesses server (server.vring index).desc last := by
    intro access
    rw [ProcessDescReads, headEq, mem_copyAccesses_iff mapped.desc, UInt16.toNat_toUInt32]
    rfl
  constructor
  · intro allowed front i walks
    obtain ⟨states, -, trail⟩ := walks.states
    refine ⟨allowed (.desc i) ?_, fun copies => allowed (.copy _ _) ?_⟩
    · exact (reads _).mpr ⟨states, _, trail, (mem_turnAccesses_iff walks).mpr (.inl rfl)⟩
    · exact (reads _).mpr
        ⟨states, _, trail, (mem_turnAccesses_iff walks).mpr (.inr ⟨copies, rfl⟩)⟩
  · intro inside access read
    obtain ⟨states, ⟨i, total⟩, trail, member⟩ := (reads access).mp read
    obtain ⟨walks, rfl⟩ := walks_of_states trail
    obtain ⟨below, backed⟩ := inside _ i walks
    obtain rfl | ⟨copies, rfl⟩ := (mem_turnAccesses_iff walks).mp member
    · exact below
    · exact backed copies

def tableMsg : VHostUserLocalMsg :=
  rawMsg .setMemTable [(memoryNregions, 1), (regionUserspaceAddr 0, 0x10000),
    (regionMemorySize 0, 0x10000), (regionGuestPhysAddr 0, 0)] [5]

def tableServer (answer : Option UInt64) (desc : VringDesc) : VHostUser :=
  { oneHeadServer desc 0 with
    memory := installed tableMsg (fun _ => answer) ⟨0, (oneHeadServer desc 0).memory.regions⟩
      ((List.finRange memoryMaxNregions).take 1) }

theorem tableServer_installed (answer : Option UInt64) (desc : VringDesc) :
    (setMemTable tableMsg fun _ => answer).run (oneHeadServer desc 0) =
      .ok 0 (tableServer answer desc) :=
  setMemTable_run (by decide +kernel) (by decide) (by decide +kernel) (by decide +kernel)

theorem tableServer_active (answer : Option UInt64) (desc : VringDesc) :
    (tableServer answer desc).memory.active = [⟨0, 0x10000, 0x10000, initShmFromFd answer⟩] :=
  installed_active (oneHeadServer desc 0).memory (show 1 ≤ memoryMaxNregions by decide)

theorem tableServer_mapped (answer : Option UInt64) (desc : VringDesc) :
    RingMapped (tableServer answer desc) txIdx where
  usable := ⟨(by decide : (1 : UInt32) ≠ 0), rfl, rfl⟩
  desc := rfl

/-- A frame inside the region. -/
theorem processDesc_reads_frame :
    ReadsInside (tableServer (some 0x100000) ⟨0x40, 74, 0, 0⟩) txIdx 0 := by
  refine (processDesc_reads_iff (tableServer (some 0x100000) ⟨0x40, 74, 0, 0⟩) txIdx 0 0
    (tableServer_mapped _ _) rfl).mpr fun front i walks => ?_
  cases walks.path with
  | here =>
    have found : (tableServer (some 0x100000) ⟨0x40, 74, 0, 0⟩).memory.active.find?
        (fun region => regionHas region.guestPhysAddr region.memorySize 0x40) =
          some ⟨0, 0x10000, 0x10000, 0x100000⟩ := by
      rw [tableServer_active]
      rfl
    exact ⟨by decide, fun _ => .inr
      (contains_of_find found (by decide) (by decide) (by decide) (by decide))⟩
  | step points _ => cases points

/-- A link past the ring, a buffer that reaches past its region, and a region that `mmap` did not
place are all read. -/
theorem processDesc_reads_outside :
    (∀ answer desc, (setMemTable tableMsg fun _ => answer).run (oneHeadServer desc 0) =
        .ok 0 (tableServer answer desc)) ∧
      ¬ ReadsInside (tableServer (some 0x100000) ⟨0x40, 10, descFNext, 7⟩) txIdx 0 ∧
      ¬ ReadsInside (tableServer (some 0x100000) ⟨0xfff8, 74, 0, 0⟩) txIdx 0 ∧
      ¬ ReadsInside (tableServer none ⟨0x40, 74, 0, 0⟩) txIdx 0 := by
  refine ⟨tableServer_installed, fun inside => ?_, fun inside => ?_, fun inside => ?_⟩
  · have below : 7 < 1 := inside (.desc 7) ⟨2, by decide +kernel⟩
    omega
  · obtain zero | ⟨region, member, -, -, below⟩ :=
      inside (.copy 0x10fff8 74) ⟨1, by decide +kernel⟩
    · cases zero
    · rw [tableServer_active, List.mem_singleton] at member
      subst member
      exact absurd below (by decide)
  · obtain zero | ⟨region, member, placed, -⟩ := inside (.copy 0x40 74) ⟨1, by decide +kernel⟩
    · cases zero
    · rw [tableServer_active, List.mem_singleton] at member
      subst member
      exact placed rfl

end VhostUser.Server
