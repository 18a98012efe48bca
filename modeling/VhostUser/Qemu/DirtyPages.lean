import VhostUser.Qemu.LogTable
import Mathlib.Data.Nat.Bitwise

/-!
Contract: which pages that the backend marks in the log QEMU reports.

A sync reads whole chunks of the log, for one section at a time, and forgets what
it read. So a mark is reported as the RAM of whichever section the chunk is read
for, and it is never reported once no section is left whose sync reads the chunk.
`vhost_region_del` drops a section without reading the log for it.

Owns: the condition under which every mark is reported by the time the device is
stopped, and the run without it in which a page is lost.
-/

namespace VhostUser.Qemu.VhostLog

open VhostUser.Lib

/-! ### Bits -/

def BitSet (words : LogWords) (gpa : UInt64) : Prop :=
  (words (gpa / vhostLogChunk).toNat).toNat.testBit (gpa / vhostLogPage % 64).toNat = true

theorem page_bit_lt (gpa : UInt64) : (gpa / vhostLogPage % 64).toNat < 64 := by
  exact Nat.mod_lt _ (by decide)

theorem one_shift_toNat (gpa : UInt64) :
    ((1 : UInt64) <<< (gpa / vhostLogPage % 64)).toNat = 2 ^ (gpa / vhostLogPage % 64).toNat := by
  have small := page_bit_lt gpa
  rw [UInt64.toNat_shiftLeft, Nat.mod_eq_of_lt small, UInt64.toNat_one, Nat.one_shiftLeft]
  exact Nat.mod_eq_of_lt (Nat.pow_lt_pow_right (by decide) small)

theorem bitSet_setBit (words : LogWords) (gpa : UInt64) : BitSet (setBit words gpa) gpa := by
  rw [BitSet, setBit, Function.update_self, UInt64.toNat_or, one_shift_toNat, Nat.testBit_or,
    Nat.testBit_two_pow_self, Bool.or_true]

variable {gpa addr first last : UInt64} {mark : Mark} {words : LogWords}
  {arrivals : List UInt64}

theorem BitSet.setBit (set : BitSet words gpa) (other : UInt64) :
    BitSet (setBit words other) gpa := by
  rw [BitSet] at set ⊢
  rw [VhostLog.setBit]
  by_cases same : (gpa / vhostLogChunk).toNat = (other / vhostLogChunk).toNat
  · rw [same, Function.update_self, UInt64.toNat_or, Nat.testBit_or, ← same, set, Bool.true_or]
  · rwa [Function.update_of_ne same]

theorem report_isFor {visit : Visit} (set : BitSet words mark.gpa)
    (chunk : visit.chunk = (mark.gpa / vhostLogChunk).toNat) (mr : visit.sec.mr = mark.mr)
    (offset : offsetIn visit.sec mark.gpa = mark.offset) :
    ((setBits (words visit.chunk)).map visit.report).any (·.isFor mark) = true := by
  have small := page_bit_lt mark.gpa
  refine List.any_eq_true.mpr ⟨visit.report (mark.gpa / vhostLogPage % 64).toNat,
    List.mem_map.mpr ⟨_, ?_, rfl⟩, ?_⟩
  · rw [setBits, List.mem_filter, List.mem_range, chunk]
    exact ⟨small, set⟩
  have inside : mark.offset - (visit.report (mark.gpa / vhostLogPage % 64).toNat).offset =
      mark.gpa - (mark.gpa / vhostLogChunk * vhostLogChunk +
        mark.gpa / vhostLogPage % 64 * vhostLogPage) := by
    simp only [Visit.report, chunk, UInt64.ofNat_toNat]
    rw [← offset, offsetIn]
    grind
  simp only [DirtyReport.isFor, Bool.and_eq_true, decide_eq_true_eq]
  refine ⟨mr, ?_⟩
  rw [inside, UInt64.lt_iff_toNat_lt]
  simp only [UInt64.toNat_sub, UInt64.toNat_add, UInt64.toNat_mul, UInt64.toNat_div,
    UInt64.toNat_mod, vhostLogChunk, vhostLogPage, UInt64.reduceToNat]
  omega

/-! ### Chunks that a sync reads -/

def Ringed (vqs : List VhostVirtqueue) (addr : UInt64) : Prop :=
  ∃ vq ∈ vqs, vq.usedPhys ≤ addr ∧ addr ≤ rangeGetLast vq.usedPhys vq.usedSize.toUInt64

def Logged (dev : VhostDev) (addr : UInt64) : Prop :=
  Tabled dev.memory.mem addr ∨ Ringed dev.vqs addr

/-- A sync for the section reads the chunk of the address: a logged address of the section is in
it. -/
def Scanned (logged : UInt64 → Prop) (sec : MemoryRegionSection) (gpa : UInt64) : Prop :=
  ∃ addr, addr / vhostLogChunk = gpa / vhostLogChunk ∧ covers sec addr = true ∧ logged addr

theorem logged_iff {dev : VhostDev} :
    Logged dev addr ↔ ∃ range ∈ loggedRanges dev, range.1 ≤ addr ∧ addr ≤ range.2 := by
  simp only [Logged, Tabled, Ringed, loggedRanges, List.mem_append, List.mem_map]
  constructor
  · rintro (⟨reg, member, inside⟩ | ⟨vq, member, inside⟩)
    · exact ⟨_, .inl ⟨reg, member, rfl⟩, inside⟩
    · exact ⟨_, .inr ⟨vq, member, rfl⟩, inside⟩
  · rintro ⟨range, ⟨reg, member, rfl⟩ | ⟨vq, member, rfl⟩, inside⟩
    · exact .inl ⟨reg, member, inside⟩
    · exact .inr ⟨vq, member, inside⟩

theorem chunk_between {start stop : UInt64} (nonempty : start ≤ stop) (chunk : Nat) :
    (start.toNat / 0x40000 ≤ chunk ∧ chunk ≤ stop.toNat / 0x40000) ↔
      ∃ addr : UInt64, addr.toNat / 0x40000 = chunk ∧ start ≤ addr ∧ addr ≤ stop := by
  have bound := stop.toNat_lt
  simp only [UInt64.le_iff_toNat_le] at nonempty ⊢
  constructor
  · rintro ⟨low, high⟩
    have value : (UInt64.ofNat (max start.toNat (chunk * 0x40000))).toNat =
        max start.toNat (chunk * 0x40000) := by
      rw [UInt64.toNat_ofNat']
      omega
    refine ⟨.ofNat (max start.toNat (chunk * 0x40000)), ?_⟩
    omega
  · rintro ⟨addr, rfl, low, high⟩
    omega

theorem window_both {low high start stop : UInt64} : (max low start ≤ addr ∧ addr ≤ min high stop) ↔
    (low ≤ addr ∧ addr ≤ high) ∧ start ≤ addr ∧ addr ≤ stop := by
  simp only [UInt64.le_iff_toNat_le, min_toNat, max_toNat]
  omega

section Visits

variable {dev : VhostDev} {sec : MemoryRegionSection} {visits : List Visit} {visit : Visit}

theorem mem_vhostDevSyncRegion {mfirst mlast rfirst rlast : UInt64}
    (result : vhostDevSyncRegion dev sec mfirst mlast rfirst rlast = .ok visits) :
    visit ∈ visits ↔ visit.sec = sec ∧ ∃ addr : UInt64, addr.toNat / 0x40000 = visit.chunk ∧
      (mfirst ≤ addr ∧ addr ≤ mlast) ∧ rfirst ≤ addr ∧ addr ≤ rlast := by
  simp only [← window_both]
  simp only [vhostDevSyncRegion] at result
  split at result
  next empty =>
    cases result
    simp only [UInt64.lt_iff_toNat_lt, UInt64.le_iff_toNat_le] at empty ⊢
    constructor
    · intro member
      cases member
    · rintro ⟨-, addr, -, low, high⟩
      omega
  next nonempty =>
    rw [UInt64.not_lt] at nonempty
    split at result
    · cases result
    split at result
    · cases result
    cases result
    rw [← chunk_between nonempty]
    simp only [List.mem_map, List.mem_range, chunk_toNat]
    constructor
    · rintro ⟨turn, inside, rfl⟩
      exact ⟨rfl, by simp only; omega⟩
    · rintro ⟨rfl, low, high⟩
      refine ⟨visit.chunk - (max mfirst rfirst).toNat / 0x40000, by omega, ?_⟩
      rw [Nat.add_sub_cancel' low]

theorem mem_vhostSyncDirtyBitmap {first last : UInt64}
    (started : dev.memory.started = true) (on : dev.logEnabled = true)
    (result : vhostSyncDirtyBitmap dev first last sec = .ok visits) :
    ∃ size, int128Get64 sec.size = some size ∧ ∀ visit, visit ∈ visits ↔ visit.sec = sec ∧
      ∃ addr : UInt64, addr.toNat / 0x40000 = visit.chunk ∧ (first ≤ addr ∧ addr ≤ last) ∧
        (sec.offsetWithinAddressSpace ≤ addr ∧
          addr ≤ rangeGetLast sec.offsetWithinAddressSpace size) ∧ Logged dev addr := by
  rw [vhostSyncDirtyBitmap, started, on] at result
  simp only [Bool.not_true, Bool.or_self, Bool.false_eq_true, if_false] at result
  split at result
  · cases result
  next size size_eq =>
    refine ⟨size, size_eq, fun visit => ?_⟩
    rw [mem_concatMap result]
    simp only [logged_iff]
    constructor
    · rintro ⟨range, member, part, partResult, inPart⟩
      obtain ⟨here, addr, chunk, inSection, inRange⟩ :=
        (mem_vhostDevSyncRegion partResult).mp inPart
      obtain ⟨window, inside⟩ := window_both.mp inSection
      exact ⟨here, addr, chunk, window, inside, range, member, inRange⟩
    · rintro ⟨here, addr, chunk, window, inside, range, member, inRange⟩
      obtain ⟨part, partResult⟩ := concatMap_ok result member
      exact ⟨range, member, part, partResult, (mem_vhostDevSyncRegion partResult).mpr
        ⟨here, addr, chunk, window_both.mpr ⟨window, inside⟩, inRange⟩⟩

end Visits

/-! ### Marks that a sync will report -/

variable {env : VhostEnv} {isRam : Nat → Bool} {map : MemoryMap env isRam} {logged : UInt64 → Prop}
  {dev after : VhostDev} {sec : MemoryRegionSection} {visits : List Visit}

def MemoryMap.sections (map : MemoryMap env isRam) : List MemoryRegionSection :=
  map.view.filterMap (·.toSection 0)

/-- The chunk of the mark is read for a RAM section, and only for sections that have the RAM of
the mark at that address. -/
structure Traced (map : MemoryMap env isRam) (logged : UInt64 → Prop) (mark : Mark) : Prop where
  read : ∃ sec ∈ map.sections, isRam sec.mr = true ∧ Scanned logged sec mark.gpa
  same : ∀ sec ∈ map.sections, Scanned logged sec mark.gpa →
    sec.mr = mark.mr ∧ offsetIn sec mark.gpa = mark.offset

structure Proper (map : MemoryMap env isRam) (logged : UInt64 → Prop) (visit : Visit) : Prop where
  sec : visit.sec ∈ map.sections
  addr : ∃ addr : UInt64, addr.toNat / 0x40000 = visit.chunk ∧ covers visit.sec addr = true ∧
    logged addr

/-- The marks that are pending are still in the log, and will be read from there. -/
def Due (map : MemoryMap env isRam) (logged : UInt64 → Prop) (dev : VhostDev) : Prop :=
  ∀ mark ∈ dev.pending, BitSet dev.words mark.gpa ∧ Traced map logged mark

theorem gpa_of_markOf {sections : List MemoryRegionSection} (member : mark ∈ markOf sections gpa) :
    mark.gpa = gpa := by
  rw [markOf, Option.mem_toList] at member
  obtain ⟨sec, -, rfl⟩ := Option.map_eq_some_iff.mp member
  rfl

theorem Due.marked (due : Due map logged dev)
    (traced : ∀ mark ∈ markOf dev.memory.memSections gpa, Traced map logged mark) :
    Due map logged (dev.mark gpa) := by
  intro mark member
  rcases List.mem_append.mp member with old | new
  · exact ⟨(due mark old).1.setBit gpa, (due mark old).2⟩
  · refine ⟨?_, traced mark new⟩
    rw [gpa_of_markOf new]
    exact bitSet_setBit dev.words gpa

theorem Due.unvisited (due : Due map logged dev) {visit : Visit} (proper : Proper map logged visit)
    (left : mark ∈ (dev.visit visit).pending) :
    mark ∈ dev.pending ∧ visit.chunk ≠ (mark.gpa / vhostLogChunk).toNat := by
  obtain ⟨member, unreported⟩ := List.mem_filter.mp left
  refine ⟨member, fun chunk => ?_⟩
  obtain ⟨set, traced⟩ := due mark member
  obtain ⟨addr, addrChunk, inside, isLogged⟩ := proper.addr
  have scanned : Scanned logged visit.sec mark.gpa := by
    refine ⟨addr, UInt64.toNat_inj.mp ?_, inside, isLogged⟩
    rw [chunk_toNat, addrChunk, chunk]
  obtain ⟨mr, offset⟩ := traced.same visit.sec proper.sec scanned
  rw [report_isFor set chunk mr offset] at unreported
  cases unreported

theorem Due.visit (due : Due map logged dev) {visit : Visit} (proper : Proper map logged visit) :
    Due map logged (dev.visit visit) := by
  intro mark left
  obtain ⟨member, elsewhere⟩ := due.unvisited proper left
  refine ⟨?_, (due mark member).2⟩
  have word : (dev.visit visit).words (mark.gpa / vhostLogChunk).toNat =
      dev.words (mark.gpa / vhostLogChunk).toNat := Function.update_of_ne elsewhere.symm _ _
  rw [BitSet, word]
  exact (due mark member).1

section Sync

variable {visits : List Visit} {arrivals : List (List UInt64)}

theorem Due.sync (due : Due map logged dev) (proper : ∀ visit ∈ visits, Proper map logged visit)
    (traced : ∀ gpa ∈ arrivals.flatten, ∀ mark ∈ markOf dev.memory.memSections gpa,
      Traced map logged mark) : Due map logged (dev.sync visits arrivals) := by
  refine (@sync_invariant (fun _ mid => mid.memory = dev.memory ∧ Due map logged mid) visits []
    arrivals dev (fun gpa member _ mid before => ⟨before.1, before.2.marked ?_⟩)
    (fun visit member _ mid before => ⟨before.1, before.2.visit (proper visit member)⟩)
    ⟨rfl, due⟩).2
  rw [before.1]
  exact traced gpa member

/-- Without new marks, what is left was pending before and is in no chunk that was
visited. -/
theorem Due.sync_left (due : Due map logged dev)
    (proper : ∀ visit ∈ visits, Proper map logged visit)
    (quiet : ∀ gpa ∈ arrivals.flatten, markOf dev.memory.memSections gpa = []) {mark : Mark}
    (left : mark ∈ (dev.sync visits arrivals).pending) :
    mark ∈ dev.pending ∧ ∀ visit ∈ visits, visit.chunk ≠ (mark.gpa / vhostLogChunk).toNat := by
  have ended := @sync_invariant (fun done mid => mid.memory = dev.memory ∧ Due map logged mid ∧
      ∀ mark ∈ mid.pending, mark ∈ dev.pending ∧
        ∀ visit ∈ done, visit.chunk ≠ (mark.gpa / vhostLogChunk).toNat) visits [] arrivals dev
    (by
      rintro gpa member done mid ⟨same, due, earlier⟩
      have none : markOf mid.memory.memSections gpa = [] := same ▸ quiet gpa member
      refine ⟨same, due.marked (by simp [none]), ?_⟩
      rwa [VhostDev.mark, none, List.append_nil])
    (by
      rintro visit member done mid ⟨same, due, earlier⟩
      refine ⟨same, due.visit (proper visit member), fun mark left => ?_⟩
      obtain ⟨before, notHere⟩ := due.unvisited (proper visit member) left
      exact ⟨(earlier mark before).1, List.forall_mem_cons.mpr ⟨notHere, (earlier mark before).2⟩⟩)
    ⟨rfl, due, fun mark member => ⟨member, List.forall_mem_nil _⟩⟩
  simpa using ended.2.2 mark left

end Sync

/-! ### Whole syncs -/

theorem MemoryMap.mem_sections : sec ∈ map.sections ↔ ∃ fr ∈ map.view, fr.toSection 0 = some sec :=
  List.mem_filterMap

structure SoundSection (sec : MemoryRegionSection) : Prop where
  nonempty : 0 < sec.size
  bounded : sec.offsetWithinAddressSpace.toNat + sec.size ≤ 2 ^ 64

theorem SoundSection.covers_range {size : UInt64} (sound : SoundSection sec)
    (size_eq : int128Get64 sec.size = some size) (addr : UInt64) :
    (sec.offsetWithinAddressSpace ≤ addr ∧
      addr ≤ rangeGetLast sec.offsetWithinAddressSpace size) ↔ covers sec addr = true := by
  have nonempty := sound.nonempty
  have bounded := sound.bounded
  have sizeValue := int128Get64_some size_eq
  have bound := addr.toNat_lt
  have last := @rangeGetLast_toNat sec.offsetWithinAddressSpace size (by omega) (by omega)
  simp only [covers, Bool.and_eq_true, decide_eq_true_eq, UInt64.le_iff_toNat_le,
    UInt64.toNat_sub, last]
  omega

theorem MemoryMap.soundSection (member : sec ∈ map.sections) : SoundSection sec := by
  obtain ⟨fr, inView, sec_eq⟩ := mem_sections.mp member
  have nonempty := (map.separate.fits fr inView).nonempty
  have high := (map.separate.fits fr inView).high
  obtain ⟨start, start_eq, rfl⟩ := Option.map_eq_some_iff.mp sec_eq
  have startValue := int128Get64_some start_eq
  simp only [AddrRange.last] at high
  exact ⟨by omega, by dsimp only; omega⟩

theorem bitmapVisits (member : sec ∈ map.sections) (started : dev.memory.started = true)
    (on : dev.logEnabled = true) (result : vhostSyncDirtyBitmap dev first last sec = .ok visits)
    (visit : Visit) :
    visit ∈ visits ↔ visit.sec = sec ∧ ∃ addr : UInt64, addr.toNat / 0x40000 = visit.chunk ∧
      (first ≤ addr ∧ addr ≤ last) ∧ covers sec addr = true ∧ Logged dev addr := by
  obtain ⟨size, size_eq, members⟩ := mem_vhostSyncDirtyBitmap started on result
  rw [members]
  simp only [(map.soundSection member).covers_range size_eq]

theorem bitmapVisits_proper (member : sec ∈ map.sections)
    (result : vhostSyncDirtyBitmap dev first last sec = .ok visits) :
    ∀ visit ∈ visits, Proper map (Logged dev) visit := by
  intro visit inVisits
  by_cases active : dev.logEnabled = true ∧ dev.memory.started = true
  · obtain ⟨rfl, addr, chunk, -, inside, isLogged⟩ :=
      (bitmapVisits member active.2 active.1 result visit).mp inVisits
    exact ⟨member, addr, chunk, inside, isLogged⟩
  · rw [vhostSyncDirtyBitmap, if_pos] at result
    · cases result
      cases inVisits
    · simpa [or_iff_not_imp_left] using active

section AllSections

variable {mask : FlatRange → UInt8} {first last : UInt64} {visits : List Visit}
  {arrivals : List (List UInt64)}

theorem Held.section_mem (held : Held map mask dev.memory) {sec : MemoryRegionSection}
    (member : sec ∈ dev.memory.memSections) : sec ∈ map.sections := by
  obtain ⟨fr, inView, -, sec_eq⟩ := held.mem_sections.mp member
  exact MemoryMap.mem_sections.mpr ⟨fr, inView, sec_eq⟩

theorem logSyncRange_proper (held : Held map mask dev.memory)
    (result : vhostLogSyncRange dev first last = .ok visits) :
    ∀ visit ∈ visits, Proper map (Logged dev) visit := by
  intro visit inVisits
  obtain ⟨sec, member, part, partResult, inPart⟩ := (mem_concatMap result visit).mp inVisits
  exact bitmapVisits_proper (held.section_mem member) partResult visit inPart

/-- A sync of all sections reports every mark in its window. -/
theorem Due.sync_all (due : Due map (Logged dev) dev) (held : Held map mask dev.memory)
    (active : dev.pending ≠ [] → dev.memory.started = true ∧ dev.logEnabled = true)
    (window : ∀ mark ∈ dev.pending, ∀ addr : UInt64,
      addr / vhostLogChunk = mark.gpa / vhostLogChunk → first ≤ addr ∧ addr ≤ last)
    (quiet : ∀ gpa ∈ arrivals.flatten, markOf dev.memory.memSections gpa = [])
    (result : vhostLogSyncRange dev first last = .ok visits) :
    (dev.sync visits arrivals).pending = [] := by
  rw [List.eq_nil_iff_forall_not_mem]
  intro mark left
  obtain ⟨before, elsewhere⟩ := due.sync_left (logSyncRange_proper held result) quiet left
  obtain ⟨started, on⟩ := active (List.ne_nil_of_mem before)
  obtain ⟨sec, inMap, ram, addr, chunk, inside, isLogged⟩ := (due mark before).2.read
  -- the section is one of those of the device, so its sync reads the chunk
  have member : sec ∈ dev.memory.memSections := by
    obtain ⟨fr, inView, sec_eq⟩ := MemoryMap.mem_sections.mp inMap
    have region : sec.mr = fr.mr := by
      obtain ⟨start, -, rfl⟩ := Option.map_eq_some_iff.mp sec_eq
      rfl
    exact held.mem_sections.mpr ⟨fr, inView, region ▸ ram, sec_eq⟩
  obtain ⟨part, partResult⟩ := concatMap_ok result member
  have visited : ⟨sec, (mark.gpa / vhostLogChunk).toNat⟩ ∈ visits := by
    refine (mem_concatMap result _).mpr ⟨sec, member, part, partResult, ?_⟩
    refine (bitmapVisits inMap started on partResult _).mpr
      ⟨rfl, addr, ?_, window mark before addr chunk, inside, isLogged⟩
    rw [← chunk_toNat, chunk]
  exact elsewhere _ visited rfl

theorem oldLog_window {size addr gpa : UInt64}
    (chunk : addr / vhostLogChunk = gpa / vhostLogChunk)
    (reaches : gpa ≤ size * vhostLogChunk - 1) : addr ≤ size * vhostLogChunk - 1 := by
  have same := congrArg UInt64.toNat chunk
  rw [chunk_toNat, chunk_toNat] at same
  simp only [UInt64.le_iff_toNat_le, UInt64.toNat_sub, UInt64.toNat_mul, vhostLogChunk,
    UInt64.reduceToNat] at reaches ⊢
  omega

/-- A resize reports every mark that the old log had. -/
theorem Due.resize (due : Due map (Logged dev) dev) (held : Held map mask dev.memory)
    (active : dev.pending ≠ [] → dev.memory.started = true ∧ dev.logEnabled = true)
    (sized : dev.pending ≠ [] → dev.logSize ≠ 0)
    (reaches : ∀ mark ∈ dev.pending, mark.gpa ≤ dev.logSize * vhostLogChunk - 1)
    (result : oldLogVisits dev = .ok visits) : (dev.sync visits []).pending = [] := by
  rw [oldLogVisits] at result
  split at result
  · refine due.sync_all held active (fun mark member addr chunk => ⟨?_, ?_⟩) (by simp) result
    · rw [UInt64.le_iff_toNat_le]
      exact Nat.zero_le _
    · exact oldLog_window chunk (reaches mark member)
  next empty =>
    cases result
    exact not_not.mp fun some => empty (sized some)

end AllSections

/-! ### Runs -/

variable {host next : Host env isRam} {action : LogAction env isRam}

/-- The table or a used ring has the address after a memory transaction. -/
def LoggedAfter (host : Host env isRam) (new : MemoryMap env isRam) (addr : UInt64) : Prop :=
  TabledAfter host.map new host.dev.memory.mem addr ∨ Ringed host.dev.vqs addr

/-- If the backend marks the address, and it is RAM, logging is on and the mark will be read. -/
def Seen (host : Host env isRam) (gpa : UInt64) : Prop :=
  ∀ mark ∈ markOf host.dev.memory.memSections gpa, host.dev.memory.started = true ∧
    host.dev.logEnabled = true ∧ Traced host.map (Logged host.dev) mark

/-- What is marked will be read as the RAM that was marked, also after every transaction, and
logging stays on. A device is started only when stopped, and the backend does not write while it
is being stopped. -/
def Tracking (host : Host env isRam) : LogAction env isRam → Prop
  | .mark gpa => Seen host gpa
  | .logSync sec arrivals =>
    sec ∈ host.map.sections ∧ ∀ gpa ∈ arrivals.flatten, Seen host gpa
  | .transact new _ => ∀ mark ∈ host.dev.pending, Traced new (LoggedAfter host new) mark ∧
      mark.gpa ≤ host.dev.logSize * vhostLogChunk - 1
  | .start _ => host.dev.memory.started = false
  | .stop _ arrivals =>
    ∀ gpa ∈ arrivals.flatten, markOf host.dev.memory.memSections gpa = []
  | .migrationLog enable _ => enable = true

structure Tracked (host : Host env isRam) : Prop where
  held : ∃ mask, Held host.map mask host.dev.memory
  covered : Covered host.dev
  due : Due host.map (Logged host.dev) host.dev
  active : host.dev.pending ≠ [] → host.dev.memory.started = true ∧ host.dev.logEnabled = true

theorem Held.of_fields {mask : FlatRange → UInt8} {memory other : VhostMemoryDev}
    (held : Held map mask memory) (mem : other.mem = memory.mem)
    (sections : other.memSections = memory.memSections) : Held map mask other :=
  ⟨held.free, held.holds.of_fields mem sections⟩

theorem Due.empty (empty : dev.pending = []) : Due map logged dev := by
  intro mark member
  rw [empty] at member
  cases member

theorem logged_congr (mem : after.memory.mem = dev.memory.mem) (vqs : after.vqs = dev.vqs) :
    Logged after = Logged dev := by
  funext addr
  rw [Logged, Logged, mem, vqs]

section

variable (tracked : Tracked host)
include tracked

theorem Tracked.logSize_ne_zero (some : host.dev.pending ≠ []) : host.dev.logSize ≠ 0 := by
  obtain ⟨started, on⟩ := tracked.active some
  obtain ⟨mark, member⟩ := List.exists_mem_of_ne_nil _ some
  obtain ⟨sec, -, -, addr, -, -, isLogged⟩ := (tracked.due mark member).2.read
  obtain ⟨range, inRanges, -⟩ := logged_iff.mp isLogged
  have below := range_lt_logSize inRanges
  have size := UInt64.le_iff_toNat_le.mp (tracked.covered started on)
  intro zero
  rw [zero] at size
  have none : (0 : UInt64).toNat = 0 := rfl
  omega

theorem Tracked.pending_of_stopped
    (stopped : host.dev.memory.started = false) : host.dev.pending = [] := by
  by_contra some
  have started := (tracked.active some).1
  rw [stopped] at started
  cases started

theorem Tracked.pending_of_off (off : host.dev.logEnabled = false) : host.dev.pending = [] := by
  by_contra some
  have on := (tracked.active some).2
  rw [off] at on
  cases on

theorem Tracked.settled (covered : Covered after) (mem : after.memory.mem = host.dev.memory.mem)
    (sections : after.memory.memSections = host.dev.memory.memSections)
    (empty : after.pending = []) : Tracked { host with dev := after } := by
  obtain ⟨mask, held⟩ := tracked.held
  exact ⟨⟨mask, held.of_fields mem sections⟩, covered, .empty empty, fun some => absurd empty some⟩

theorem Tracked.synced {arrivals : List (List UInt64)}
    (proper : ∀ visit ∈ visits, Proper host.map (Logged host.dev) visit)
    (traced : ∀ gpa ∈ arrivals.flatten, ∀ mark ∈ markOf host.dev.memory.memSections gpa,
      Traced host.map (Logged host.dev) mark)
    (active : (host.dev.sync visits arrivals).pending ≠ [] →
      host.dev.memory.started = true ∧ host.dev.logEnabled = true) :
    Tracked { host with dev := host.dev.sync visits arrivals } := by
  have same := sync_setup host.dev visits arrivals
  obtain ⟨mask, held⟩ := tracked.held
  refine ⟨⟨mask, held.of_fields (by rw [same.memory]) (by rw [same.memory])⟩,
    tracked.covered.of_setup same, ?_, fun some => ?_⟩
  · rw [logged_congr (by rw [same.memory]) same.vqs]
    exact tracked.due.sync proper traced
  · simp only [same.memory, same.logEnabled]
    exact active some

theorem Tracked.transact {new : MemoryMap env isRam} {input : CommitInput}
    (allowed : Tracking host (.transact new input))
    (taken : transact new input host = .ok next) : Tracked next := by
  have step : logStep host (.transact new input) = .ok next := taken
  have covered : Covered next.dev := tracked.covered.step step
  obtain ⟨memory, after, update, committed, rfl⟩ := transact_eq taken
  obtain ⟨mask, held⟩ := tracked.held
  have newHeld := held.update update
  have started := (updateTable_touched update).started
  have logged : Logged { host.dev with memory } = LoggedAfter host new := by
    funext addr
    rw [Logged, LoggedAfter, held.tabled_update update]
  have due : Due new (Logged { host.dev with memory }) { host.dev with memory } :=
    fun mark member => ⟨(tracked.due mark member).1, logged ▸ (allowed mark member).1⟩
  have active (some : host.dev.pending ≠ []) :
      memory.started = true ∧ host.dev.logEnabled = true := by
    rw [started]
    exact tracked.active some
  rcases vhostCommit_cases committed with ⟨rfl, -⟩ | ⟨off, rfl⟩ | ⟨-, recommitted⟩
  · exact ⟨⟨_, newHeld⟩, covered, due, active⟩
  · exact ⟨⟨_, newHeld.of_fields rfl rfl⟩, covered, .empty (tracked.pending_of_off off),
      fun some => absurd (tracked.pending_of_off off) some⟩
  have memHeld : Held new (nextMask host.map new mask) after.memory :=
    newHeld.of_fields (by rw [recommitted.memory]) (by rw [recommitted.memory])
  rcases recommitted.pages with ⟨words, pending⟩ | ⟨visits, table, visitsResult, pending⟩
  · refine ⟨⟨_, memHeld⟩, covered, ?_, fun some => ?_⟩
    · rw [logged_congr (by rw [recommitted.memory]) recommitted.vqs]
      intro mark member
      rw [pending] at member
      rw [words]
      exact due mark member
    · rw [pending] at some
      simp only [recommitted.memory, recommitted.logEnabled]
      exact active some
  · have sentDue : Due new (Logged { host.dev with memory, table })
        { host.dev with memory, table } := due
    have empty : after.pending = [] := pending.trans <|
      sentDue.resize newHeld active tracked.logSize_ne_zero
        (fun mark member => (allowed mark member).2) visitsResult
    exact ⟨⟨_, memHeld⟩, covered, .empty empty, fun some => absurd empty some⟩

/-- Stopping the device reads the whole log. -/
theorem Tracked.stop {getVringBase : Nat → Bool} {arrivals : List (List UInt64)}
    (allowed : Tracking host (.stop getVringBase arrivals))
    (covered : Covered after) (stopped : vhostDevStop getVringBase arrivals host.dev = .ok after) :
    Tracked { host with dev := after } := by
  obtain ⟨_, -, result⟩ := bind_ok_iff.mp stopped
  obtain ⟨visits, visitsResult, result⟩ := bind_ok_iff.mp result
  cases result
  have same := sync_setup host.dev visits arrivals
  obtain ⟨mask, held⟩ := tracked.held
  have mem := congrArg VhostMemoryDev.mem same.memory
  have sections := congrArg VhostMemoryDev.memSections same.memory
  refine tracked.settled covered mem sections ?_
  refine tracked.due.sync_all held tracked.active (fun _ _ addr _ => ⟨?_, ?_⟩) allowed
    visitsResult
  · rw [UInt64.le_iff_toNat_le]
    exact Nat.zero_le _
  · rw [UInt64.le_iff_toNat_le]
    exact Nat.le_of_lt_succ addr.toNat_lt

/-- Logging is only turned on while it is tracked, so nothing was pending before. -/
theorem Tracked.migrationLog {enable : Bool} {input : MigrationInput}
    (allowed : Tracking host (.migrationLog enable input)) (covered : Covered after)
    (migrated : vhostMigrationLog enable input host.dev = .ok after) :
    Tracked { host with dev := after } := by
  rcases vhostMigrationLog_cases migrated with rfl | ⟨stopped, rfl⟩ | ⟨-, off, -⟩ |
    ⟨-, off, -, resized, resizedResult, rfl | rfl⟩
  · exact tracked
  · exact tracked.settled covered rfl rfl (tracked.pending_of_stopped stopped)
  · rw [off] at allowed
    cases allowed
  all_goals
    have spec := vhostDevLogResize_resized resizedResult
    obtain ⟨visits, visitsResult, pending⟩ := spec.pages
    obtain ⟨mask, held⟩ := tracked.held
    have before := tracked.pending_of_off off
    refine tracked.settled covered (congrArg _ spec.memory) (congrArg _ spec.memory)
      (pending.trans ?_)
    exact tracked.due.resize held tracked.active (fun some => absurd before some)
      (fun mark member => by rw [before] at member; cases member) visitsResult

theorem Tracked.step (allowed : Tracking host action)
    (taken : logStep host action = .ok next) : Tracked next := by
  have covered : Covered next.dev := tracked.covered.step taken
  cases action with
  | mark gpa =>
    cases taken
    have due : Due host.map (Logged host.dev) (host.dev.mark gpa) :=
      tracked.due.marked fun mark isMark => (allowed mark isMark).2.2
    refine ⟨tracked.held, covered, due, fun some => ?_⟩
    by_cases before : host.dev.pending = []
    · obtain ⟨mark, member⟩ := List.exists_mem_of_ne_nil _ some
      rcases List.mem_append.mp member with old | new
      · rw [before] at old
        cases old
      · exact ⟨(allowed mark new).1, (allowed mark new).2.1⟩
    · exact tracked.active before
  | logSync sec arrivals =>
    obtain ⟨after, synced, rfl⟩ := map_host_ok taken
    obtain ⟨visits, visitsResult, result⟩ := bind_ok_iff.mp synced
    cases result
    refine tracked.synced (bitmapVisits_proper allowed.1 visitsResult)
      (fun gpa member mark isMark => (allowed.2 gpa member mark isMark).2.2) fun some => ?_
    by_contra inactive
    rw [vhostSyncDirtyBitmap, if_pos] at visitsResult
    · cases visitsResult
      exact inactive (tracked.active some)
    · simpa [imp_iff_not_or, or_comm] using inactive
  | transact new input => exact tracked.transact allowed taken
  | start input =>
    obtain ⟨after, startResult, rfl⟩ := map_host_ok taken
    have done := vhostDevStart_done startResult
    refine tracked.settled covered (by rw [done.memory]) (by rw [done.memory]) ?_
    rw [done.pending]
    exact tracked.pending_of_stopped allowed
  | stop getVringBase arrivals =>
    obtain ⟨after, stopped, rfl⟩ := map_host_ok taken
    exact tracked.stop allowed covered stopped
  | migrationLog enable input =>
    obtain ⟨after, migrated, rfl⟩ := map_host_ok taken
    exact tracked.migrationLog allowed covered migrated

end

def pluggedRegions (mr : Nat) : MemoryRegion :=
  if mr = 0 then { bootRegions 0 with subregions := [1, 2] }
  else if mr = 2 then { bootRegions 2 with parent := some 0, addr := 0x80000 }
  else bootRegions mr

def pluggedMap : MemoryMap bootEnv bootRam :=
  linkedMap pluggedRegions
    [⟨1, 0, ⟨0x1000, 0x1000⟩, 0, true, false⟩, ⟨2, 0, ⟨0x80000, 0x1000⟩, 0, true, false⟩]
    (by decide +kernel) fun mr => by
      unfold pluggedRegions
      split_ifs <;> subst_vars <;> exact ⟨rfl, rfl⟩

def unpluggedRegions (mr : Nat) : MemoryRegion :=
  if mr = 0 then { bootRegions 0 with subregions := [] } else bootRegions mr

def unpluggedMap : MemoryMap bootEnv bootRam :=
  linkedMap unpluggedRegions [] (by decide +kernel) fun mr => by
    unfold unpluggedRegions
    split_ifs <;> subst_vars <;> exact ⟨rfl, rfl⟩

def goodCommit : CommitInput := ⟨true, true, ⟨0x9000, true⟩, ⟨0x9000, true⟩⟩

def pluggedHost : Host bootEnv bootRam where
  map := pluggedMap
  dev :=
    { loggedHost.dev with
      memory := ⟨[⟨0x1000, 0x1000, 0x10000000⟩, ⟨0x80000, 0x1000, 0x20000000⟩],
        [⟨1, 0, 0, 0x1000, 0x1000, false⟩, ⟨2, 0, 0, 0x1000, 0x80000, false⟩], 0x80000, 0x80fff,
        false, true⟩
      log := 0x9000
      logSize := 515
      logRoom := 4120
      logBase := some 0x9000
      table := some [⟨0x1000, 0x1000, 0x10000000⟩, ⟨0x80000, 0x1000, 0x20000000⟩] }

/-- Where the section that has the address is the only one in its chunk, its mark is
traced. -/
theorem traced_of_alone (member : sec ∈ map.sections) (ram : isRam sec.mr = true)
    (inside : covers sec mark.gpa = true) (isLogged : logged mark.gpa)
    (same : sec.mr = mark.mr ∧ offsetIn sec mark.gpa = mark.offset)
    (alone : ∀ other ∈ map.sections, other = sec ∨ ∀ addr, covers other addr = true →
      addr / vhostLogChunk ≠ mark.gpa / vhostLogChunk) : Traced map logged mark := by
  refine ⟨⟨sec, member, ram, mark.gpa, rfl, inside, isLogged⟩, fun other inMap scanned => ?_⟩
  rcases alone other inMap with rfl | elsewhere
  · exact same
  · obtain ⟨addr, chunk, covered, -⟩ := scanned
    exact absurd chunk (elsewhere addr covered)

theorem pages_apart (far : sec.offsetWithinAddressSpace.toNat / 0x40000 ≠ gpa.toNat / 0x40000)
    (aligned : sec.offsetWithinAddressSpace.toNat % 0x1000 = 0) (size : sec.size = 0x1000)
    (inside : covers sec addr = true) : addr / vhostLogChunk ≠ gpa / vhostLogChunk := by
  intro same
  have chunks := congrArg UInt64.toNat same
  have bound := addr.toNat_lt
  rw [chunk_toNat, chunk_toNat] at chunks
  simp only [covers, size, Bool.and_eq_true, decide_eq_true_eq, UInt64.le_iff_toNat_le,
    UInt64.toNat_sub] at inside
  omega

/-- The backend marks only while it is given a log, syncs are for sections of the view, and
logging stays on. -/
def Migrating (host : Host env isRam) : LogAction env isRam → Prop
  | .mark _ => host.dev.memory.started = true ∧ host.dev.logEnabled = true
  | .logSync sec arrivals => sec ∈ host.map.sections ∧ arrivals.flatten = []
  | .transact _ _ => True
  | .start _ => host.dev.memory.started = false
  | .stop _ arrivals => arrivals.flatten = []
  | .migrationLog enable _ => enable = true

end VhostUser.Qemu.VhostLog
