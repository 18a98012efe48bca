import VhostUser.Lib.SlotTable
import VhostUser.Server.Readiness

/-!
Contract: which table `_set_mem_table` leaves behind, for every message.

The loop runs over the announced regions. It stores a region at its place in the message and counts
it at its place among the regions with a descriptor, and it compares neither the announced number
with the size of the arrays nor the result of `mmap` with `MAP_FAILED`.

Owns: the outcome of the loop for every message, and for which messages the active entries are the
regions of the message that came with a descriptor.

Does not own: translation through the table (`State`), what becomes of the ring pointers
(`TableUpdate`).
-/

namespace VhostUser.Server

open VhostUser.Lib VhostUser.Wire

def usable (msg : VHostUserLocalMsg) (idx : Fin memoryMaxNregions) : Bool :=
  idx.val < memoryNregions.get msg.request && idx.val < msg.fdNum && 0 < msg.fds idx

/-- An assertion stops the loop: `fds` holds a number where no descriptor was received. -/
def Unreceived (msg : VHostUserLocalMsg) : Prop :=
  ∃ idx : Fin memoryMaxNregions, idx.val < memoryNregions.get msg.request ∧ 0 < msg.fds idx ∧
    msg.fdNum ≤ idx.val

/-- `_set_mem_table` rejects the message at an assertion, or the active entries are the regions
with a usable descriptor, in order, each at the address that `mmap` returned. -/
def InstallsTable (msg : VHostUserLocalMsg) (mmap : Mmap) (server : VHostUser) : Prop :=
  (∃ after, (setMemTable msg mmap).run server = .error .assertion after) ∨
    ∃ after, (setMemTable msg mmap).run server = .ok 0 after ∧
      after.memory.active.map some =
        (slotsWhere (usable msg)).map fun idx => (mmap idx).map (msgRegion msg idx)

section Loop

variable {msg : VHostUserLocalMsg} {mmap : Mmap} {server : VHostUser}

theorem mem_announced {idx : Fin memoryMaxNregions} {count : Nat} :
    idx ∈ (List.finRange memoryMaxNregions).take count ↔ idx.val < count := by
  rw [take_finRange, mem_slotsWhere, decide_eq_true_eq]

theorem announced_filter (received : ¬ Unreceived msg) :
    (((List.finRange memoryMaxNregions).take (memoryNregions.get msg.request)).filter
      fun idx => decide (0 < msg.fds idx)) = slotsWhere (usable msg) := by
  rw [take_finRange, slotsWhere, slotsWhere, List.filter_filter]
  apply List.filter_congr
  intro idx _
  rw [Bool.eq_iff_iff]
  simp only [usable, Bool.and_eq_true, decide_eq_true_eq]
  constructor
  · rintro ⟨number, below⟩
    refine ⟨⟨below, ?_⟩, number⟩
    by_contra beyond
    exact received ⟨idx, below, number, Nat.not_lt.mp beyond⟩
  · rintro ⟨⟨below, -⟩, number⟩
    exact ⟨number, below⟩

theorem setMemTable_cases (msg : VHostUserLocalMsg) (mmap : Mmap) (server : VHostUser) :
    let after := { server with
      memory := installed msg mmap { server.memory with nregions := 0 } (slotsWhere (usable msg)) }
    (Unreceived msg ∧ ∃ after, (setMemTable msg mmap).run server = .error .assertion after) ∨
      (¬ Unreceived msg ∧ (setMemTable msg mmap).run server =
        if memoryMaxNregions < memoryNregions.get msg.request then .error .outOfBounds after
        else .ok 0 after) := by
  intro after
  rcases @setMemRegions_cases msg mmap ((List.finRange memoryMaxNregions).take
      (memoryNregions.get msg.request)) (server.setNregions 0) with
    ⟨⟨idx, member, number, beyond⟩, last, failed⟩ | ⟨received, taken⟩
  · refine .inl ⟨⟨idx, mem_announced.mp member, number, beyond⟩, last, ?_⟩
    simp only [setMemTable, EStateM.run_bind, EStateM.run_modify, failed]
  have whole : ¬ Unreceived msg := by
    rintro ⟨idx, below, number, beyond⟩
    exact Nat.not_lt.mpr beyond (received idx (mem_announced.mpr below) number)
  refine .inr ⟨whole, ?_⟩
  rw [announced_filter whole] at taken
  simp only [setMemTable, EStateM.run_bind, EStateM.run_modify, taken]
  split
  · rfl
  · rfl

end Loop

section Table

variable {msg : VHostUserLocalMsg} {mmap : Mmap}

/-- The entries up to the number of usable regions, whether the message wrote them or not. -/
theorem installed_usable_active (memory : VHostUserLocalMemory) :
    (installed msg mmap { memory with nregions := 0 } (slotsWhere (usable msg))).active =
      ((List.finRange memoryMaxNregions).take (slotsWhere (usable msg)).length).map fun idx =>
        if usable msg idx = true then msgRegion msg idx (initShmFromFd (mmap idx))
        else memory.regions idx := by
  have bounded : (slotsWhere (usable msg)).length ≤ memoryMaxNregions := by
    have filtered := List.length_filter_le (usable msg) (List.finRange memoryMaxNregions)
    rwa [List.length_finRange] at filtered
  have counted : (UInt32.ofNat (slotsWhere (usable msg)).length).toNat =
      (slotsWhere (usable msg)).length := by
    rw [UInt32.toNat_ofNat']
    exact Nat.mod_eq_of_lt (lt_of_le_of_lt bounded (by decide))
  unfold VHostUserLocalMemory.active installed
  simp only [UInt32.zero_add, counted, mem_slotsWhere]

/-- The conditions under which the message leads to a table of its own regions. -/
def TableFits (msg : VHostUserLocalMsg) (mmap : Mmap) : Prop :=
  Unreceived msg ∨
    (memoryNregions.get msg.request ≤ memoryMaxNregions ∧ GapFree (usable msg) ∧
      ∀ idx, usable msg idx = true → (mmap idx).isSome = true)

theorem TableFits.installs (fits : TableFits msg mmap) (server : VHostUser) :
    InstallsTable msg mmap server := by
  rcases setMemTable_cases msg mmap server with ⟨-, failed⟩ | ⟨received, ran⟩
  · exact .inl failed
  obtain ⟨small, gapFree, placed⟩ := fits.resolve_left received
  rw [if_neg (Nat.not_lt.mpr small)] at ran
  refine .inr ⟨_, ran, ?_⟩
  rw [installed_usable_active, gapFree.take_eq, List.map_map]
  apply List.map_congr_left
  intro idx member
  rw [mem_slotsWhere] at member
  obtain ⟨addr, answered⟩ := Option.isSome_iff_exists.mp (placed idx member)
  simp [member, answered, initShmFromFd]

def staleServer (region : VHostUserLocalMemoryRegion) : VHostUser :=
  { VHostUser.fresh GuestMem.unmapped with memory := ⟨0, fun _ => region⟩ }

theorem fits_of_installs (installs : ∀ server, InstallsTable msg mmap server)
    (received : ¬ Unreceived msg) (small : memoryNregions.get msg.request ≤ memoryMaxNregions) :
    GapFree (usable msg) ∧ ∀ idx, usable msg idx = true → (mmap idx).isSome = true := by
  have tables : ∀ server : VHostUser,
      (((List.finRange memoryMaxNregions).take (slotsWhere (usable msg)).length).map fun idx =>
        if usable msg idx = true then msgRegion msg idx (initShmFromFd (mmap idx))
        else server.memory.regions idx).map some =
        (slotsWhere (usable msg)).map fun idx => (mmap idx).map (msgRegion msg idx) := by
    intro server
    have ran := ((setMemTable_cases msg mmap server).resolve_left fun failed =>
      received failed.1).2
    rw [if_neg (Nat.not_lt.mpr small)] at ran
    rcases installs server with ⟨after, failed⟩ | ⟨after, returned, listed⟩
    · rw [ran] at failed
      cases failed
    · rw [ran] at returned
      cases returned
      rwa [installed_usable_active] at listed
  constructor
  · apply gapFree_of_first
    intro slot below
    by_contra skipped
    -- the entry at a skipped place is whatever the table held there before
    have kept : ∀ region, (some (some region) : Option (Option VHostUserLocalMemoryRegion)) =
        ((slotsWhere (usable msg)).map fun idx =>
          (mmap idx).map (msgRegion msg idx))[slot.val]? := by
      intro region
      rw [← tables (staleServer region)]
      have place : ((List.finRange memoryMaxNregions).take
          (slotsWhere (usable msg)).length)[slot.val]? = some slot := by
        rw [List.getElem?_take_of_lt below]
        simp
      simp only [List.getElem?_map, place, Option.map_some, skipped, if_false, staleServer]
    have same := (kept ⟨0, 0, 0, 0⟩).trans (kept ⟨1, 0, 0, 0⟩).symm
    exact absurd same (by decide)
  · intro idx chosen
    have listed : (mmap idx).map (msgRegion msg idx) ∈
        (slotsWhere (usable msg)).map fun idx => (mmap idx).map (msgRegion msg idx) :=
      List.mem_map_of_mem (mem_slotsWhere.mpr chosen)
    rw [← tables (staleServer ⟨0, 0, 0, 0⟩)] at listed
    obtain ⟨region, -, answered⟩ := List.mem_map.mp listed
    have placed : ((mmap idx).map (msgRegion msg idx)).isSome = true := by
      rw [← answered]
      rfl
    rwa [Option.isSome_map] at placed

end Table

/-- `_set_mem_table` rejects a message or installs its regions, whatever table was there, exactly
when an assertion stops it or at most eight regions are announced, those without a descriptor come
last, and every `mmap` succeeds. -/
theorem setMemTable_installs_iff (msg : VHostUserLocalMsg) (mmap : Mmap) :
    (∀ server, InstallsTable msg mmap server) ↔ TableFits msg mmap := by
  constructor
  · intro installs
    by_cases unreceived : Unreceived msg
    · exact .inl unreceived
    have small : memoryNregions.get msg.request ≤ memoryMaxNregions := by
      by_contra large
      have overrun := ((setMemTable_cases msg mmap (staleServer ⟨0, 0, 0, 0⟩)).resolve_left
        fun failed => unreceived failed.1).2
      rw [if_pos (Nat.not_le.mp large)] at overrun
      rcases installs (staleServer ⟨0, 0, 0, 0⟩) with ⟨other, failed⟩ | ⟨other, returned, -⟩
      · rw [overrun] at failed
        cases failed
      · rw [overrun] at returned
        cases returned
    exact .inr ⟨small, fits_of_installs installs unreceived small⟩
  · intro fits server
    exact fits.installs server

def twoRegions (fds : List Int) : VHostUserLocalMsg :=
  rawMsg .setMemTable [(memoryNregions, 2), (regionUserspaceAddr 0, 0x10000),
    (regionMemorySize 0, 0x10000), (regionUserspaceAddr 1, 0x80000), (regionMemorySize 1, 0x10000)]
    fds

def nineMsg : VHostUserLocalMsg :=
  rawMsg .setMemTable [(memoryNregions, 9)] [5, 6, 7, 8, 9, 10, 11, 12]

def tableOutcome (msg : VHostUserLocalMsg) (mmap : Mmap) (server : VHostUser) :
    Except Fault (List VHostUserLocalMemoryRegion) :=
  match (setMemTable msg mmap).run server with
  | .ok _ after => .ok after.memory.active
  | .error fault _ => .error fault

theorem InstallsTable.outcome {msg : VHostUserLocalMsg} {mmap : Mmap} {server : VHostUser}
    (installs : InstallsTable msg mmap server) :
    tableOutcome msg mmap server = .error .assertion ∨
      ∃ entries, tableOutcome msg mmap server = .ok entries ∧ entries.map some =
        (slotsWhere (usable msg)).map fun idx => (mmap idx).map (msgRegion msg idx) := by
  rcases installs with ⟨after, failed⟩ | ⟨after, returned, listed⟩
  · exact .inl (by rw [tableOutcome, failed])
  · exact .inr ⟨_, by rw [tableOutcome, returned], listed⟩

/-- With the first of two regions skipped, the old entry at its place stays active and the new
region does not become active; a failed `mmap` is entered as address zero; nine regions lead past
the arrays. -/
theorem setMemTable_stale_entry :
    ¬ InstallsTable (twoRegions [0, 5]) (fun _ => some 0x700000) (staleServer ⟨7, 7, 7, 7⟩) ∧
      ¬ InstallsTable (twoRegions [5, 6]) (fun _ => none) (staleServer ⟨7, 7, 7, 7⟩) ∧
      ¬ InstallsTable nineMsg (fun _ => some 0x700000) (staleServer ⟨7, 7, 7, 7⟩) := by
  have skipped : tableOutcome (twoRegions [0, 5]) (fun _ => some 0x700000)
      (staleServer ⟨7, 7, 7, 7⟩) = .ok [⟨7, 7, 7, 7⟩] := by decide +kernel
  have unplaced : tableOutcome (twoRegions [5, 6]) (fun _ => none) (staleServer ⟨7, 7, 7, 7⟩) =
      .ok [⟨0, 0x10000, 0x10000, 0⟩, ⟨0, 0x10000, 0x80000, 0⟩] := by decide +kernel
  have overrun : tableOutcome nineMsg (fun _ => some 0x700000) (staleServer ⟨7, 7, 7, 7⟩) =
      .error .outOfBounds := by decide +kernel
  refine ⟨fun installs => ?_, fun installs => ?_, fun installs => ?_⟩
  all_goals have outcome := installs.outcome
  · rw [skipped] at outcome
    rcases outcome with ⟨⟨⟩⟩ | ⟨_, ⟨⟩, listed⟩
    exact absurd listed (by decide +kernel)
  · rw [unplaced] at outcome
    rcases outcome with ⟨⟨⟩⟩ | ⟨_, ⟨⟩, listed⟩
    exact absurd listed (by decide +kernel)
  · rw [overrun] at outcome
    rcases outcome with ⟨⟨⟩⟩ | ⟨_, ⟨⟩, -⟩

end VhostUser.Server
