import VhostUser.Qemu.MemoryAccess

/-!
Contract: the dirty flags that device writes leave (`exec.c`: `invalidate_and_set_dirty`,
as `address_space_rw` and `address_space_unmap` call it; `memory-internal.h`).

`ram_list.phys_dirty` is a function of the page. `tb_invalidate_phys_page_range` is a
parameter that changes no flag but `CODE_DIRTY_FLAG`.

Owns: after which writes every page written has its migration flag.
Does not own: where the bytes go (`MemoryAccess`).
-/

namespace VhostUser.Qemu

open VhostUser.Lib
open Virtio (GuestSpace)

/-! ### Flags -/

def codeDirtyFlag : UInt8 := 0x02

def migrationDirtyFlag : UInt8 := 0x08

abbrev PhysDirty := Nat → UInt8

def Migrates (dirty : PhysDirty) (page : Nat) : Prop := dirty page &&& migrationDirtyFlag ≠ 0

instance (dirty : PhysDirty) (page : Nat) : Decidable (Migrates dirty page) :=
  inferInstanceAs (Decidable (_ ≠ _))

def cpuPhysicalMemoryIsDirty (dirty : PhysDirty) (addr : UInt64) : Bool :=
  dirty (pageOf addr) = 0xff

def cpuPhysicalMemorySetDirtyFlags (dirty : PhysDirty) (addr : UInt64) (flags : UInt8) :
    PhysDirty :=
  fun page => if page = pageOf addr then dirty page ||| flags else dirty page

structure TbInvalidate where
  run : PhysDirty → UInt64 → UInt64 → PhysDirty
  code : ∀ dirty start stop page, run dirty start stop page &&& ~~~codeDirtyFlag =
    dirty page &&& ~~~codeDirtyFlag

def invalidateAndSetDirty (tb : TbInvalidate) (dirty : PhysDirty) (addr length : UInt64) :
    PhysDirty :=
  if !cpuPhysicalMemoryIsDirty dirty addr then
    cpuPhysicalMemorySetDirtyFlags (tb.run dirty addr (addr + length)) addr
      (0xff &&& ~~~codeDirtyFlag)
  else dirty

section Flags

variable {tb : TbInvalidate} {dirty : PhysDirty} {addr length : UInt64} {page : Nat}

theorem migrates_run {start stop : UInt64} :
    Migrates (tb.run dirty start stop) page ↔ Migrates dirty page := by
  have mask : migrationDirtyFlag = ~~~codeDirtyFlag &&& migrationDirtyFlag := by decide
  rw [Migrates, Migrates, mask, ← UInt8.and_assoc, ← UInt8.and_assoc, tb.code]

theorem setFlags_migrates (flags : UInt8) :
    (flags ||| (0xff &&& ~~~codeDirtyFlag)) &&& migrationDirtyFlag ≠ 0 := by
  intro zero
  have bit := congrArg (fun word : UInt8 => word.toBitVec.getLsbD 3) zero
  simp [codeDirtyFlag, migrationDirtyFlag] at bit

/-- Only the first page of the range gets the flag. -/
theorem migrates_invalidate : Migrates (invalidateAndSetDirty tb dirty addr length) page ↔
    Migrates dirty page ∨ page = pageOf addr := by
  rw [invalidateAndSetDirty]
  split
  next =>
    by_cases here : page = pageOf addr
    · refine iff_of_true ?_ (.inr here)
      rw [Migrates, cpuPhysicalMemorySetDirtyFlags, if_pos here]
      exact setFlags_migrates _
    · rw [Migrates, cpuPhysicalMemorySetDirtyFlags, if_neg here, ← Migrates, migrates_run]
      exact (or_iff_left here).symm
  next isDirty =>
    refine (or_iff_left_of_imp ?_).symm
    rintro rfl
    rw [Bool.not_eq_true, Bool.not_eq_false', cpuPhysicalMemoryIsDirty, decide_eq_true_eq]
      at isDirty
    rw [Migrates, isDirty]
    decide

end Flags

/-! ### Writes -/

abbrev RamRange := UInt64 × Nat

def Transfer.ramRange? : Transfer → Option RamRange
  | .copy ramAddr _ len => some (ramAddr, len)
  | .io _ _ _ => none

/-- `qemu_ram_addr_from_host`. The block used last, which is tried first there, is the same one. -/
def ramAddrFromHost (blocks : List RAMBlock) (host : UInt64) : Option UInt64 :=
  (blocks.find? fun block => block.host ≠ 0 && host - block.host < block.length).map fun block =>
    block.offset + (host - block.host)

def unmapLoop (tb : TbInvalidate) : Nat → PhysDirty → UInt64 → UInt64 → Option PhysDirty
  | 0, dirty, _, accessLen => if accessLen = 0 then some dirty else none
  | turns + 1, dirty, addr1, accessLen =>
    if accessLen = 0 then some dirty
    else
      let l := if accessLen < targetPageSize then accessLen else targetPageSize
      unmapLoop tb turns (invalidateAndSetDirty tb dirty addr1 l) (addr1 + l) (accessLen - l)

/-- A write of a device: `address_space_rw`, or `address_space_unmap` with `is_write` of a buffer
that is not the bounce buffer. -/
inductive DeviceWrite where
  | rw (addr : UInt64) (len : Nat)
  | unmap (buffer accessLen : UInt64)

namespace DeviceWrite

def run (env : AccessEnv) (tb : TbInvalidate) (turns space : Nat) (dirty : PhysDirty) :
    DeviceWrite → Except DispatchError (List RamRange × PhysDirty)
  | .rw addr len => do
      let transfers ← env.addressSpaceRw true turns space len addr len
      let ranges := transfers.filterMap Transfer.ramRange?
      return (ranges, ranges.foldl (fun dirty range =>
        invalidateAndSetDirty tb dirty range.1 (.ofNat range.2)) dirty)
  | .unmap buffer accessLen =>
    match ramAddrFromHost env.guest.ram.blocks buffer with
    | none => .error .assertion
    | some addr1 =>
      match unmapLoop tb accessLen.toNat dirty addr1 accessLen with
      | none => .error .unfinished
      | some dirty => .ok ([(addr1, accessLen.toNat)], dirty)

def Sound (env : AccessEnv) : DeviceWrite → Prop
  | .rw _ len => len < 2 ^ 31
  | .unmap buffer accessLen => ∃ start, ramAddrFromHost env.guest.ram.blocks buffer = some start ∧
      start.toNat + accessLen.toNat ≤ 2 ^ 64

/-- The pages of a range that a write marks: the first one, and one for each step of a page. -/
def Marks (range : RamRange) (page : Nat) : DeviceWrite → Prop
  | .rw _ _ => page = pageOf range.1
  | .unmap _ _ => page < pageOf range.1 + (range.2 + 4095) / 4096

end DeviceWrite

/-- Every page that overlaps a byte of the ranges has the property. -/
def EveryPage (ranges : List RamRange) (holds : RamRange → Nat → Prop) : Prop :=
  ∀ range ∈ ranges, ∀ i < range.2, holds range (pageOf (range.1 + .ofNat i))

/-! ### What a write marks -/

theorem migrates_foldl (tb : TbInvalidate) (page : Nat) : ∀ (ranges : List RamRange)
    (dirty : PhysDirty), Migrates (ranges.foldl (fun dirty range =>
      invalidateAndSetDirty tb dirty range.1 (.ofNat range.2)) dirty) page ↔
      Migrates dirty page ∨ ∃ range ∈ ranges, page = pageOf range.1
  | [], dirty => by simp
  | range :: ranges, dirty => by
    rw [List.foldl_cons, migrates_foldl tb page ranges, migrates_invalidate, or_assoc]
    simp only [List.mem_cons, exists_eq_or_imp]

/-- `address_space_rw` returns, and copies to one range of RAM at most: a copy takes all that is
left. -/
theorem AccessEnv.Mapped.ramRanges {env : AccessEnv} {space : Nat} (mapped : env.Mapped space)
    (turns : Nat) {isWrite : Bool} : ∀ {left count : Nat} {addr : UInt64}, count ≤ left →
    count < 2 ^ 31 → ∃ transfers,
      env.addressSpaceRw isWrite (turns + 1) space left addr count = .ok transfers ∧
        (transfers.filterMap Transfer.ramRange?).length ≤ 1
  | 0, 0, _, _, _ => ⟨[], rfl, by simp⟩
  | left + 1, count, addr, enough, small => by
    by_cases done : count = 0
    · subst done
      exact ⟨[], rfl, by simp⟩
    rcases resolved : env.resolve addr with ⟨mr, offset⟩
    rcases mapped.transfer_cases isWrite (Nat.pos_of_ne_zero done) small resolved with
      ⟨direct, block, found, moved⟩ | ⟨device, size, some, most, moved⟩
    · obtain ⟨less, rfl⟩ := Nat.exists_eq_succ_of_ne_zero done
      exact ⟨_, mapped.addressSpaceRw_direct (by rw [resolved]; exact direct)
        (by rw [resolved]; exact found) (by omega), by simp [Transfer.ramRange?]⟩
    obtain ⟨rest, result, single⟩ := @ramRanges env space mapped turns isWrite left
      (count - size) (addr + .ofNat size) (by omega) (by omega)
    refine ⟨.io mr offset size :: rest, ?_, single⟩
    rw [AccessEnv.addressSpaceRw, if_neg done, mapped.translate, resolved]
    simp only [bind, Except.bind, moved, Transfer.len, result]
    rfl

/-- `address_space_unmap` marks a page for every step it takes. -/
theorem unmapLoop_migrates (tb : TbInvalidate) : ∀ {turns : Nat} {dirty : PhysDirty}
    {addr1 accessLen : UInt64}, accessLen.toNat ≤ turns →
    addr1.toNat + accessLen.toNat ≤ 2 ^ 64 →
    ∃ after, unmapLoop tb turns dirty addr1 accessLen = some after ∧
      ∀ page, Migrates after page ↔ Migrates dirty page ∨
        pageOf addr1 ≤ page ∧ page < pageOf addr1 + (accessLen.toNat + 4095) / 4096
  | 0, dirty, addr1, accessLen, enough, room => by
    obtain rfl : accessLen = 0 := UInt64.toNat_inj.mp (by rw [UInt64.toNat_zero]; omega)
    refine ⟨dirty, if_pos rfl, fun page => (or_iff_left ?_).symm⟩
    rw [UInt64.toNat_zero]
    omega
  | turns + 1, dirty, addr1, accessLen, enough, room => by
    rw [unmapLoop]
    by_cases done : accessLen = 0
    · subst done
      refine ⟨dirty, if_pos rfl, fun page => (or_iff_left ?_).symm⟩
      rw [UInt64.toNat_zero]
      omega
    rw [if_neg done]
    have positive : 0 < accessLen.toNat := UInt64.pos_iff_ne_zero.mpr done
    have page_eq : targetPageSize.toNat = 4096 := rfl
    generalize step : (if accessLen < targetPageSize then accessLen else targetPageSize) = l
    have l_eq : l.toNat = min accessLen.toNat 4096 := by
      subst step
      split
      next short =>
        rw [UInt64.lt_iff_toNat_lt] at short
        omega
      next long =>
        rw [UInt64.lt_iff_toNat_lt] at long
        omega
    have rest_eq : (accessLen - l).toNat = accessLen.toNat - l.toNat :=
      UInt64.toNat_sub_of_le _ _ (UInt64.le_iff_toNat_le.mpr (by omega))
    have next_eq : (addr1 + l).toNat = (addr1.toNat + l.toNat) % 2 ^ 64 := UInt64.toNat_add _ _
    obtain ⟨after, result, marked⟩ := unmapLoop_migrates tb
      (show (accessLen - l).toNat ≤ turns by omega)
      (show (addr1 + l).toNat + (accessLen - l).toNat ≤ 2 ^ 64 by omega)
    refine ⟨after, result, fun page => ?_⟩
    rw [marked, migrates_invalidate, or_assoc]
    refine or_congr_right ?_
    rw [pageOf, pageOf, rest_eq, next_eq]
    omega

namespace DeviceWrite

variable {env : AccessEnv} {tb : TbInvalidate} {space : Nat}

/-- A page keeps its migration flag, or gets it if the write marks it: the first page of a range,
or those at whole pages from its start. -/
theorem migrates_iff (mapped : env.Mapped space) (turns : Nat) (dirty : PhysDirty)
    {write : DeviceWrite} (sound : write.Sound env) :
    ∃ ranges after, write.run env tb (turns + 1) space dirty = .ok (ranges, after) ∧
      (EveryPage ranges (fun _ page => Migrates after page) ↔
        EveryPage ranges fun range page => Migrates dirty page ∨ write.Marks range page) := by
  cases write with
  | rw addr len =>
    obtain ⟨transfers, result, single⟩ :
        ∃ transfers, env.addressSpaceRw true (turns + 1) space len addr len = .ok transfers ∧ _ :=
      mapped.ramRanges turns (le_refl len) sound
    refine ⟨_, _, by rw [run, result]; rfl, ?_⟩
    refine forall₄_congr fun range member i inRange => ?_
    dsimp only
    rw [migrates_foldl]
    refine or_congr_right ⟨?_, fun marked => ⟨range, member, marked⟩⟩
    rintro ⟨other, otherMember, marked⟩
    obtain ⟨j, small, rfl⟩ := List.getElem_of_mem otherMember
    obtain ⟨k, also, rfl⟩ := List.getElem_of_mem member
    obtain rfl : j = k := by omega
    exact marked
  | unmap buffer accessLen =>
    obtain ⟨start, found, room⟩ := sound
    obtain ⟨after, result, marked⟩ := @unmapLoop_migrates tb _ dirty _ _ le_rfl room
    refine ⟨[(start, accessLen.toNat)], after, by rw [run, found]; simp only [result], ?_⟩
    refine forall₄_congr fun range member i inRange => ?_
    dsimp only
    rw [marked]
    refine or_congr_right ?_
    rw [List.mem_singleton] at member
    subst member
    refine and_iff_right ?_
    rw [pageOf, pageOf, UInt64.toNat_add, UInt64.toNat_ofNat']
    dsimp only
    omega

end DeviceWrite

def pagesRam : RamList := ⟨[⟨0x100000, 0, 0x4000, -1⟩], by decide, by decide, by decide⟩

theorem pages_generated :
    generateMemoryTopology (fun _ => memoryRegionInitRam 0x4000 0) 1 (some 1) =
      some [⟨1, 0, ⟨0, 0x4000⟩, 0, true, false⟩] := by
  decide +kernel

def pagesEnv : AccessEnv :=
  .ofGuest (.ofTopology pagesRam (fun _ _ => 0) (fun _ _ _ => none)
    (fun _ _ => ⟨_, List.mem_singleton_self _, rfl, le_rfl⟩) pages_generated)

theorem pages_mapped : pagesEnv.Mapped 0 := AccessEnv.ofGuest_mapped (by decide +kernel)

def noCode : TbInvalidate := ⟨fun dirty _ _ => dirty, fun _ _ _ _ => rfl⟩

theorem migrates_iff_pages : pagesEnv.Mapped 0 ∧ (DeviceWrite.rw 0xff8 8).Sound pagesEnv ∧
    ∃ ranges after, (DeviceWrite.rw 0xff8 8).run pagesEnv noCode 1 0 (fun _ => 0) =
        .ok (ranges, after) ∧
      (EveryPage ranges (fun _ page => Migrates after page) ↔
        EveryPage ranges fun range page => Migrates (fun _ => 0) page ∨
          (DeviceWrite.rw 0xff8 8).Marks range page) :=
  have sound : (DeviceWrite.rw 0xff8 8).Sound pagesEnv := show (8 : Nat) < 2 ^ 31 by decide
  ⟨pages_mapped, sound, DeviceWrite.migrates_iff pages_mapped 0 (fun _ => 0) sound⟩

/-- Writes of 16 bytes over a page boundary leave the second page as it was. -/
theorem deviceWrites_miss_page : pagesEnv.Mapped 0 ∧
    ∀ write ∈ [DeviceWrite.rw 0xff8 16, .unmap 0x100ff8 16], write.Sound pagesEnv ∧
      ∃ after, write.run pagesEnv noCode 1 0 (fun _ => 0) = .ok ([(0xff8, 16)], after) ∧
        ¬ EveryPage [(0xff8, 16)] fun _ page => Migrates after page := by
  have missed : ¬ EveryPage [(0xff8, 16)] fun _ page =>
      Migrates (invalidateAndSetDirty noCode (fun _ => 0) 0xff8 16) page := by
    intro every
    have second := migrates_invalidate.mp
      (every (0xff8, 16) (List.mem_singleton_self _) 8 (by decide))
    revert second
    decide
  refine ⟨pages_mapped, fun write member => ?_⟩
  simp only [List.mem_cons, List.not_mem_nil, or_false] at member
  rcases member with rfl | rfl
  · have direct : pagesEnv.memoryAccessIsDirect true (pagesEnv.resolve 0xff8).1 = true := by
      decide +kernel
    have found : pagesEnv.guest.ramBlock (pagesEnv.ramAddrOf (pagesEnv.resolve 0xff8).1 +
        (pagesEnv.resolve 0xff8).2) = some ⟨0x100000, 0, 0x4000, -1⟩ := by decide +kernel
    have written : pagesEnv.addressSpaceRw true 1 0 16 0xff8 16 = .ok [.copy 0xff8 0x100ff8 16] :=
      (pages_mapped.addressSpaceRw_direct direct found (by decide)).trans (by decide +kernel)
    exact ⟨show (16 : Nat) < 2 ^ 31 by decide, _, by rw [DeviceWrite.run, written]; rfl, missed⟩
  · exact ⟨⟨0xff8, by decide, by decide⟩, _, rfl, missed⟩

end VhostUser.Qemu
