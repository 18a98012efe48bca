import VhostUser.Qemu.LogSize
import Mathlib.Data.List.Pairwise

/-!
Contract: which addresses the table of a vhost device has after a memory
transaction, also where dirty logging was turned on or off for RAM that stayed in
the view.

A range keeps the place in the table that it got when it was added. So the device
mirrors the view with the masks that the ranges had then (`Held`).

Does not own: the marks of the backend (`DirtyPages`).
-/

namespace VhostUser.Qemu.VhostLog

open VhostUser.Lib

/-! ### Ranges with other masks -/

def remask (mask : FlatRange → UInt8) (fr : FlatRange) : FlatRange :=
  { fr with dirtyLogMask := mask fr }

def MaskFree (mask : FlatRange → UInt8) : Prop :=
  ∀ range same, flatrangeEqual range same = true → mask range = mask same

def Change.remask (mask : FlatRange → UInt8) : Change → Change
  | .del old => .del (VhostLog.remask mask old)
  | .keep old new => .keep (VhostLog.remask mask old) (VhostLog.remask mask new)
  | .add new => .add (VhostLog.remask mask new)

section Remask

variable {env : VhostEnv} {regions other : Regions} {mask : FlatRange → UInt8}
  {dev after : VhostMemoryDev} {view : FlatView} {adding : Bool} {changes : List Change}

theorem old?_remask (change : Change) :
    (Change.remask mask change).old? = change.old?.map (remask mask) := by
  cases change <;> rfl

theorem new?_remask (change : Change) :
    (Change.remask mask change).new? = change.new?.map (remask mask) := by
  cases change <;> rfl

theorem topologyChange_remask {change : Change}
    (result : topologyChange (vhostListener env) regions 0 adding dev change = some after) :
    topologyChange (vhostListener env) regions 0 adding dev (Change.remask mask change) =
      some after := by
  cases change with
  | del old => exact result
  | add new => exact result
  | keep old new =>
    obtain rfl := topologyChange_keep result
    cases adding with
    | false => rfl
    | true =>
      rw [topologyChange, if_pos rfl] at result
      obtain ⟨noted, nop, -⟩ := Option.bind_eq_some_iff.mp result
      obtain rfl := updateRegion_ignore nop
      -- the three callbacks for a kept range are the same function
      have again : updateRegion (vhostListener env) vhostIgnore regions 0 (remask mask new)
          noted = some noted := nop
      rw [Change.remask, topologyChange, if_pos rfl]
      refine Option.bind_eq_some_iff.mpr ⟨noted, again, ?_⟩
      split
      · exact again
      split
      · exact again
      · rfl

theorem fold_remask
    (result : changes.foldlM (topologyChange (vhostListener env) regions 0 adding) dev =
      some after) :
    (changes.map (Change.remask mask)).foldlM
      (topologyChange (vhostListener env) regions 0 adding) dev = some after := by
  rw [List.foldlM_map]
  exact foldlM_follow (fun _ _ _ _ => topologyChange_remask) result

theorem filterMap_remask {part : Change → Option FlatRange}
    (commutes : ∀ change, part (Change.remask mask change) = (part change).map (remask mask)) :
    (changes.map (Change.remask mask)).filterMap part =
      (changes.filterMap part).map (remask mask) := by
  rw [List.filterMap_map, List.map_filterMap]
  exact List.filterMap_congr fun change _ => commutes change

theorem remask_separate (separate : Separate env regions view) :
    Separate env regions (view.map (remask mask)) := by
  refine ⟨fun range member => ?_, ?_⟩
  · obtain ⟨fr, inView, rfl⟩ := List.mem_map.mp member
    obtain ⟨low, nonempty, high, room⟩ := separate.fits fr inView
    exact ⟨low, nonempty, high, room⟩
  · exact List.pairwise_map.mpr (separate.apart.imp id)

end Remask

/-! ### The table under a map -/

variable {env : VhostEnv} {isRam : Nat → Bool} {old new : MemoryMap env isRam}
  {memory after : VhostMemoryDev} {mask : FlatRange → UInt8} {first second fr : FlatRange}

theorem MemoryMap.separate (map : MemoryMap env isRam) : Separate env map.regions map.view :=
  map.rendered.laid.separate map.hosted

/-- The device mirrors the view, with the masks that the ranges had when they were
added. -/
structure Held (map : MemoryMap env isRam) (mask : FlatRange → UInt8)
    (memory : VhostMemoryDev) : Prop where
  free : MaskFree mask
  holds : Holds env map.regions (map.view.map (remask mask)) memory

def KeptRange (old new : FlatView) (fr : FlatRange) : Prop :=
  ∃ range, .keep range fr ∈ flatviewDiff old new

def nextMask (old new : MemoryMap env isRam) (mask : FlatRange → UInt8) (fr : FlatRange) : UInt8 :=
  if ((flatviewDiff old.view new.view).filterMap Change.keptNew?).any (flatrangeEqual · fr) then
    mask fr
  else (new.regions fr.mr).dirtyLogMask

theorem flatrangeEqual_refl (fr : FlatRange) : flatrangeEqual fr fr = true := by
  simp [flatrangeEqual]

theorem flatrangeEqual_trans {third : FlatRange} (left : flatrangeEqual first second = true)
    (right : flatrangeEqual second third = true) : flatrangeEqual first third = true := by
  simp only [flatrangeEqual, Bool.and_eq_true, decide_eq_true_eq] at left right ⊢
  grind

theorem flatrangeEqual_symm (equal : flatrangeEqual first second = true) :
    flatrangeEqual second first = true := by
  simp only [flatrangeEqual, Bool.and_eq_true, decide_eq_true_eq] at equal ⊢
  grind

theorem nextMask_free (free : MaskFree mask) : MaskFree (nextMask old new mask) := by
  intro range same equal
  have tests (kept : FlatRange) : flatrangeEqual kept range = flatrangeEqual kept same :=
    Bool.eq_iff_iff.mpr ⟨fun found => flatrangeEqual_trans found equal,
      fun found => flatrangeEqual_trans found (flatrangeEqual_symm equal)⟩
  have region : same.mr = range.mr := by rw [flatrangeEqual_iff.mp equal]
  simp only [nextMask, tests, free range same equal, region]

theorem nextMask_kept (kept : KeptRange old.view new.view fr) :
    nextMask old new mask fr = mask fr := by
  rw [nextMask, if_pos]
  exact List.any_eq_true.mpr ⟨fr, Change.mem_keptNew.mpr kept, flatrangeEqual_refl fr⟩

theorem nextMask_added (added : .add fr ∈ flatviewDiff old.view new.view) :
    nextMask old new mask fr = (new.regions fr.mr).dirtyLogMask := by
  refine if_neg fun found => ?_
  obtain ⟨same, inKept, equal⟩ := List.any_eq_true.mp found
  obtain ⟨range, kept⟩ := Change.mem_keptNew.mp inKept
  have apart := new.separate.apart
  rw [← flatviewDiff_new old.view new.view, List.pairwise_filterMap] at apart
  have : Std.Symm fun left right : Change => ∀ first, left.new? = some first →
      ∀ second, right.new? = some second → first.Apart second :=
    ⟨fun _ _ related first isFirst second isSecond =>
      (related second isSecond first isFirst).symm⟩
  have separated := apart.forall kept added (by simp) same rfl fr rfl
  have inNew : same ∈ new.view := by
    rw [← flatviewDiff_new old.view new.view]
    exact List.mem_filterMap.mpr ⟨_, kept, rfl⟩
  have nonempty := (new.separate.fits same inNew).nonempty
  rw [FlatRange.Apart, flatrangeEqual_iff.mp equal] at separated
  simp only [AddrRange.last] at separated
  omega

theorem Held.update (held : Held old mask memory)
    (result : updateTable old new memory = some after) :
    Held new (nextMask old new mask) after := by
  refine ⟨nextMask_free held.free, ?_⟩
  have ram (mr : Nat) : (new.regions mr).ram = (old.regions mr).ram := by rw [new.ram, old.ram]
  have olds := flatviewDiff_old old.view new.view
  have news := flatviewDiff_new old.view new.view
  obtain ⟨deleted, delPass, addPass⟩ := Option.bind_eq_some_iff.mp result
  have begun : Holds env new.regions (old.view.map (remask mask)) (vhostBegin memory) :=
    (held.holds.of_ram ram).of_fields rfl rfl
  have oldSeparate : Separate env new.regions (old.view.map (remask mask)) :=
    remask_separate (old.separate.of_ram ram)
  have oldList : ((flatviewDiff old.view new.view).map (Change.remask mask)).filterMap Change.old? =
      old.view.map (remask mask) := by
    rw [filterMap_remask old?_remask, olds]
  have newList : ((flatviewDiff old.view new.view).map
      (Change.remask (nextMask old new mask))).filterMap Change.new? =
      new.view.map (remask (nextMask old new mask)) := by
    rw [filterMap_remask new?_remask, news]
  have kept : Holds env new.regions ([] ++ ((flatviewDiff old.view new.view).map
      (Change.remask mask)).filterMap Change.keptOld?) deleted :=
    delPass_holds (by rwa [oldList]) (by rwa [oldList]) (fold_remask delPass)
  -- a kept range has the same mask before and after
  have same : ((flatviewDiff old.view new.view).map (Change.remask mask)).filterMap
        Change.keptOld? = ((flatviewDiff old.view new.view).map
          (Change.remask (nextMask old new mask))).filterMap Change.keptNew? := by
    rw [List.filterMap_map, List.filterMap_map]
    refine List.filterMap_congr fun change member => ?_
    cases change with
    | del old => rfl
    | add new => rfl
    | keep range fr =>
      have equal := flatviewDiff_keep member
      have masks : nextMask old new mask fr = mask range :=
        (nextMask_kept ⟨range, member⟩).trans (held.free _ _ equal).symm
      change some (remask mask range) = some (remask (nextMask old new mask) fr)
      rw [remask, remask, masks, flatrangeEqual_iff.mp equal]
  rw [same] at kept
  have final := addPass_holds (by rw [newList]; exact remask_separate new.separate)
    (fun range member => ?_) kept (fold_remask addPass)
  · rwa [newList] at final
  obtain ⟨change, inDiff, change_eq⟩ := List.mem_map.mp member
  cases change with
  | del old => cases change_eq
  | keep old new => cases change_eq
  | add fr =>
    cases change_eq
    exact nextMask_added inDiff

theorem vhostRegister_held {map : MemoryMap env isRam}
    (result : vhostRegister env map.regions map.view = some memory) :
    Held map (fun fr => (map.regions fr.mr).dirtyLogMask) memory := by
  refine ⟨fun range same equal => ?_, ?_⟩
  · have region : same.mr = range.mr := by rw [flatrangeEqual_iff.mp equal]
    rw [region]
  have unmasked : map.view.map (remask fun fr => (map.regions fr.mr).dirtyLogMask) = map.view := by
    rw [List.map_congr_left fun fr member => ?_, List.map_id']
    rw [remask, ← map.rendered.masked fr member]
  rw [unmasked]
  exact vhostRegister_holds map.separate map.rendered.masked result

/-! ### Addresses -/

def Tabled (mem : List VhostMemoryRegion) (addr : UInt64) : Prop :=
  ∃ reg ∈ mem, reg.guestPhysAddr ≤ addr ∧ addr ≤ rangeGetLast reg.guestPhysAddr reg.memorySize

theorem tabled_iff {mem : List VhostMemoryRegion} (sound : ∀ reg ∈ mem, reg.Sound)
    (addr : UInt64) :
    Tabled mem addr ↔ ∃ value, MapsTo VhostMemoryRegion.piece mem addr.toNat value := by
  have covers {reg : VhostMemoryRegion} (member : reg ∈ mem) :
      (reg.guestPhysAddr ≤ addr ∧ addr ≤ rangeGetLast reg.guestPhysAddr reg.memorySize) ↔
        reg.piece.Covers addr.toNat := by
    have nonempty := (sound reg member).nonempty
    simp only [UInt64.le_iff_toNat_le, rangeGetLast_toNat nonempty (sound reg member).phys,
      Piece.Covers, VhostMemoryRegion.piece, Piece.stop]
    omega
  constructor
  · rintro ⟨reg, member, inside⟩
    exact ⟨_, reg, member, (covers member).mp inside, rfl⟩
  · rintro ⟨value, reg, member, inside, -⟩
    exact ⟨reg, member, (covers member).mpr inside⟩

section Addresses

variable {map : MemoryMap env isRam} {mask : FlatRange → UInt8} {fr : FlatRange}
  {sec : MemoryRegionSection} {addr : UInt64}

/-- The table has the RAM of the view that was not under dirty logging when it was
added. -/
theorem Held.tabled (held : Held map mask memory) (addr : UInt64) :
    Tabled memory.mem addr ↔
      ∃ fr ∈ map.view, isRam fr.mr = true ∧ mask fr = 0 ∧ fr.addr.contains addr.toNat = true := by
  have covers {fr : FlatRange} (member : fr ∈ map.view) :
      (fr.piece env).Covers addr.toNat ↔ fr.addr.contains addr.toNat = true := by
    have low := (map.separate.fits fr member).low
    simp only [Piece.Covers, FlatRange.piece, Piece.stop, AddrRange.contains_iff]
    omega
  rw [tabled_iff held.holds.sound]
  simp only [held.holds.maps, List.mem_map, exists_exists_and_eq_and, map.ram]
  constructor
  · rintro ⟨value, fr, member, ram, unlogged, inside, -⟩
    exact ⟨fr, member, ram, unlogged, (covers member).mp inside⟩
  · rintro ⟨fr, member, ram, unlogged, inside⟩
    exact ⟨_, fr, member, ram, unlogged, (covers member).mpr inside, rfl⟩

theorem Held.mem_sections (held : Held map mask memory) :
    sec ∈ memory.memSections ↔ ∃ fr ∈ map.view, isRam fr.mr = true ∧ fr.toSection 0 = some sec := by
  simp only [held.holds.sections, List.mem_map, exists_exists_and_eq_and, map.ram]
  rfl

theorem MemoryMap.contains_unique (map : MemoryMap env isRam) {left right : FlatRange}
    (inLeft : left ∈ map.view) (inRight : right ∈ map.view)
    (leftHas : left.addr.contains addr.toNat = true)
    (rightHas : right.addr.contains addr.toNat = true) : left = right := by
  by_contra differ
  have : Std.Symm FlatRange.Apart := ⟨fun _ _ => FlatRange.Apart.symm⟩
  have apart := map.separate.apart.forall inLeft inRight differ
  simp only [FlatRange.Apart, AddrRange.contains_iff, AddrRange.last] at *
  omega

/-- A table entry has the address after the update: of a range that is kept, or of one that is
added and not under dirty logging. -/
def TabledAfter (old new : MemoryMap env isRam) (mem : List VhostMemoryRegion) (addr : UInt64) :
    Prop :=
  ∃ fr ∈ new.view, isRam fr.mr = true ∧ fr.addr.contains addr.toNat = true ∧
    (KeptRange old.view new.view fr → Tabled mem addr) ∧
    (¬ KeptRange old.view new.view fr → fr.dirtyLogMask = 0)

theorem Held.tabled_update (held : Held old mask memory)
    (result : updateTable old new memory = some after) (addr : UInt64) :
    Tabled after.mem addr ↔ TabledAfter old new memory.mem addr := by
  rw [(held.update result).tabled]
  refine exists_congr fun fr => and_congr_right fun inNew => and_congr_right fun ram => ?_
  rw [and_comm]
  refine and_congr_right fun inside => ?_
  by_cases kept : KeptRange old.view new.view fr
  · obtain ⟨range, member⟩ := kept
    have equal := flatviewDiff_keep member
    have sameRange := flatrangeEqual_iff.mp equal
    have inOld : range ∈ old.view := by
      rw [← flatviewDiff_old old.view new.view]
      exact List.mem_filterMap.mpr ⟨_, member, rfl⟩
    rw [nextMask_kept ⟨range, member⟩, ← held.free _ _ equal, held.tabled]
    rw [sameRange] at inside ram
    constructor
    · exact fun unlogged => ⟨fun _ => ⟨range, inOld, ram, unlogged, inside⟩,
        fun changed => absurd ⟨range, member⟩ changed⟩
    · rintro ⟨tabled, -⟩
      obtain ⟨other, otherOld, -, unlogged, otherHas⟩ := tabled ⟨range, member⟩
      rwa [old.contains_unique inOld otherOld inside otherHas]
  · have added : .add fr ∈ flatviewDiff old.view new.view := by
      have news := inNew
      rw [← flatviewDiff_new old.view new.view] at news
      obtain ⟨change, member, isNew⟩ := List.mem_filterMap.mp news
      cases change with
      | del range => cases isNew
      | keep range same =>
        cases isNew
        exact absurd ⟨range, member⟩ kept
      | add range =>
        cases isNew
        exact member
    rw [nextMask_added added, ← new.rendered.masked fr inNew]
    exact ⟨fun unlogged => ⟨fun isKept => absurd isKept kept, fun _ => unlogged⟩,
      fun both => both.2 kept⟩

end Addresses

end VhostUser.Qemu.VhostLog
