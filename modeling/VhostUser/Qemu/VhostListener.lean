import VhostUser.Qemu.MemoryApi
import VhostUser.Qemu.VhostMemory

/-!
Contract: the memory listener of a vhost device (`vhost_set_memory`,
`vhost_region_add`, `vhost_region_del`, `vhost_begin`, `vhost_commit` in
`vhost.c`) under the memory API.

Owns: when `dev->mem` and `dev->mem_sections` are exactly the flat view.
`vhost_log_start` and `vhost_log_stop` do nothing, so a commit must not change
the logging of a RAM range and nothing else about it.
-/

namespace VhostUser.Qemu

open VhostUser.Lib

/-- The fields of `struct vhost_dev` that the listener uses. -/
structure VhostMemoryDev where
  mem : List VhostMemoryRegion
  memSections : List MemoryRegionSection
  memChangedStartAddr : UInt64
  memChangedEndAddr : UInt64
  memoryChanged : Bool
  started : Bool
deriving DecidableEq, Repr

/-- Where the RAM of a region is mapped (`memory_region_get_ram_ptr`), and whether the assertions
of `vhost_commit` hold. -/
structure VhostEnv where
  ramPtr : Nat → UInt64
  ringsMapped : UInt64 → UInt64 → Bool
  tableSent : List VhostMemoryRegion → Bool

variable (env : VhostEnv)

def vhostSetMemory (regions : Regions) (sec : MemoryRegionSection) (add : Bool)
    (dev : VhostMemoryDev) : Option VhostMemoryDev :=
  let startAddr := sec.offsetWithinAddressSpace
  (int128Get64 sec.size).bind fun size =>
    let logDirty := (regions sec.mr).dirtyLogMask ≠ 0
    let add := add && !logDirty
    if size = 0 then none
    else
      let ram := env.ramPtr sec.mr + sec.offsetWithinRegion
      if add && !vhostDevCmpMemory dev.mem startAddr size ram then some dev
      else if !add && (vhostDevFindReg dev.mem startAddr size).isNone then some dev
      else
        (vhostDevUnassignMemory dev.mem startAddr size).bind fun mem =>
          (if add then vhostDevAssignMemory ⟨startAddr, size, ram⟩ mem
          else vhostDevUnassignMemory mem startAddr size).map fun mem =>
            { dev with
              mem
              memChangedStartAddr := min dev.memChangedStartAddr startAddr
              memChangedEndAddr := max dev.memChangedEndAddr (startAddr + size - 1)
              memoryChanged := true }

def vhostRegionAdd (regions : Regions) (sec : MemoryRegionSection) (dev : VhostMemoryDev) :
    Option VhostMemoryDev :=
  if !(regions sec.mr).ram then some dev
  else vhostSetMemory env regions sec true { dev with memSections := dev.memSections ++ [sec] }

def vhostRegionDel (regions : Regions) (sec : MemoryRegionSection) (dev : VhostMemoryDev) :
    Option VhostMemoryDev :=
  if !(regions sec.mr).ram then some dev
  else
    (vhostSetMemory env regions sec false dev).map fun dev =>
      { dev with memSections := dev.memSections.eraseP fun other =>
          other.offsetWithinAddressSpace = sec.offsetWithinAddressSpace }

def vhostBegin (dev : VhostMemoryDev) : VhostMemoryDev :=
  { dev with memChangedEndAddr := 0, memChangedStartAddr := -1 }

def vhostCommit (dev : VhostMemoryDev) : Option VhostMemoryDev :=
  if !dev.memoryChanged then some dev
  else if !dev.started then some dev
  else if dev.memChangedEndAddr < dev.memChangedStartAddr then some dev
  else
    let size := dev.memChangedEndAddr - dev.memChangedStartAddr + 1
    if !env.ringsMapped dev.memChangedStartAddr size then none
    else if !env.tableSent dev.mem then none
    else some { dev with memoryChanged := false }

def vhostIgnore : SectionCallback VhostMemoryDev := fun _ _ dev => some dev

def vhostListener : MemoryListener VhostMemoryDev where
  begin dev := some (vhostBegin dev)
  commit := vhostCommit env
  regionAdd := vhostRegionAdd env
  regionDel := vhostRegionDel env
  regionNop := vhostIgnore
  logStart := vhostIgnore
  logStop := vhostIgnore
  addressSpaceFilter := some 0

/-- `memory_listener_register` on a new device: every range of the view is added
(`listener_add_address_space`). -/
def vhostRegister (regions : Regions) (view : FlatView) : Option VhostMemoryDev :=
  view.foldlM (fun dev fr => (fr.toSection 0).bind fun sec => vhostRegionAdd env regions sec dev)
    ⟨[], [], 0, 0, false, false⟩

/-! ### What the device should hold -/

/-- The bytes of a range of RAM, from their guest-physical to their host
addresses. -/
def FlatRange.piece (fr : FlatRange) : Piece :=
  ⟨fr.addr.start.toNat, fr.addr.size.toNat, (env.ramPtr fr.mr).toNat + fr.offsetInRegion.toNat⟩

/-- `dev->mem` maps exactly the RAM of the view that is not under dirty logging,
and `dev->mem_sections` are exactly its RAM sections. -/
structure Mirrors (regions : Regions) (view : FlatView) (dev : VhostMemoryDev) : Prop where
  maps : ∀ addr value, MapsTo VhostMemoryRegion.piece dev.mem addr value ↔
    ∃ fr ∈ view, (regions fr.mr).ram = true ∧ fr.dirtyLogMask = 0 ∧ (fr.piece env).Maps addr value
  sections : ∀ sec, sec ∈ dev.memSections ↔
    ∃ fr ∈ view, (regions fr.mr).ram = true ∧ fr.toSection 0 = some sec
  nodup : dev.memSections.Nodup

/-- It mirrors the ranges it was given, and no entry of its table wraps. -/
structure Holds (regions : Regions) (held : FlatView) (dev : VhostMemoryDev) : Prop
    extends Mirrors env regions held dev where
  sound : ∀ reg ∈ dev.mem, reg.Sound

/-! ### Ranges as table entries -/

/-- A range lies in the 64-bit space, and its RAM in the host's. -/
structure FlatRange.Fits (regions : Regions) (fr : FlatRange) : Prop where
  low : 0 ≤ fr.addr.start
  nonempty : 0 < fr.addr.size
  high : fr.addr.last ≤ 2 ^ 64
  room : (regions fr.mr).ram = true → 0 < (env.ramPtr fr.mr).toNat ∧
    (env.ramPtr fr.mr).toNat + fr.offsetInRegion.toNat + fr.addr.size ≤ 2 ^ 64

def FlatRange.entry (fr : FlatRange) : VhostMemoryRegion :=
  ⟨.ofNat fr.addr.start.toNat, .ofNat fr.addr.size.toNat, env.ramPtr fr.mr + fr.offsetInRegion⟩

def FlatRange.Apart (left right : FlatRange) : Prop :=
  left.addr.last ≤ right.addr.start ∨ right.addr.last ≤ left.addr.start

section Entries

variable {env} {regions : Regions} {fr other : FlatRange} {sec : MemoryRegionSection}

namespace FlatRange

section

variable (fits : fr.Fits env regions) (ram : (regions fr.mr).ram = true)
include fits ram

theorem Fits.entry_piece : (fr.entry env).piece = fr.piece env := by
  obtain ⟨low, nonempty, high, room⟩ := fits
  have := room ram
  simp only [AddrRange.last] at high
  simp only [FlatRange.entry, FlatRange.piece, VhostMemoryRegion.piece, UInt64.toNat_ofNat',
    UInt64.toNat_add, Piece.mk.injEq]
  omega

theorem Fits.entry_sound : (fr.entry env).Sound := by
  have piece := fits.entry_piece ram
  obtain ⟨low, nonempty, high, room⟩ := fits
  have := room ram
  have start := congrArg Piece.start piece
  have size := congrArg Piece.size piece
  have target := congrArg Piece.target piece
  simp only [VhostMemoryRegion.piece, FlatRange.piece, AddrRange.last] at start size target high
  exact ⟨by omega, by omega, by omega, by omega⟩

theorem Fits.entry_range : SoundRange (fr.entry env).guestPhysAddr (fr.entry env).memorySize :=
  ⟨(fits.entry_sound ram).nonempty, (fits.entry_sound ram).phys⟩

theorem Fits.entry_nonzero : (fr.entry env).memorySize ≠ 0 :=
  UInt64.pos_iff_ne_zero.mp (fits.entry_sound ram).nonempty

end

theorem Fits.toSection (fits : fr.Fits env regions) : fr.toSection 0 =
    some ⟨fr.mr, 0, fr.offsetInRegion, fr.addr.size, (fr.entry env).guestPhysAddr,
      fr.readonly⟩ := by
  obtain ⟨low, nonempty, high, -⟩ := fits
  simp only [AddrRange.last] at high
  rw [FlatRange.toSection, int128Get64, if_pos (by omega)]
  rfl

theorem Fits.size_get64 (fits : fr.Fits env regions) (ram : (regions fr.mr).ram = true) :
    int128Get64 fr.addr.size = some (fr.entry env).memorySize := by
  obtain ⟨low, nonempty, high, room⟩ := fits
  have := room ram
  rw [int128Get64, if_pos (by omega)]
  rfl

theorem Apart.symm (apart : fr.Apart other) : other.Apart fr := Or.symm apart

theorem Apart.not_covers {addr : Nat} (apart : other.Apart fr) (fits : fr.Fits env regions)
    (otherFits : other.Fits env regions) (covers : (other.piece env).Covers addr) :
    ¬ (fr.piece env).Covers addr := by
  have := fits.low
  have := otherFits.low
  simp only [Apart, AddrRange.last] at apart
  simp only [Piece.Covers, FlatRange.piece, Piece.stop] at covers ⊢
  omega

theorem Apart.start_ne (apart : other.Apart fr) (fits : fr.Fits env regions)
    (otherFits : other.Fits env regions) :
    (other.entry env).guestPhysAddr ≠ (fr.entry env).guestPhysAddr := by
  obtain ⟨low, nonempty, high, -⟩ := fits
  obtain ⟨otherLow, otherNonempty, otherHigh, -⟩ := otherFits
  rw [Ne, ← UInt64.toNat_inj]
  simp only [Apart, AddrRange.last] at apart high otherHigh
  simp only [FlatRange.entry, UInt64.toNat_ofNat']
  omega

end FlatRange

/-! ### One callback -/

variable {dev after : VhostMemoryDev} {held : FlatView}

/-- A callback leaves the device alone, or takes the section out of the table and
perhaps puts it back in. -/
theorem vhostSetMemory_cases {add : Bool}
    (result : vhostSetMemory env regions sec add dev = some after) :
    after = dev ∨ ∃ size left mem, int128Get64 sec.size = some size ∧ size ≠ 0 ∧
      vhostDevUnassignMemory dev.mem sec.offsetWithinAddressSpace size = some left ∧
      (vhostDevAssignMemory ⟨sec.offsetWithinAddressSpace, size,
          env.ramPtr sec.mr + sec.offsetWithinRegion⟩ left = some mem ∨
        vhostDevUnassignMemory left sec.offsetWithinAddressSpace size = some mem) ∧
      after = { dev with
        mem
        memChangedStartAddr := min dev.memChangedStartAddr sec.offsetWithinAddressSpace
        memChangedEndAddr := max dev.memChangedEndAddr (sec.offsetWithinAddressSpace + size - 1)
        memoryChanged := true } := by
  obtain ⟨size, size_eq, result⟩ := Option.bind_eq_some_iff.mp result
  dsimp only at result
  split at result
  · cases result
  next nonzero =>
    split at result
    · cases result
      exact .inl rfl
    split at result
    · cases result
      exact .inl rfl
    obtain ⟨left, leftResult, result⟩ := Option.bind_eq_some_iff.mp result
    obtain ⟨mem, memResult, rfl⟩ := Option.map_eq_some_iff.mp result
    refine .inr ⟨size, left, mem, size_eq, nonzero, leftResult, ?_, rfl⟩
    split at memResult
    · exact .inl memResult
    · exact .inr memResult

theorem vhostSetMemory_removes {add : Bool}
    (result : vhostSetMemory env regions sec add dev = some after)
    (sec_eq : fr.toSection 0 = some sec) (sound : ∀ reg ∈ dev.mem, reg.Sound)
    (fits : fr.Fits env regions) (ram : (regions fr.mr).ram = true)
    (removing : (add && !decide ((regions fr.mr).dirtyLogMask ≠ 0)) = false) :
    after.memSections = dev.memSections ∧
      Unassigned (fr.entry env).guestPhysAddr (fr.entry env).memorySize dev.mem after.mem := by
  have range := fits.entry_range ram
  rw [fits.toSection, Option.some.injEq] at sec_eq
  subst sec_eq
  have nonzero := fits.entry_nonzero ram
  simp only [vhostSetMemory, fits.size_get64 ram, Option.bind_some, removing, nonzero, if_false,
    Bool.false_and, Bool.not_false, Bool.true_and, Bool.false_eq_true] at result
  split at result
  next absent =>
    cases result
    rw [Option.isNone_iff_eq_none, vhostDevFindReg_none_iff
      (fun reg member => (sound reg member).placed.toLocated) range] at absent
    exact ⟨rfl, sound, fun addr value => ⟨fun maps => ⟨maps, absent addr value maps⟩, And.left⟩⟩
  · obtain ⟨once, onceResult, result⟩ := Option.bind_eq_some_iff.mp result
    obtain ⟨twice, twiceResult, rfl⟩ := Option.map_eq_some_iff.mp result
    have first := vhostDevUnassignMemory_unassigned range sound onceResult
    have second := vhostDevUnassignMemory_unassigned range first.sound twiceResult
    refine ⟨rfl, second.sound, fun addr value => ?_⟩
    rw [second.maps, first.maps, and_assoc, and_self]

theorem vhostSetMemory_adds (result : vhostSetMemory env regions sec true dev = some after)
    (sec_eq : fr.toSection 0 = some sec) (sound : ∀ reg ∈ dev.mem, reg.Sound)
    (fits : fr.Fits env regions) (ram : (regions fr.mr).ram = true)
    (unlogged : (regions fr.mr).dirtyLogMask = 0)
    (free : ∀ addr value, MapsTo VhostMemoryRegion.piece dev.mem addr value →
      ¬ (fr.entry env).piece.Covers addr) :
    after.memSections = dev.memSections ∧ Assigned (fr.entry env) dev.mem after.mem := by
  have range := fits.entry_range ram
  rw [fits.toSection, Option.some.injEq] at sec_eq
  subst sec_eq
  have nonzero := fits.entry_nonzero ram
  have absent : vhostDevFindReg dev.mem (fr.entry env).guestPhysAddr (fr.entry env).memorySize =
      none :=
    (vhostDevFindReg_none_iff (fun reg member => (sound reg member).placed.toLocated) range).mpr
      free
  simp only [vhostSetMemory, fits.size_get64 ram, Option.bind_some, unlogged, nonzero, if_false,
    vhostDevCmpMemory, absent, ne_eq, not_true_eq_false, decide_false, Bool.not_false,
    Bool.and_true, Bool.not_true, Bool.and_false, Bool.false_and, Bool.false_eq_true,
    if_true] at result
  obtain ⟨left, leftResult, result⟩ := Option.bind_eq_some_iff.mp result
  obtain ⟨mem, memResult, rfl⟩ := Option.map_eq_some_iff.mp result
  have removed := vhostDevUnassignMemory_unassigned range sound leftResult
  have added := vhostDevAssignMemory_assigned (fits.entry_sound ram) removed.sound memResult
  refine ⟨rfl, added.sound, fun addr value => (added.maps addr value).trans (or_congr_left ?_)⟩
  rw [removed.maps]
  exact ⟨And.left, fun maps => ⟨maps, free addr value maps⟩⟩

theorem Holds.congr {same : FlatView} (holds : Holds env regions held dev)
    (members : ∀ range, range ∈ held ↔ range ∈ same) : Holds env regions same dev := by
  obtain ⟨⟨maps, sections, nodup⟩, sound⟩ := holds
  simp only [members] at maps sections
  exact ⟨⟨maps, sections, nodup⟩, sound⟩

theorem holds_cons_of_not_ram (io : (regions fr.mr).ram = false) :
    Holds env regions (fr :: held) dev ↔ Holds env regions held dev := by
  have drop (property : FlatRange → Prop) :
      (∃ range ∈ fr :: held, (regions range.mr).ram = true ∧ property range) ↔
        ∃ range ∈ held, (regions range.mr).ram = true ∧ property range := by
    simp [io]
  constructor
  · rintro ⟨⟨maps, sections, nodup⟩, sound⟩
    exact ⟨⟨fun addr value => (maps addr value).trans (drop _),
      fun sec => (sections sec).trans (drop _), nodup⟩, sound⟩
  · rintro ⟨⟨maps, sections, nodup⟩, sound⟩
    exact ⟨⟨fun addr value => (maps addr value).trans (drop _).symm,
      fun sec => (sections sec).trans (drop _).symm, nodup⟩, sound⟩

theorem eraseP_eq_erase {α : Type*} [DecidableEq α] {test : α → Bool} {value : α}
    (passes : test value = true) : ∀ {list : List α},
    (∀ other ∈ list, test other = true → other = value) → list.eraseP test = list.erase value
  | [], _ => rfl
  | head :: rest, unique => by
    obtain ⟨atHead, atRest⟩ := List.forall_mem_cons.mp unique
    by_cases tested : test head = true
    · obtain rfl := atHead tested
      rw [List.eraseP_cons_of_pos tested, List.erase_cons_head]
    · have differ : head ≠ value := fun same => tested (same ▸ passes)
      rw [List.eraseP_cons_of_neg tested, List.erase_cons_tail (by simpa using differ),
        eraseP_eq_erase passes atRest]

section Callback

variable (fits : fr.Fits env regions) (heldFits : ∀ range ∈ held, range.Fits env regions)
  (apart : ∀ range ∈ held, range.Apart fr) (sec_eq : fr.toSection 0 = some sec)

include fits sec_eq in
theorem section_mr : sec.mr = fr.mr := by
  rw [fits.toSection, Option.some.injEq] at sec_eq
  exact sec_eq ▸ rfl

include fits heldFits apart sec_eq

/-- No held section starts where a range apart from all of them starts. -/
theorem section_start_ne {range : FlatRange} {found : MemoryRegionSection}
    (member : range ∈ held) (found_eq : range.toSection 0 = some found) :
    found.offsetWithinAddressSpace ≠ sec.offsetWithinAddressSpace := by
  have differ := (apart range member).start_ne fits (heldFits range member)
  rw [(heldFits range member).toSection, Option.some.injEq] at found_eq
  rw [fits.toSection, Option.some.injEq] at sec_eq
  subst found_eq sec_eq
  exact differ

theorem Holds.regionDel (holds : Holds env regions (fr :: held) dev)
    (result : vhostRegionDel env regions sec dev = some after) :
    Holds env regions held after := by
  rw [vhostRegionDel, section_mr fits sec_eq] at result
  split at result
  next io =>
    cases result
    exact (holds_cons_of_not_ram (by simpa using io)).mp holds
  next ram =>
    rw [Bool.not_eq_true', Bool.not_eq_false] at ram
    obtain ⟨removed, removedResult, rfl⟩ := Option.map_eq_some_iff.mp result
    obtain ⟨sections, unassigned⟩ :=
      vhostSetMemory_removes removedResult sec_eq holds.sound fits ram (Bool.false_and _)
    have erased : removed.memSections.eraseP (fun other =>
        decide (other.offsetWithinAddressSpace = sec.offsetWithinAddressSpace)) =
        dev.memSections.erase sec := by
      rw [sections]
      refine eraseP_eq_erase (by simp) fun other member same => ?_
      obtain ⟨range, inHeld, -, other_eq⟩ := (holds.sections other).mp member
      rcases List.mem_cons.mp inHeld with rfl | later
      · exact Option.some.inj (other_eq.symm.trans sec_eq)
      · exact absurd (of_decide_eq_true same)
          (section_start_ne fits heldFits apart sec_eq later other_eq)
    refine ⟨⟨fun addr value => ?_, fun found => ?_, ?_⟩, unassigned.sound⟩
    · -- the other ranges have no address in this one
      rw [unassigned.maps, holds.maps, List.exists_mem_cons_iff]
      change _ ∧ ¬ (fr.entry env).piece.Covers addr ↔ _
      rw [fits.entry_piece ram]
      constructor
      · rintro ⟨⟨-, -, maps⟩ | other, outside⟩
        · exact absurd maps.1 outside
        · exact other
      · rintro ⟨range, member, rangeRam, unlogged, maps⟩
        exact ⟨.inr ⟨range, member, rangeRam, unlogged, maps⟩,
          (apart range member).not_covers fits (heldFits range member) maps.1⟩
    · simp only [erased, holds.nodup.mem_erase_iff, holds.sections, List.exists_mem_cons_iff]
      constructor
      · rintro ⟨differ, ⟨-, found_eq⟩ | other⟩
        · exact absurd (Option.some.inj (found_eq.symm.trans sec_eq)) differ
        · exact other
      · rintro ⟨range, member, rangeRam, found_eq⟩
        have differ := section_start_ne fits heldFits apart sec_eq member found_eq
        exact ⟨fun same => differ (same ▸ rfl), .inr ⟨range, member, rangeRam, found_eq⟩⟩
    · simp only [erased]
      exact holds.nodup.erase sec

theorem Holds.extend (holds : Holds env regions held dev) (ram : (regions fr.mr).ram = true)
    (table : ∀ addr value, MapsTo VhostMemoryRegion.piece after.mem addr value ↔
      fr.dirtyLogMask = 0 ∧ (fr.piece env).Maps addr value ∨
        MapsTo VhostMemoryRegion.piece dev.mem addr value)
    (sections : after.memSections = dev.memSections ++ [sec])
    (sound : ∀ reg ∈ after.mem, reg.Sound) : Holds env regions (fr :: held) after := by
  have fresh : sec ∉ dev.memSections := fun member => by
    obtain ⟨range, inHeld, -, same⟩ := (holds.sections sec).mp member
    exact section_start_ne fits heldFits apart sec_eq inHeld same rfl
  refine ⟨⟨fun addr value => ?_, fun found => ?_, ?_⟩, sound⟩
  · rw [table, holds.maps, List.exists_mem_cons_iff]
    simp only [ram, true_and]
  · rw [sections, List.mem_append, holds.sections, List.mem_singleton,
      List.exists_mem_cons_iff, or_comm]
    simp only [ram, true_and, sec_eq, Option.some.injEq, eq_comm]
  · rw [sections, (List.perm_append_singleton sec _).nodup_iff]
    exact List.nodup_cons.mpr ⟨fresh, holds.nodup⟩

theorem Holds.regionAdd (holds : Holds env regions held dev)
    (masked : fr.dirtyLogMask = (regions fr.mr).dirtyLogMask)
    (result : vhostRegionAdd env regions sec dev = some after) :
    Holds env regions (fr :: held) after := by
  rw [vhostRegionAdd, section_mr fits sec_eq] at result
  split at result
  next io =>
    cases result
    exact (holds_cons_of_not_ram (by simpa using io)).mpr holds
  next ram =>
    rw [Bool.not_eq_true', Bool.not_eq_false] at ram
    have free : ∀ addr value, MapsTo VhostMemoryRegion.piece dev.mem addr value →
        ¬ (fr.entry env).piece.Covers addr := by
      intro addr value maps
      obtain ⟨range, member, -, -, rangeMaps⟩ := (holds.maps addr value).mp maps
      rw [fits.entry_piece ram]
      exact (apart range member).not_covers fits (heldFits range member) rangeMaps.1
    by_cases unlogged : (regions fr.mr).dirtyLogMask = 0
    · obtain ⟨sections, assigned⟩ :=
        vhostSetMemory_adds result sec_eq holds.sound fits ram unlogged free
      refine holds.extend fits heldFits apart sec_eq ram (fun addr value => ?_) sections
        assigned.sound
      rw [assigned.maps, fits.entry_piece ram, masked, or_comm]
      simp only [unlogged, true_and]
    · obtain ⟨sections, unassigned⟩ :=
        vhostSetMemory_removes result sec_eq holds.sound fits ram (by simp [unlogged])
      refine holds.extend fits heldFits apart sec_eq ram (fun addr value => ?_) sections
        unassigned.sound
      rw [unassigned.maps, masked]
      simp only [unlogged, false_and, false_or]
      exact ⟨And.left, fun maps => ⟨maps, free addr value maps⟩⟩

end Callback

end Entries

end VhostUser.Qemu
