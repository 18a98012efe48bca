import Mathlib.Data.List.Perm.Basic
import VhostUser.Lib.PieceMap
import VhostUser.Qemu.FlatView

/-!
Contract: the table `dev->mem` of a vhost device (`vhost_dev_unassign_memory`,
`vhost_dev_assign_memory`, `vhost_dev_find_reg`, `vhost_dev_cmp_memory` in
`vhost.c`), as an address map.

The loops compact the table in place; the lists here are the entries in table
order. A failed `assert` is `none`. All arithmetic is that of `uint64_t`, and
the entries are pieces of numbers as long as they do not wrap (`Sound`).
-/

namespace VhostUser.Qemu

open VhostUser.Lib

structure VhostMemoryRegion where
  guestPhysAddr : UInt64
  memorySize : UInt64
  userspaceAddr : UInt64
deriving DecidableEq, Repr

def rangeGetLast (offset len : UInt64) : UInt64 := offset + len - 1

def rangesOverlap (first1 len1 first2 len2 : UInt64) : Bool :=
  !(rangeGetLast first2 len2 < first1 || rangeGetLast first1 len1 < first2)

namespace VhostMemoryRegion

def shrink (reg : VhostMemoryRegion) (startAddr : UInt64) : VhostMemoryRegion :=
  { reg with memorySize := startAddr - reg.guestPhysAddr }

def shift (reg : VhostMemoryRegion) (change : UInt64) : VhostMemoryRegion :=
  ⟨reg.guestPhysAddr + change, reg.memorySize - change, reg.userspaceAddr + change⟩

end VhostMemoryRegion

/-- The counters of `vhost_dev_unassign_memory`, which are only compared with
zero. -/
structure UnassignFlags where
  overlapStart : Bool
  overlapEnd : Bool
  overlapMiddle : Bool
  split : Bool

/-- The loop of `vhost_dev_unassign_memory`: the entries that stay, and the one that a split
appends. -/
def unassignLoop (startAddr size : UInt64) : List VhostMemoryRegion → UnassignFlags →
    Option (List VhostMemoryRegion × List VhostMemoryRegion)
  | [], _ => some ([], [])
  | reg :: rest, flags =>
    if !rangesOverlap reg.guestPhysAddr reg.memorySize startAddr size then
      (unassignLoop startAddr size rest flags).map fun out => (reg :: out.1, out.2)
    else if flags.split then none
    else
      let reglast := rangeGetLast reg.guestPhysAddr reg.memorySize
      let memlast := rangeGetLast startAddr size
      let change := memlast + 1 - reg.guestPhysAddr
      if startAddr ≤ reg.guestPhysAddr && reglast ≤ memlast then
        unassignLoop startAddr size rest { flags with overlapMiddle := true }
      else if reglast ≤ memlast then
        if (reg.shrink startAddr).memorySize = 0 || flags.overlapEnd then none
        else (unassignLoop startAddr size rest { flags with overlapEnd := true }).map fun out =>
          (reg.shrink startAddr :: out.1, out.2)
      else if startAddr ≤ reg.guestPhysAddr then
        if (reg.shift change).memorySize = 0 || flags.overlapStart then none
        else (unassignLoop startAddr size rest { flags with overlapStart := true }).map fun out =>
          (reg.shift change :: out.1, out.2)
      -- without a removal or a split, `nregions` is still what it was
      else if flags.overlapStart || flags.overlapEnd || flags.overlapMiddle then none
      else if (reg.shrink startAddr).memorySize = 0 || (reg.shift change).memorySize = 0 then none
      else (unassignLoop startAddr size rest { flags with split := true }).map fun out =>
        (reg.shrink startAddr :: out.1, reg.shift change :: out.2)

def vhostDevUnassignMemory (mem : List VhostMemoryRegion) (startAddr size : UInt64) :
    Option (List VhostMemoryRegion) :=
  (unassignLoop startAddr size mem ⟨false, false, false, false⟩).map fun out => out.1 ++ out.2

def regionsApart (reg new : VhostMemoryRegion) : Bool :=
  rangeGetLast reg.guestPhysAddr reg.memorySize < new.guestPhysAddr ||
    rangeGetLast new.guestPhysAddr new.memorySize < reg.guestPhysAddr

/-- One range continues the other, in both address spaces. -/
def regionsAdjacent (reg new : VhostMemoryRegion) : Bool :=
  (rangeGetLast reg.guestPhysAddr reg.memorySize + 1 = new.guestPhysAddr &&
      rangeGetLast reg.userspaceAddr reg.memorySize + 1 = new.userspaceAddr) ||
    (rangeGetLast new.guestPhysAddr new.memorySize + 1 = reg.guestPhysAddr &&
      rangeGetLast new.userspaceAddr new.memorySize + 1 = reg.userspaceAddr)

def mergeRegions (reg new : VhostMemoryRegion) : VhostMemoryRegion :=
  let s := min new.guestPhysAddr reg.guestPhysAddr
  let e := max (rangeGetLast new.guestPhysAddr new.memorySize)
    (rangeGetLast reg.guestPhysAddr reg.memorySize)
  ⟨s, e - s + 1, min new.userspaceAddr reg.userspaceAddr⟩

/-- The rest of the loop of `vhost_dev_assign_memory` once an entry was merged: that entry and
those that stay. -/
def assignMerged (merged : VhostMemoryRegion) :
    List VhostMemoryRegion → Option (VhostMemoryRegion × List VhostMemoryRegion)
  | [] => some (merged, [])
  | reg :: rest =>
    if !regionsApart reg merged then none
    else if !regionsAdjacent reg merged then
      (assignMerged merged rest).map fun out => (out.1, reg :: out.2)
    else if (mergeRegions reg merged).memorySize = 0 then none
    else assignMerged (mergeRegions reg merged) rest

def vhostDevAssignMemory (new : VhostMemoryRegion) :
    List VhostMemoryRegion → Option (List VhostMemoryRegion)
  | [] => if new.memorySize = 0 then none else some [new]
  | reg :: rest =>
    if !regionsApart reg new then none
    else if !regionsAdjacent reg new then
      (vhostDevAssignMemory new rest).map (reg :: ·)
    else if (mergeRegions reg new).memorySize = 0 then none
    else (assignMerged (mergeRegions reg new) rest).map fun out => out.1 :: out.2

def vhostDevFindReg (mem : List VhostMemoryRegion) (startAddr size : UInt64) :
    Option VhostMemoryRegion :=
  mem.find? fun reg => rangesOverlap reg.guestPhysAddr reg.memorySize startAddr size

def vhostDevCmpMemory (mem : List VhostMemoryRegion) (startAddr size uaddr : UInt64) : Bool :=
  match vhostDevFindReg mem startAddr size with
  | none => true
  | some reg =>
    let reglast := rangeGetLast reg.guestPhysAddr reg.memorySize
    let memlast := rangeGetLast startAddr size
    if startAddr < reg.guestPhysAddr || reglast < memlast then true
    else uaddr ≠ reg.userspaceAddr + startAddr - reg.guestPhysAddr

/-! ### Entries as pieces -/

variable {addr value : Nat}

namespace VhostMemoryRegion

def piece (reg : VhostMemoryRegion) : Piece :=
  ⟨reg.guestPhysAddr.toNat, reg.memorySize.toNat, reg.userspaceAddr.toNat⟩

/-- The entry is not empty and does not wrap in guest-physical space. -/
structure Located (reg : VhostMemoryRegion) : Prop where
  nonempty : 0 < reg.memorySize.toNat
  phys : reg.guestPhysAddr.toNat + reg.memorySize.toNat ≤ 2 ^ 64

structure Placed (reg : VhostMemoryRegion) : Prop extends Located reg where
  host : reg.userspaceAddr.toNat + reg.memorySize.toNat ≤ 2 ^ 64

/-- The entry is not empty and wraps in neither address space; the null page is
not host memory. -/
structure Sound (reg : VhostMemoryRegion) : Prop where
  nonempty : 0 < reg.memorySize.toNat
  phys : reg.guestPhysAddr.toNat + reg.memorySize.toNat ≤ 2 ^ 64
  user : 0 < reg.userspaceAddr.toNat
  host : reg.userspaceAddr.toNat + reg.memorySize.toNat ≤ 2 ^ 64

/-- The entry has `addr` at the userspace address `value`; the sum is one of 64 bits. -/
def Backs (reg : VhostMemoryRegion) (addr value : Nat) : Prop :=
  ∃ sum, reg.piece.Maps addr sum ∧ value = sum % 2 ^ 64

theorem Placed.backs_iff {reg : VhostMemoryRegion} (placed : reg.Placed) :
    reg.Backs addr value ↔ reg.piece.Maps addr value := by
  have fits : ∀ {sum}, reg.piece.Maps addr sum → sum % 2 ^ 64 = sum := by
    rintro _ ⟨⟨low, high⟩, rfl⟩
    have host := placed.host
    simp only [piece, Piece.stop] at low high ⊢
    exact Nat.mod_eq_of_lt (by omega)
  constructor
  · rintro ⟨sum, maps, rfl⟩
    rw [fits maps]
    exact maps
  · exact fun maps => ⟨value, maps, (fits maps).symm⟩

theorem Sound.placed {reg : VhostMemoryRegion} (sound : reg.Sound) : reg.Placed :=
  ⟨⟨sound.nonempty, sound.phys⟩, sound.host⟩

end VhostMemoryRegion

open VhostMemoryRegion

section Pieces

variable {reg new : VhostMemoryRegion} {startAddr size change : UInt64}

theorem rangeGetLast_toNat {offset len : UInt64} (nonempty : 0 < len.toNat)
    (bounded : offset.toNat + len.toNat ≤ 2 ^ 64) :
    (rangeGetLast offset len).toNat = offset.toNat + len.toNat - 1 := by
  simp only [rangeGetLast, UInt64.toNat_sub, UInt64.toNat_add, UInt64.reduceToNat]
  omega

theorem rangesOverlap_iff {first1 len1 first2 len2 : UInt64} (nonempty1 : 0 < len1.toNat)
    (bounded1 : first1.toNat + len1.toNat ≤ 2 ^ 64) (nonempty2 : 0 < len2.toNat)
    (bounded2 : first2.toNat + len2.toNat ≤ 2 ^ 64) :
    rangesOverlap first1 len1 first2 len2 = true ↔
      first1.toNat < first2.toNat + len2.toNat ∧ first2.toNat < first1.toNat + len1.toNat := by
  simp only [rangesOverlap, Bool.not_eq_true', Bool.or_eq_false_iff, decide_eq_false_iff_not,
    UInt64.lt_iff_toNat_lt, rangeGetLast_toNat nonempty1 bounded1,
    rangeGetLast_toNat nonempty2 bounded2]
  omega

def InRange (startAddr size : UInt64) (addr : Nat) : Prop :=
  startAddr.toNat ≤ addr ∧ addr < startAddr.toNat + size.toNat

structure SoundRange (startAddr size : UInt64) : Prop where
  nonempty : 0 < size.toNat
  bounded : startAddr.toNat + size.toNat ≤ 2 ^ 64

theorem VhostMemoryRegion.Located.overlaps_iff (located : reg.Located)
    (range : SoundRange startAddr size) :
    rangesOverlap reg.guestPhysAddr reg.memorySize startAddr size = true ↔
      reg.piece.start < startAddr.toNat + size.toNat ∧ startAddr.toNat < reg.piece.stop :=
  rangesOverlap_iff located.nonempty located.phys range.nonempty range.bounded

theorem VhostMemoryRegion.Located.last_le_iff (located : reg.Located)
    (range : SoundRange startAddr size) :
    rangeGetLast reg.guestPhysAddr reg.memorySize ≤ rangeGetLast startAddr size ↔
      reg.piece.stop ≤ startAddr.toNat + size.toNat := by
  have := range.nonempty
  simp only [UInt64.le_iff_toNat_le, rangeGetLast_toNat located.nonempty located.phys,
    rangeGetLast_toNat range.nonempty range.bounded, piece, Piece.stop]
  omega

/-! ### Removing a range -/

/-- What the loop leaves of one entry. -/
def remains (startAddr size : UInt64) (reg : VhostMemoryRegion) : List VhostMemoryRegion :=
  let change := rangeGetLast startAddr size + 1 - reg.guestPhysAddr
  if !rangesOverlap reg.guestPhysAddr reg.memorySize startAddr size then [reg]
  else if rangeGetLast reg.guestPhysAddr reg.memorySize ≤ rangeGetLast startAddr size then
    if startAddr ≤ reg.guestPhysAddr then [] else [reg.shrink startAddr]
  else if startAddr ≤ reg.guestPhysAddr then [reg.shift change]
  else [reg.shrink startAddr, reg.shift change]

/-- What remains of each entry, in its place, and behind all others the upper part of one that is
split. -/
def without (startAddr size : UInt64) (mem : List VhostMemoryRegion) : List VhostMemoryRegion :=
  mem.flatMap (fun reg => (remains startAddr size reg).take 1) ++
    mem.flatMap fun reg => (remains startAddr size reg).drop 1

theorem without_perm (startAddr size : UInt64) (mem : List VhostMemoryRegion) :
    (without startAddr size mem).Perm (mem.flatMap (remains startAddr size)) := by
  refine (List.flatMap_append_perm mem _ _).trans ?_
  simp only [List.take_append_drop]
  exact .refl _

theorem unassignLoop_remains {startAddr size : UInt64} :
    ∀ {mem : List VhostMemoryRegion} {flags : UnassignFlags}
      {out : List VhostMemoryRegion × List VhostMemoryRegion},
      unassignLoop startAddr size mem flags = some out →
      out.1 = mem.flatMap (fun reg => (remains startAddr size reg).take 1) ∧
        out.2 = mem.flatMap fun reg => (remains startAddr size reg).drop 1
  | [], _, _, result => by
    cases result
    exact ⟨rfl, rfl⟩
  | reg :: rest, flags, out, result => by
    have ih := @unassignLoop_remains startAddr size rest
    simp only [unassignLoop, Bool.and_eq_true, decide_eq_true_eq] at result
    simp only [List.flatMap_cons, remains]
    -- an entry that stays, and the part behind the others, if any
    have stays : ∀ {flags : UnassignFlags} {part : VhostMemoryRegion}
        {more : List VhostMemoryRegion}, (unassignLoop startAddr size rest flags).map
          (fun out => (part :: out.1, more ++ out.2)) = some out →
        out.1 = [part] ++ rest.flatMap (fun reg => (remains startAddr size reg).take 1) ∧
          out.2 = more ++ rest.flatMap fun reg => (remains startAddr size reg).drop 1 := by
      intro flags part more result
      obtain ⟨tail, tailResult, rfl⟩ := Option.map_eq_some_iff.mp result
      obtain ⟨front, back⟩ := ih tailResult
      exact ⟨congrArg _ front, congrArg _ back⟩
    split at result
    next apart =>
      rw [if_pos apart]
      exact stays result
    next overlap =>
      rw [if_neg overlap]
      split at result
      · cases result
      split at result
      next covered =>
        rw [if_pos covered.2, if_pos covered.1]
        exact ih result
      next uncovered =>
        split at result
        next high =>
          rw [if_pos high, if_neg fun low => uncovered ⟨low, high⟩]
          split at result
          · cases result
          exact stays result
        next inside =>
          rw [if_neg inside]
          split at result
          next low =>
            rw [if_pos low]
            split at result
            · cases result
            exact stays result
          next above =>
            rw [if_neg above]
            split at result
            · cases result
            split at result
            · cases result
            exact stays result

theorem shrink_piece (above : reg.piece.start ≤ startAddr.toNat) :
    (reg.shrink startAddr).piece = reg.piece.before startAddr.toNat := by
  have := UInt64.toNat_lt startAddr
  simp only [piece, shrink, Piece.before,
    UInt64.toNat_sub, Piece.mk.injEq, true_and, and_true] at above ⊢
  omega

theorem change_limit (located : reg.Located) (range : SoundRange startAddr size)
    (above : reg.piece.start ≤ startAddr.toNat + size.toNat)
    (inside : startAddr.toNat + size.toNat < reg.piece.stop) :
    reg.piece.start + (rangeGetLast startAddr size + 1 - reg.guestPhysAddr).toNat =
        startAddr.toNat + size.toNat ∧
      (rangeGetLast startAddr size + 1 - reg.guestPhysAddr).toNat < reg.memorySize.toNat := by
  have := range.nonempty
  have := located.phys
  simp only [UInt64.toNat_sub, UInt64.toNat_add, UInt64.reduceToNat, Piece.stop,
    rangeGetLast_toNat range.nonempty range.bounded, piece] at above inside ⊢
  omega

theorem shift_located (located : reg.Located) (within : change.toNat < reg.memorySize.toNat) :
    (reg.shift change).guestPhysAddr.toNat = reg.guestPhysAddr.toNat + change.toNat ∧
      (reg.shift change).memorySize.toNat = reg.memorySize.toNat - change.toNat := by
  obtain ⟨nonempty, phys⟩ := located
  have := UInt64.toNat_lt reg.memorySize
  simp only [shift, UInt64.toNat_sub, UInt64.toNat_add]
  omega

theorem shift_user (placed : reg.Placed) (within : change.toNat < reg.memorySize.toNat) :
    (reg.shift change).userspaceAddr.toNat = reg.userspaceAddr.toNat + change.toNat := by
  have := placed.host
  simp only [shift, UInt64.toNat_add]
  omega

theorem shift_piece (located : reg.Located) (within : change.toNat < reg.memorySize.toNat) :
    (reg.shift change).piece.start = (reg.piece.after (reg.piece.start + change.toNat)).start ∧
      (reg.shift change).piece.size = (reg.piece.after (reg.piece.start + change.toNat)).size ∧
      (reg.shift change).piece.target =
        (reg.piece.after (reg.piece.start + change.toNat)).target % 2 ^ 64 := by
  obtain ⟨start, size⟩ := shift_located located within
  simp only [piece, Piece.after, Piece.stop]
  refine ⟨start, by omega, ?_⟩
  rw [Nat.add_sub_cancel_left]
  exact UInt64.toNat_add _ _

theorem shrink_backs (above : reg.piece.start ≤ startAddr.toNat)
    (inside : startAddr.toNat ≤ reg.piece.stop) :
    (reg.shrink startAddr).Backs addr value ↔ reg.Backs addr value ∧ addr < startAddr.toNat := by
  simp only [Backs, shrink_piece above, Piece.maps_before inside]
  grind

theorem shift_backs (located : reg.Located) (within : change.toNat < reg.memorySize.toNat) :
    (reg.shift change).Backs addr value ↔
      reg.Backs addr value ∧ reg.piece.start + change.toNat ≤ addr := by
  obtain ⟨start, size, target⟩ := shift_piece located within
  have second : (reg.shift change).Backs addr value ↔ ∃ sum,
      (reg.piece.after (reg.piece.start + change.toNat)).Maps addr sum ∧ value = sum % 2 ^ 64 := by
    simp only [Backs, Piece.Maps, Piece.Covers, Piece.stop, start, size, target,
      and_assoc, exists_and_left, exists_eq_left, Nat.mod_add_mod]
  rw [second]
  simp only [Backs, Piece.maps_after (Nat.le_add_right _ _)]
  grind

/-- An entry that meets the range keeps its part below the range and its part above it. -/
theorem remains_eq (located : reg.Located) (range : SoundRange startAddr size) :
    remains startAddr size reg =
      if reg.piece.stop ≤ startAddr.toNat ∨ startAddr.toNat + size.toNat ≤ reg.piece.start then
        [reg]
      else (if reg.piece.start < startAddr.toNat then [reg.shrink startAddr] else []) ++
        if startAddr.toNat + size.toNat < reg.piece.stop then
          [reg.shift (rangeGetLast startAddr size + 1 - reg.guestPhysAddr)]
        else [] := by
  have overlaps := located.overlaps_iff range
  have last := located.last_le_iff range
  have first : startAddr ≤ reg.guestPhysAddr ↔ startAddr.toNat ≤ reg.piece.start :=
    UInt64.le_iff_toNat_le
  simp only [remains, Bool.not_eq_true', ← Bool.not_eq_true, overlaps, last, first]
  split_ifs <;> first | rfl | omega

theorem mem_remains {part : VhostMemoryRegion} (located : reg.Located)
    (range : SoundRange startAddr size) : part ∈ remains startAddr size reg ↔
      (part = reg ∧
        (reg.piece.stop ≤ startAddr.toNat ∨ startAddr.toNat + size.toNat ≤ reg.piece.start)) ∨
      (part = reg.shrink startAddr ∧
        reg.piece.start < startAddr.toNat ∧ startAddr.toNat < reg.piece.stop) ∨
      part = reg.shift (rangeGetLast startAddr size + 1 - reg.guestPhysAddr) ∧
        reg.piece.start < startAddr.toNat + size.toNat ∧
          startAddr.toNat + size.toNat < reg.piece.stop := by
  rw [remains_eq located range]
  grind

theorem shrink_placed (placed : reg.Placed) (above : reg.piece.start < startAddr.toNat)
    (below : startAddr.toNat < reg.piece.stop) :
    (reg.shrink startAddr).Placed := by
  obtain ⟨⟨nonempty, phys⟩, host⟩ := placed
  have cut : (reg.shrink startAddr).memorySize.toNat = startAddr.toNat - reg.piece.start :=
    congrArg Piece.size (shrink_piece above.le)
  simp only [piece, Piece.stop] at above below cut
  refine ⟨⟨by omega, ?_⟩, ?_⟩
  · rw [cut]
    simp only [shrink]
    omega
  · rw [cut]
    simp only [shrink]
    omega

theorem shift_placed (placed : reg.Placed) (within : change.toNat < reg.memorySize.toNat) :
    (reg.shift change).Placed := by
  obtain ⟨start, size⟩ := shift_located placed.toLocated within
  have user := shift_user placed within
  obtain ⟨⟨nonempty, phys⟩, host⟩ := placed
  exact ⟨⟨by omega, by omega⟩, by omega⟩

/-- What remains of an entry wraps no more than the entry, at addresses that are not lower. -/
theorem remains_placed (placed : reg.Placed) (range : SoundRange startAddr size) :
    ∀ part ∈ remains startAddr size reg,
      part.Placed ∧ reg.userspaceAddr.toNat ≤ part.userspaceAddr.toNat := by
  intro part member
  obtain ⟨rfl, -⟩ | ⟨rfl, low, high⟩ | ⟨rfl, low, high⟩ :=
    (mem_remains placed.toLocated range).mp member
  · exact ⟨placed, Nat.le_refl _⟩
  · exact ⟨shrink_placed placed low high, Nat.le_refl _⟩
  · obtain ⟨-, within⟩ := change_limit placed.toLocated range low.le high
    rw [shift_user placed within]
    exact ⟨shift_placed placed within, Nat.le_add_right _ _⟩

/-- What remains of an entry backs what the entry backs outside the range. -/
theorem remains_backs (located : reg.Located) (range : SoundRange startAddr size)
    (addr value : Nat) :
    (∃ part ∈ remains startAddr size reg, part.Backs addr value) ↔
      reg.Backs addr value ∧ ¬ InRange startAddr size addr := by
  have covers : reg.Backs addr value → reg.piece.start ≤ addr ∧ addr < reg.piece.stop := by
    rintro ⟨_, maps, -⟩
    exact maps.1
  simp only [mem_remains located range, InRange]
  constructor
  · rintro ⟨part, ⟨rfl, outside⟩ | ⟨rfl, low, high⟩ | ⟨rfl, low, high⟩, backs⟩
    · have := covers backs
      exact ⟨backs, by omega⟩
    · rw [shrink_backs low.le high.le] at backs
      exact ⟨backs.1, by omega⟩
    · obtain ⟨limit, within⟩ := change_limit located range low.le high
      rw [shift_backs located within] at backs
      exact ⟨backs.1, by omega⟩
  · rintro ⟨backs, outside⟩
    obtain ⟨above, below⟩ := covers backs
    by_cases apart :
        reg.piece.stop ≤ startAddr.toNat ∨ startAddr.toNat + size.toNat ≤ reg.piece.start
    · exact ⟨reg, .inl ⟨rfl, apart⟩, backs⟩
    by_cases front : addr < startAddr.toNat
    · refine ⟨_, .inr (.inl ⟨rfl, by omega, by omega⟩), ?_⟩
      exact (shrink_backs (by omega) (by omega)).mpr ⟨backs, front⟩
    · obtain ⟨limit, within⟩ := change_limit located range (by omega) (by omega)
      refine ⟨_, .inr (.inr ⟨rfl, by omega, by omega⟩), ?_⟩
      exact (shift_backs located within).mpr ⟨backs, by omega⟩

theorem remains_maps (placed : reg.Placed) (range : SoundRange startAddr size) (addr value : Nat) :
    MapsTo piece (remains startAddr size reg) addr value ↔
      reg.piece.Maps addr value ∧ ¬ InRange startAddr size addr := by
  rw [← placed.backs_iff, ← remains_backs placed.toLocated range]
  refine exists_congr fun part => and_congr_right fun member => ?_
  exact (remains_placed placed range part member).1.backs_iff.symm

end Pieces

/-- `left` is the table `mem` without a range. -/
structure Unassigned (startAddr size : UInt64) (mem left : List VhostMemoryRegion) : Prop where
  sound : ∀ reg ∈ left, reg.Sound
  maps : ∀ addr value, MapsTo piece left addr value ↔
    MapsTo piece mem addr value ∧ ¬ InRange startAddr size addr

variable {left mem : List VhostMemoryRegion} {size startAddr : UInt64}

theorem vhostDevUnassignMemory_remains
    (result : vhostDevUnassignMemory mem startAddr size = some left) :
    left = without startAddr size mem := by
  obtain ⟨out, loop, rfl⟩ := Option.map_eq_some_iff.mp result
  obtain ⟨front, back⟩ := unassignLoop_remains loop
  rw [front, back, without]

theorem mapsTo_remains (range : SoundRange startAddr size) (placed : ∀ reg ∈ mem, reg.Placed)
    (addr value : Nat) :
    MapsTo piece (mem.flatMap (remains startAddr size)) addr value ↔
      MapsTo piece mem addr value ∧ ¬ InRange startAddr size addr := by
  induction mem with
  | nil => simp
  | cons reg rest ih =>
    obtain ⟨regPlaced, restPlaced⟩ := List.forall_mem_cons.mp placed
    rw [List.flatMap_cons, mapsTo_append, mapsTo_cons, remains_maps regPlaced range,
      ih restPlaced, or_and_right]

theorem mapsTo_perm {right : List VhostMemoryRegion} (perm : left.Perm right) (addr value : Nat) :
    MapsTo piece left addr value ↔ MapsTo piece right addr value := by
  simp only [MapsTo, perm.mem_iff]

theorem vhostDevUnassignMemory_unassigned (range : SoundRange startAddr size)
    (sound : ∀ reg ∈ mem, reg.Sound)
    (result : vhostDevUnassignMemory mem startAddr size = some left) :
    Unassigned startAddr size mem left := by
  obtain rfl := vhostDevUnassignMemory_remains result
  have perm := without_perm startAddr size mem
  refine ⟨fun part member => ?_, fun addr value => ?_⟩
  · obtain ⟨reg, found, within⟩ := List.mem_flatMap.mp (perm.mem_iff.mp member)
    obtain ⟨placed, above⟩ := remains_placed (sound reg found).placed range part within
    exact ⟨placed.nonempty, placed.phys, Nat.lt_of_lt_of_le (sound reg found).user above,
      placed.host⟩
  · rw [mapsTo_perm perm]
    exact mapsTo_remains range (fun reg member => (sound reg member).placed) addr value

/-! ### Adding a range -/

section Merge

variable {reg new lower upper : VhostMemoryRegion}

theorem min_toNat (left right : UInt64) : (min left right).toNat = min left.toNat right.toNat := by
  change (if left ≤ right then left else right).toNat = _
  rw [Nat.min_def]
  simp only [UInt64.le_iff_toNat_le]
  split <;> rfl

theorem max_toNat (left right : UInt64) : (max left right).toNat = max left.toNat right.toNat := by
  change (if left ≤ right then right else left).toNat = _
  rw [Nat.max_def]
  simp only [UInt64.le_iff_toNat_le]
  split <;> rfl

theorem mergeRegions_comm : mergeRegions reg new = mergeRegions new reg := by
  have swapMin (left right : UInt64) : min left right = min right left :=
    UInt64.toNat_inj.mp (by rw [min_toNat, min_toNat, Nat.min_comm])
  have swapMax (left right : UInt64) : max left right = max right left :=
    UInt64.toNat_inj.mp (by rw [max_toNat, max_toNat, Nat.max_comm])
  rw [mergeRegions, mergeRegions, swapMin, swapMax, swapMin new.userspaceAddr]

theorem mergeRegions_fields (located : reg.Located) (newLocated : new.Located) :
    (mergeRegions reg new).piece.start = min new.piece.start reg.piece.start ∧
      (mergeRegions reg new).piece.size =
        (max new.piece.stop reg.piece.stop - min new.piece.start reg.piece.start) % 2 ^ 64 ∧
      (mergeRegions reg new).piece.target = min new.piece.target reg.piece.target := by
  have nonempty := located.nonempty
  have newNonempty := newLocated.nonempty
  have phys := located.phys
  have newPhys := newLocated.phys
  refine ⟨min_toNat _ _, ?_, min_toNat _ _⟩
  simp only [mergeRegions, piece, Piece.stop, UInt64.toNat_add, UInt64.toNat_sub, min_toNat,
    max_toNat, rangeGetLast_toNat nonempty phys, rangeGetLast_toNat newNonempty newPhys,
    UInt64.reduceToNat]
  omega

/-- The second range is behind the first one in both address spaces, with no end between them, and
together they are smaller than a space. -/
structure Joins (lower upper : VhostMemoryRegion) : Prop where
  adjoins : lower.piece.Adjoins upper.piece
  small : lower.piece.size + upper.piece.size < 2 ^ 64

def VhostMemoryRegion.join (lower upper : VhostMemoryRegion) : VhostMemoryRegion :=
  { lower with memorySize := lower.memorySize + upper.memorySize }

theorem Joins.piece_join (joins : Joins lower upper) :
    (lower.join upper).piece = lower.piece.join upper.piece := by
  have small := joins.small
  simp only [piece, Piece.join, VhostMemoryRegion.join, UInt64.toNat_add, Piece.mk.injEq,
    true_and, and_true] at small ⊢
  exact Nat.mod_eq_of_lt small

theorem Joins.maps (joins : Joins lower upper) (addr value : Nat) :
    (lower.join upper).piece.Maps addr value ↔
      lower.piece.Maps addr value ∨ upper.piece.Maps addr value := by
  rw [joins.piece_join, Piece.maps_join joins.adjoins]

theorem Joins.backs (joins : Joins lower upper) (addr value : Nat) :
    (lower.join upper).Backs addr value ↔ lower.Backs addr value ∨ upper.Backs addr value := by
  simp only [Backs, joins.maps, or_and_right, exists_or]

theorem Joins.located (joins : Joins lower upper) (lowerLocated : lower.Located)
    (upperLocated : upper.Located) : (lower.join upper).Located := by
  have nonempty : 0 < lower.piece.size := lowerLocated.nonempty
  have phys : upper.piece.stop ≤ 2 ^ 64 := upperLocated.phys
  have start := joins.adjoins.start
  have same := joins.piece_join
  have size : (lower.join upper).memorySize.toNat = lower.piece.size + upper.piece.size :=
    congrArg Piece.size same
  simp only [Piece.stop] at phys start
  refine ⟨by omega, ?_⟩
  change lower.piece.start + (lower.join upper).memorySize.toNat ≤ 2 ^ 64
  omega

theorem Joins.merged (joins : Joins lower upper) (lowerLocated : lower.Located)
    (upperLocated : upper.Located) : mergeRegions lower upper = lower.join upper := by
  obtain ⟨start, size, target⟩ := mergeRegions_fields lowerLocated upperLocated
  obtain ⟨⟨next, nextTarget⟩, small⟩ := joins
  simp only [piece, Piece.stop] at start size target next nextTarget small
  have sameStart : (mergeRegions lower upper).guestPhysAddr = lower.guestPhysAddr :=
    UInt64.toNat_inj.mp (by omega)
  have sameSize : (mergeRegions lower upper).memorySize = lower.memorySize + upper.memorySize :=
    UInt64.toNat_inj.mp (by rw [UInt64.toNat_add]; omega)
  have sameTarget : (mergeRegions lower upper).userspaceAddr = lower.userspaceAddr :=
    UInt64.toNat_inj.mp (by omega)
  rw [VhostMemoryRegion.join, ← sameStart, ← sameSize, ← sameTarget]

/-- `right` starts where `left` ends, in both address spaces and in 64 bits. -/
def Continues (left right : VhostMemoryRegion) : Prop :=
  left.guestPhysAddr + left.memorySize = right.guestPhysAddr ∧
    left.userspaceAddr + left.memorySize = right.userspaceAddr

theorem rangeGetLast_succ (offset len : UInt64) : rangeGetLast offset len + 1 = offset + len := by
  rw [rangeGetLast]
  grind

theorem regionsAdjacent_iff :
    regionsAdjacent reg new = true ↔ Continues reg new ∨ Continues new reg := by
  simp only [regionsAdjacent, rangeGetLast_succ, Bool.or_eq_true, Bool.and_eq_true,
    decide_eq_true_eq]
  rfl

theorem continues_iff : Continues lower upper ↔
    (lower.piece.start + lower.piece.size) % 2 ^ 64 = upper.piece.start ∧
      (lower.piece.target + lower.piece.size) % 2 ^ 64 = upper.piece.target := by
  rw [Continues, ← UInt64.toNat_inj, ← UInt64.toNat_inj, UInt64.toNat_add, UInt64.toNat_add]
  rfl

theorem mergeRegions_bounds (located : reg.Located) (newLocated : new.Located)
    (nonzero : (mergeRegions reg new).memorySize ≠ 0) :
    (mergeRegions reg new).piece.start = min new.piece.start reg.piece.start ∧
      (mergeRegions reg new).piece.stop = max new.piece.stop reg.piece.stop ∧
      (mergeRegions reg new).piece.target = min new.piece.target reg.piece.target := by
  obtain ⟨start, size, target⟩ := mergeRegions_fields located newLocated
  have positive : 0 < (mergeRegions reg new).piece.size := UInt64.pos_iff_ne_zero.mpr nonzero
  have phys : reg.piece.start + reg.piece.size ≤ 2 ^ 64 := located.phys
  have newPhys : new.piece.start + new.piece.size ≤ 2 ^ 64 := newLocated.phys
  refine ⟨start, ?_, target⟩
  simp only [Piece.stop] at size ⊢
  omega

/-- The second range starts behind the first one, across the end of userspace. -/
structure MeetsEnd (lower upper : VhostMemoryRegion) : Prop where
  start : upper.piece.start = lower.piece.stop
  wraps : lower.piece.target + lower.piece.size = upper.piece.target + 2 ^ 64

/-- What a merge that does not fail does: it meets the end of userspace, or it joins two ranges. -/
theorem Continues.outcome (lowerLocated : lower.Located) (upperLocated : upper.Located)
    (continues : Continues lower upper) (nonzero : (mergeRegions lower upper).memorySize ≠ 0) :
    MeetsEnd lower upper ∨ Joins lower upper := by
  obtain ⟨start, stop, -⟩ := mergeRegions_bounds lowerLocated upperLocated nonzero
  obtain ⟨phys, user⟩ := continues_iff.mp continues
  have userBound : lower.piece.target < 2 ^ 64 := UInt64.toNat_lt _
  have bound : (mergeRegions lower upper).piece.size < 2 ^ 64 := UInt64.toNat_lt _
  simp only [Piece.stop] at stop
  have next : upper.piece.start = lower.piece.stop := by
    rw [Piece.stop]
    omega
  rw [Piece.stop] at next
  by_cases wraps : lower.piece.target + lower.piece.size < 2 ^ 64
  · exact .inr ⟨⟨next, by omega⟩, by omega⟩
  · exact .inl ⟨next, by omega⟩

theorem merge_outcome (regLocated : reg.Located) (newLocated : new.Located)
    (adjacent : regionsAdjacent reg new = true) (nonzero : (mergeRegions reg new).memorySize ≠ 0) :
    (MeetsEnd reg new ∨ MeetsEnd new reg) ∨ Joins reg new ∨ Joins new reg := by
  rcases regionsAdjacent_iff.mp adjacent with continues | continues
  · exact (continues.outcome regLocated newLocated nonzero).imp .inl .inl
  · rw [mergeRegions_comm] at nonzero
    exact (continues.outcome newLocated regLocated nonzero).imp .inr .inr

theorem Joins.sound (joins : Joins lower upper) (lowerSound : lower.Sound)
    (upperSound : upper.Sound) : (lower.join upper).Sound := by
  obtain ⟨nonempty, phys⟩ := joins.located lowerSound.placed.toLocated upperSound.placed.toLocated
  have host : upper.piece.target + upper.piece.size ≤ 2 ^ 64 := upperSound.host
  have target := joins.adjoins.target
  have size : (lower.join upper).memorySize.toNat = lower.piece.size + upper.piece.size :=
    congrArg Piece.size joins.piece_join
  refine ⟨nonempty, phys, lowerSound.user, ?_⟩
  change lower.piece.target + (lower.join upper).memorySize.toNat ≤ 2 ^ 64
  omega

/-- Sound entries do not meet the end of userspace: host memory has no null page. -/
theorem mergeRegions_maps (regSound : reg.Sound) (newSound : new.Sound)
    (adjacent : regionsAdjacent reg new = true) (nonzero : (mergeRegions reg new).memorySize ≠ 0) :
    (mergeRegions reg new).Sound ∧ ∀ addr value, (mergeRegions reg new).piece.Maps addr value ↔
      reg.piece.Maps addr value ∨ new.piece.Maps addr value := by
  have regLocated := regSound.placed.toLocated
  have newLocated := newSound.placed.toLocated
  have apart : ∀ {lower upper : VhostMemoryRegion}, lower.Sound → upper.Sound →
      ¬ MeetsEnd lower upper := by
    intro lower upper lowerSound upperSound meets
    have host : lower.piece.target + lower.piece.size ≤ 2 ^ 64 := lowerSound.host
    have user : 0 < upper.piece.target := upperSound.user
    have wraps := meets.wraps
    omega
  obtain (meets | meets) | joins | joins := merge_outcome regLocated newLocated adjacent nonzero
  · exact absurd meets (apart regSound newSound)
  · exact absurd meets (apart newSound regSound)
  · rw [joins.merged regLocated newLocated]
    exact ⟨joins.sound regSound newSound, joins.maps⟩
  · rw [mergeRegions_comm, joins.merged newLocated regLocated]
    exact ⟨joins.sound newSound regSound, fun addr value => (joins.maps addr value).trans or_comm⟩

end Merge

/-- `left` is the table `mem` with the range `new` added. -/
structure Assigned (new : VhostMemoryRegion) (mem left : List VhostMemoryRegion) : Prop where
  sound : ∀ reg ∈ left, reg.Sound
  maps : ∀ addr value, MapsTo piece left addr value ↔
    MapsTo piece mem addr value ∨ new.piece.Maps addr value

namespace Assigned

variable {reg new : VhostMemoryRegion} {mem left : List VhostMemoryRegion}

theorem nil (newSound : new.Sound) : Assigned new [] [new] :=
  ⟨by simpa using newSound, by simp⟩

theorem merge {merged : VhostMemoryRegion}
    (maps : ∀ addr value, merged.piece.Maps addr value ↔
      reg.piece.Maps addr value ∨ new.piece.Maps addr value)
    (rest : Assigned merged mem left) : Assigned new (reg :: mem) left :=
  ⟨rest.sound, fun addr value => by
    rw [rest.maps, maps, mapsTo_cons, or_left_comm, or_assoc]⟩

end Assigned

theorem assignMerged_assigned : ∀ {mem : List VhostMemoryRegion} {merged : VhostMemoryRegion}
    {out : VhostMemoryRegion × List VhostMemoryRegion}, (∀ reg ∈ mem, reg.Sound) →
    merged.Sound → assignMerged merged mem = some out → Assigned merged mem (out.1 :: out.2)
  | [], merged, out, _, mergedSound, result => by
    simp only [assignMerged, Option.some.injEq] at result
    subst result
    exact .nil mergedSound
  | reg :: rest, merged, out, sound, mergedSound, result => by
    obtain ⟨regSound, restSound⟩ := List.forall_mem_cons.mp sound
    rw [assignMerged] at result
    split at result
    · cases result
    split at result
    · obtain ⟨tail, tailResult, rfl⟩ := Option.map_eq_some_iff.mp result
      have tailAssigned := assignMerged_assigned restSound mergedSound tailResult
      refine ⟨fun entry member => ?_, fun addr value => ?_⟩
      · have := tailAssigned.sound entry
        simp only [List.mem_cons] at member this
        grind
      · have := tailAssigned.maps addr value
        simp only [mapsTo_cons] at this ⊢
        rw [or_left_comm, this, or_assoc]
    next adjacent =>
      split at result
      · cases result
      next nonzero =>
        rw [Bool.not_eq_true', Bool.not_eq_false] at adjacent
        obtain ⟨nextSound, maps⟩ := mergeRegions_maps regSound mergedSound adjacent nonzero
        exact .merge maps (assignMerged_assigned restSound nextSound result)

/-- Where a range is merged or appended does not matter. -/
theorem vhostDevAssignMemory_merged {new : VhostMemoryRegion} {mem : List VhostMemoryRegion}
    (nonempty : new.memorySize ≠ 0) :
    (assignMerged new mem = none ∧ vhostDevAssignMemory new mem = none) ∨
      ∃ out left, assignMerged new mem = some out ∧ vhostDevAssignMemory new mem = some left ∧
        left.Perm (out.1 :: out.2) := by
  induction mem with
  | nil => exact .inr ⟨_, _, rfl, by rw [vhostDevAssignMemory, if_neg nonempty], .refl _⟩
  | cons reg rest ih =>
    rw [assignMerged, vhostDevAssignMemory]
    split
    · exact .inl ⟨rfl, rfl⟩
    split
    · obtain ⟨merged, assigned⟩ | ⟨out, left, merged, assigned, perm⟩ := ih
      · exact .inl ⟨by rw [merged]; rfl, by rw [assigned]; rfl⟩
      · exact .inr ⟨_, _, by rw [merged]; rfl, by rw [assigned]; rfl,
          (perm.cons reg).trans (.swap _ _ _)⟩
    split
    · exact .inl ⟨rfl, rfl⟩
    · cases assignMerged (mergeRegions reg new) rest with
      | none => exact .inl ⟨rfl, rfl⟩
      | some out => exact .inr ⟨_, _, rfl, rfl, .refl _⟩

theorem vhostDevAssignMemory_assigned {new : VhostMemoryRegion} (newSound : new.Sound)
    (sound : ∀ reg ∈ mem, reg.Sound) (result : vhostDevAssignMemory new mem = some left) :
    Assigned new mem left := by
  have nonempty : new.memorySize ≠ 0 := UInt64.pos_iff_ne_zero.mp newSound.nonempty
  obtain ⟨-, failed⟩ | ⟨out, table, merged, assigned, perm⟩ :=
    @vhostDevAssignMemory_merged new mem nonempty
  · rw [result] at failed
    cases failed
  cases assigned.symm.trans result
  have table := assignMerged_assigned sound newSound merged
  exact ⟨fun reg member => table.sound reg (perm.mem_iff.mp member), fun addr value =>
    (mapsTo_perm perm addr value).trans (table.maps addr value)⟩

/-! ### The shortcuts -/

section Find

variable {mem : List VhostMemoryRegion} {startAddr size : UInt64}

theorem vhostDevFindReg_none_iff (located : ∀ reg ∈ mem, reg.Located)
    (range : SoundRange startAddr size) :
    vhostDevFindReg mem startAddr size = none ↔
      ∀ addr value, MapsTo piece mem addr value → ¬ InRange startAddr size addr := by
  rw [vhostDevFindReg, List.find?_eq_none]
  constructor
  · rintro apart addr value ⟨reg, member, ⟨low, high⟩, -⟩ ⟨above, below⟩
    refine apart reg member (((located reg member).overlaps_iff range).mpr ?_)
    omega
  · intro free reg member overlap
    obtain ⟨low, high⟩ := ((located reg member).overlaps_iff range).mp overlap
    have nonempty := range.nonempty
    have regNonempty := (located reg member).nonempty
    -- the higher of the two starts lies in both
    have common : reg.piece.Covers (max reg.piece.start startAddr.toNat) := by
      have stop : reg.piece.stop = reg.piece.start + reg.memorySize.toNat := rfl
      simp only [Piece.Covers]
      omega
    refine free _ _ ⟨reg, member, common, rfl⟩ ?_
    simp only [InRange]
    omega

end Find

end VhostUser.Qemu
