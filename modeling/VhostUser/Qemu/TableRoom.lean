import Mathlib.Algebra.Order.BigOperators.Group.List
import VhostUser.Qemu.TableMap

/-!
Contract: the room that `vhost_set_memory` needs in `dev->mem->regions`.

The call makes the array one entry longer at its start. Removing the section may split an entry,
which takes that place; the section itself is then appended behind it.

Owns: for which sections every store is inside the array.
-/

namespace VhostUser.Qemu

open VhostUser.Lib
open VhostMemoryRegion

/-! ### Where the loops store -/

def StoresBelow (bound : Nat) (t : VhostTable) : Prop := ∀ index ∈ t.writes, index < bound

section Stores

variable {bound index n left fromIdx toIdx : Nat} {reg new : VhostMemoryRegion} {t : VhostTable}
  {startAddr size : UInt64} {flags : UnassignFlags}

theorem StoresBelow.put (below : StoresBelow bound t) (inside : index < bound) :
    StoresBelow bound (t.put index reg) :=
  List.forall_mem_cons.mpr ⟨inside, below⟩

theorem StoresBelow.clone (below : StoresBelow bound t) (inside : toIdx < bound) :
    StoresBelow bound (t.clone fromIdx toIdx) := by
  unfold VhostTable.clone
  split
  · exact below.put inside
  · exact below

theorem StoresBelow.nregions {count : Nat} (below : StoresBelow bound t) :
    StoresBelow bound { t with nregions := count } := below

theorem unassignInPlace_storesBelow (behind : toIdx ≤ fromIdx) (whole : fromIdx + left ≤ n)
    (below : StoresBelow (n + 1) t) :
    StoresBelow (n + 1)
      (VhostTable.last (unassignInPlace startAddr size n left fromIdx toIdx flags t)) := by
  induction left generalizing fromIdx toIdx flags t with
  | zero => exact below
  | succ left ih =>
    have inside : toIdx < n + 1 := by omega
    have cloned := @StoresBelow.clone (n + 1) fromIdx toIdx t below inside
    rw [unassignInPlace]
    dsimp only
    generalize t.clone fromIdx toIdx = mid at cloned
    have stored := fun reg => @StoresBelow.put (n + 1) toIdx reg mid cloned inside
    split
    · exact ih (by omega) (by omega) cloned
    split
    · exact cloned
    split
    · exact ih (by omega) (by omega) cloned.nregions
    split
    · split
      · exact stored _
      · exact ih (by omega) (by omega) (stored _)
    split
    · split
      · exact stored _
      · exact ih (by omega) (by omega) (stored _)
    split
    · exact cloned
    have both := fun first second =>
      @StoresBelow.put (n + 1) toIdx second _ (@StoresBelow.put (n + 1) n first mid cloned
        (Nat.lt_succ_self n)) inside
    split
    · exact both _ _
    split
    · exact (both _ _).put (Nat.lt_succ_self n)
    · exact ih (by omega) (by omega)
        ((both _ _).put (Nat.lt_succ_self n)).nregions

theorem unassignInPlace_absent (absent : ∀ index, fromIdx ≤ index → index < fromIdx + left →
      rangesOverlap (t.regions index).guestPhysAddr (t.regions index).memorySize startAddr size =
        false) :
    unassignInPlace startAddr size n left fromIdx fromIdx flags t = .ok t := by
  induction left generalizing fromIdx with
  | zero => rfl
  | succ left ih =>
    have same : t.clone fromIdx fromIdx = t := if_neg (not_not.mpr rfl)
    rw [unassignInPlace]
    rw [same, absent fromIdx (Nat.le_refl _) (by omega), if_pos (by rfl)]
    exact ih fun index low high => absent index (by omega) (by omega)

theorem assignInPlace_storesBelow {merged : Option Nat} (behind : toIdx ≤ fromIdx)
    (whole : fromIdx + left ≤ n) (place : ∀ index ∈ merged, index ≤ n)
    (below : StoresBelow (n + 1) t) :
    StoresBelow (n + 1)
      (VhostTable.last (assignInPlace left fromIdx ⟨toIdx, merged, new⟩ t >>= assignEnd)) := by
  induction left generalizing fromIdx toIdx merged new t with
  | zero =>
    change StoresBelow _ (VhostTable.last (assignEnd (⟨toIdx, merged, new⟩, t)))
    have stored : StoresBelow (n + 1) (t.put toIdx new) :=
      below.put (by omega)
    cases merged with
    | some index =>
      rw [assignEnd]
      split
      · exact below
      · exact below.nregions
    | none =>
      rw [assignEnd]
      split
      · exact stored
      split
      · exact stored
      · exact stored.nregions
  | succ left ih =>
    have inside : toIdx < n + 1 := by omega
    have cloned := @StoresBelow.clone (n + 1) fromIdx toIdx t below inside
    rw [assignInPlace.eq_def]
    dsimp only
    generalize t.clone fromIdx toIdx = mid at cloned
    split
    · exact cloned
    split
    · exact ih (by omega) (by omega) place cloned
    cases merged with
    | some index =>
      have stored := fun reg => @StoresBelow.put (n + 1) index reg mid cloned
        (Nat.lt_succ_of_le (place index rfl))
      dsimp only
      split
      · exact cloned
      split
      · exact stored _
      · exact ih (by omega) (by omega) place (stored _)
    | none =>
      have stored := fun reg => @StoresBelow.put (n + 1) toIdx reg mid cloned inside
      dsimp only
      split
      · exact stored _
      · refine ih (by omega) (by omega) ?_ (stored _)
        rintro index ⟨⟩
        exact Nat.le_of_lt_succ inside

theorem assignInPlace_appends
    (distant : ∀ index, fromIdx ≤ index → index < fromIdx + left →
      regionsApart (t.regions index) new = true ∧ regionsAdjacent (t.regions index) new = false) :
    assignInPlace left fromIdx ⟨fromIdx, none, new⟩ t = .ok (⟨fromIdx + left, none, new⟩, t) := by
  induction left generalizing fromIdx with
  | zero => rfl
  | succ left ih =>
    have same : t.clone fromIdx fromIdx = t := if_neg (not_not.mpr rfl)
    obtain ⟨apart, distinct⟩ := distant fromIdx (Nat.le_refl _) (by omega)
    rw [assignInPlace]
    rw [same, apart, distinct, if_neg (by decide), if_pos (by rfl),
      ih fun index low high => distant index (by omega) (by omega)]
    rw [Nat.add_right_comm, Nat.add_assoc]

end Stores

/-! ### Sections inside an entry -/

def SplitBy (startAddr size : UInt64) (reg : VhostMemoryRegion) : Prop :=
  reg.piece.start < startAddr.toNat ∧ startAddr.toNat + size.toNat < reg.piece.stop

section Splitting

variable {startAddr size ram : UInt64} {reg : VhostMemoryRegion}
  {mem left : List VhostMemoryRegion}

theorem remains_length_le (located : reg.Located) (range : SoundRange startAddr size)
    (whole : ¬ SplitBy startAddr size reg) : (remains startAddr size reg).length ≤ 1 := by
  rw [remains_eq located range]
  split_ifs with apart low high
  · exact Nat.le_refl _
  · exact absurd ⟨low, high⟩ whole
  all_goals simp

theorem remains_split (located : reg.Located) (range : SoundRange startAddr size)
    (split : SplitBy startAddr size reg) : remains startAddr size reg =
      [reg.shrink startAddr, reg.shift (rangeGetLast startAddr size + 1 - reg.guestPhysAddr)] := by
  obtain ⟨low, high⟩ := split
  rw [remains_eq located range, if_neg (by omega), if_pos low, if_pos high]
  rfl

section

variable (remaining : Remaining startAddr size mem left) (range : SoundRange startAddr size)
  (located : ∀ reg ∈ mem, reg.Located)
include remaining range located

theorem Remaining.length_le
    (whole : ∀ reg ∈ mem, ¬ SplitBy startAddr size reg) : left.length ≤ mem.length := by
  rw [remaining.perm.length_eq, List.length_flatMap]
  calc (mem.map fun reg => (remains startAddr size reg).length).sum
      ≤ (mem.map fun _ => 1).sum :=
        List.sum_le_sum fun reg member =>
          remains_length_le (located reg member) range (whole reg member)
    _ = mem.length := by simp

/-- A range that splits an entry meets no other, and leaves one entry more. -/
theorem Remaining.length_split
    (apart : mem.Pairwise Apart) (member : reg ∈ mem) (split : SplitBy startAddr size reg) :
    left.length = mem.length + 1 := by
  have others : ∀ other ∈ mem, Apart reg other → remains startAddr size other = [other] := by
    intro other otherMember apart
    obtain ⟨low, high⟩ := split
    rw [remains_eq (located other otherMember) range, if_pos]
    rcases apart with apart | apart <;> omega
  obtain ⟨front, back, rfl⟩ := List.append_of_mem member
  obtain ⟨-, backApart, frontApart⟩ := List.pairwise_append.mp apart
  have unchanged : ∀ part : List VhostMemoryRegion, (∀ other ∈ part, other ∈ front ++ reg :: back) →
      (∀ other ∈ part, Apart reg other) → part.flatMap (remains startAddr size) = part := by
    intro part members aparts
    rw [List.flatMap_congr fun other inPart => others other (members other inPart)
      (aparts other inPart), List.flatMap_singleton']
  rw [remaining.perm.length_eq, List.flatMap_append, List.flatMap_cons,
    unchanged front (fun _ => List.mem_append_left _)
      fun other inFront => (frontApart other inFront reg List.mem_cons_self).symm,
    unchanged back (fun _ inBack => List.mem_append_right _ (List.mem_cons_of_mem _ inBack))
      (List.pairwise_cons.mp backApart).1,
    remains_split (located reg member) range split]
  simp only [List.length_append, List.length_cons, List.length_nil]
  omega

/-- A range that splits an entry, and has other addresses than the entry, adjoins nothing. -/
theorem Remaining.distant (member : reg ∈ mem) (split : SplitBy startAddr size reg)
    (other : ram ≠ reg.userspaceAddr + startAddr - reg.guestPhysAddr) :
    ∀ part ∈ left, regionsApart part ⟨startAddr, size, ram⟩ = true ∧
      regionsAdjacent part ⟨startAddr, size, ram⟩ = false := by
  intro part partMember
  have regLocated := located reg member
  have partLocated := remaining.located part partMember
  have partNonempty := partLocated.nonempty
  have parts := remains_split regLocated range split
  obtain ⟨low, high⟩ := split
  obtain ⟨limit, within⟩ := change_limit regLocated range (by omega) high
  have phys := regLocated.phys
  have partPhys := partLocated.phys
  -- the two parts of the entry are next to the range, and they are the only ones
  have inLeft : ∀ piece ∈ remains startAddr size reg, piece ∈ left := fun piece inRemains =>
    remaining.perm.mem_iff.mpr (List.mem_flatMap.mpr ⟨reg, member, inRemains⟩)
  rw [parts] at inLeft
  obtain ⟨lowMember, highMember⟩ := List.forall_mem_cons.mp inLeft
  replace highMember := List.forall_mem_singleton.mp highMember
  refine ⟨(regionsApart_iff partLocated (newRegion_located range)).mpr
    (remaining.outside part partMember), ?_⟩
  rw [← Bool.not_eq_true, regionsAdjacent_iff]
  have cut := shrink_piece low.le
  obtain ⟨start, rest⟩ := shift_located regLocated within
  simp only [piece, Piece.stop] at low high limit
  rintro (continues | continues)
  · have place := (continues_iff.mp continues).1
    simp only [piece] at place
    obtain rfl : reg.shrink startAddr = part := by
      refine @entry_unique part left _ (startAddr.toNat - 1) remaining.apart partMember lowMember
        ⟨?_, ?_⟩ ⟨?_, ?_⟩
      · simp only [piece]
        omega
      · simp only [piece, Piece.stop]
        omega
      · rw [cut]
        simp only [piece, Piece.before]
        omega
      · rw [cut]
        simp only [piece, Piece.before, Piece.stop]
        omega
    refine other ?_
    have target := continues.2
    simp only [shrink] at target
    grind
  · have place := (continues_iff.mp continues).1
    simp only [piece] at place
    obtain rfl : reg.shift (rangeGetLast startAddr size + 1 - reg.guestPhysAddr) = part := by
      refine @entry_unique part left _ (startAddr.toNat + size.toNat) remaining.apart partMember
        highMember ⟨?_, ?_⟩ ⟨?_, ?_⟩
      all_goals
        simp only [piece, Piece.stop, start, rest]
        omega
    refine other ?_
    have target := continues.2
    simp only [shift, rangeGetLast_succ] at target
    grind

end

end Splitting

section Call

variable {startAddr size ram : UInt64} {t mid : VhostTable}

theorem unassign_stage (fresh : t.writes = []) (range : SoundRange startAddr size)
    (located : ∀ reg ∈ t.entries, reg.Located) (apart : t.entries.Pairwise Apart) :
    ∃ mid, t.unassign startAddr size = .ok mid ∧
      Remaining startAddr size t.entries mid.entries ∧ StoresBelow (t.nregions + 1) mid := by
  have refines := unassign_refines t startAddr size
  obtain ⟨left, removed, remaining⟩ := vhostDevUnassignMemory_remaining range located apart
  rw [removed] at refines
  obtain ⟨mid, ended, rfl⟩ := refines
  refine ⟨mid, ended, remaining, ?_⟩
  have below : StoresBelow (t.nregions + 1) (VhostTable.last (t.unassign startAddr size)) := by
    refine unassignInPlace_storesBelow (Nat.le_refl _) (Nat.zero_add _).le ?_
    rw [StoresBelow, fresh]
    simp
  rwa [ended] at below

theorem unassign_again {mem : List VhostMemoryRegion} (range : SoundRange startAddr size)
    (remaining : Remaining startAddr size mem mid.entries) :
    mid.unassign startAddr size = .ok mid := by
  refine unassignInPlace_absent fun index low high => ?_
  have member : mid.regions index ∈ mid.entries := cell_mem low high
  have outside := remaining.outside _ member
  rw [← Bool.not_eq_true, (remaining.located _ member).overlaps_iff range]
  omega

/-- A section that splits an entry, and has other addresses, is appended behind both parts. -/
theorem assign_behind_split {reg : VhostMemoryRegion} (range : SoundRange startAddr size)
    (located : ∀ reg ∈ t.entries, reg.Located) (apart : t.entries.Pairwise Apart)
    (remaining : Remaining startAddr size t.entries mid.entries) (member : reg ∈ t.entries)
    (split : SplitBy startAddr size reg)
    (other : ram ≠ reg.userspaceAddr + startAddr - reg.guestPhysAddr) :
    t.nregions + 1 ∈ (VhostTable.last (mid.assign ⟨startAddr, size, ram⟩)).writes := by
  have count := remaining.length_split range located apart member split
  rw [VhostTable.entries, length_cells, VhostTable.entries, length_cells] at count
  have appends : assignInPlace mid.nregions 0 ⟨0, none, ⟨startAddr, size, ram⟩⟩ mid =
      .ok (⟨0 + mid.nregions, none, ⟨startAddr, size, ram⟩⟩, mid) :=
    assignInPlace_appends fun index low high =>
      remaining.distant range located member split other _ (cell_mem low high)
  have ended : mid.assign ⟨startAddr, size, ram⟩ =
      assignEnd (⟨0 + mid.nregions, none, ⟨startAddr, size, ram⟩⟩, mid) := by
    rw [VhostTable.assign, appends]
    rfl
  have room : ¬ (mid.put (t.nregions + 1) ⟨startAddr, size, ram⟩).nregions + 1 <
      t.nregions + 1 + 1 := by
    simp only [VhostTable.put]
    omega
  rw [ended, Nat.zero_add, count, assignEnd, if_neg range.ne_zero, if_neg room]
  exact List.mem_cons_self

end Call

/-- Every store of `vhost_set_memory` is inside the array, except when the added section lies
inside an entry that has other addresses for it. -/
theorem setMemory_stores_iff (t : VhostTable) (startAddr size ram : UInt64) (add logDirty : Bool)
    (fresh : t.writes = []) (located : ∀ reg ∈ t.entries, reg.Located)
    (apart : t.entries.Pairwise Apart) (bounded : startAddr.toNat + size.toNat ≤ 2 ^ 64) :
    (∀ index ∈ (VhostTable.last (t.setMemory startAddr size ram add logDirty)).writes,
      index < t.nregions + 1) ↔
      ¬ ((add && !logDirty) = true ∧ size ≠ 0 ∧ ∃ reg ∈ t.entries, SplitBy startAddr size reg ∧
        ram ≠ reg.userspaceAddr + startAddr - reg.guestPhysAddr) := by
  have none : ∀ index ∈ t.writes, index < t.nregions + 1 := by simp [fresh]
  rw [VhostTable.setMemory]
  by_cases empty : size = 0
  · rw [if_pos empty]
    exact iff_of_true none fun fails => fails.2.1 empty
  rw [if_neg empty]
  have range : SoundRange startAddr size :=
    ⟨UInt64.pos_iff_ne_zero.mpr empty, bounded⟩
  obtain ⟨mid, removed, remaining, below⟩ := unassign_stage fresh range located apart
  have stages : ∀ add, t.update startAddr size ram add =
      if add then mid.assign ⟨startAddr, size, ram⟩ else mid.unassign startAddr size := by
    intro add
    rw [VhostTable.update, removed]
    rfl
  generalize (add && !logDirty) = adding
  cases adding with
  | false =>
    refine iff_of_true ?_ fun fails => absurd fails.1 (by decide)
    rw [if_neg (by simp)]
    split
    · exact none
    · rw [stages, if_neg (by decide), unassign_again range remaining]
      exact below
  | true =>
    have unchanged := @vhostDevCmpMemory_false_iff startAddr size ram _ range located apart
    by_cases same : vhostDevCmpMemory t.entries startAddr size ram = false
    · rw [if_pos (by simp [same])]
      refine iff_of_true none ?_
      rintro ⟨-, -, reg, member, ⟨low, high⟩, other⟩
      obtain ⟨container, found, first, last, equal⟩ := unchanged.mp same
      have nonempty := range.nonempty
      obtain rfl := @entry_unique reg _ container startAddr.toNat apart member found
        ⟨by omega, by omega⟩ ⟨by omega, by omega⟩
      exact other equal
    rw [if_neg (by simp [same]), if_neg (by simp), stages, if_pos rfl]
    constructor
    · rintro inside ⟨-, -, reg, member, split, other⟩
      have stored := assign_behind_split range located apart remaining member split other
      exact absurd (inside _ stored) (Nat.lt_irrefl _)
    · intro fits
      have whole : ∀ reg ∈ t.entries, ¬ SplitBy startAddr size reg := by
        intro reg member split
        refine fits ⟨rfl, empty, reg, member, split, fun equal => same (unchanged.mpr ?_)⟩
        exact ⟨reg, member, split.1.le, split.2.le, equal⟩
      have count := remaining.length_le range located whole
      rw [VhostTable.entries, length_cells, VhostTable.entries, length_cells] at count
      exact assignInPlace_storesBelow (Nat.le_refl _) (by omega) (by simp) below

def threePages : VhostTable := ⟨1, fun _ => ⟨0, 0x3000, 0x7f0000000000⟩, []⟩

/-- A section that meets the end of an entry and adjoins nothing fits. -/
theorem setMemory_stores_tail : threePages.writes = [] ∧
    ∀ index ∈ (VhostTable.last (threePages.setMemory 0x2000 0x2000 0x7f5000000000 true
      false)).writes, index < 2 := by
  have entries : threePages.entries = [⟨0, 0x3000, 0x7f0000000000⟩] := rfl
  refine ⟨rfl, (setMemory_stores_iff threePages 0x2000 0x2000 0x7f5000000000 true false rfl ?_ ?_
    (by decide)).mpr ?_⟩
  · rw [entries, List.forall_mem_singleton]
    exact ⟨by decide, by decide⟩
  · rw [entries]
    exact List.pairwise_singleton _ _
  rintro ⟨-, -, reg, member, ⟨-, high⟩, -⟩
  rw [entries, List.mem_singleton] at member
  subst member
  exact absurd high (by decide)

/-- The page in the middle moves: the entry is split, which takes the reserved place, and the page
is stored behind the array. -/
theorem setMemory_overruns :
    threePages.writes = [] ∧ (∀ reg ∈ threePages.entries, reg.Located) ∧
      threePages.entries.Pairwise Apart ∧
      ¬ ∀ index ∈ (VhostTable.last (threePages.setMemory 0x1000 0x1000 0x7f5000000000 true
        false)).writes, index < threePages.nregions + 1 := by
  have entries : threePages.entries = [⟨0, 0x3000, 0x7f0000000000⟩] := rfl
  refine ⟨rfl, ?_, ?_, by decide +kernel⟩
  · rw [entries, List.forall_mem_singleton]
    exact ⟨by decide, by decide⟩
  · rw [entries]
    exact List.pairwise_singleton _ _

end VhostUser.Qemu
