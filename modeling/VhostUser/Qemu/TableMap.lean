import VhostUser.Qemu.VhostTable

/-!
Contract: `vhost_set_memory` on a table of disjoint entries, as an update of a partial map from
guest-physical to userspace addresses.

A section replaces what the table maps in its range, or takes it away. Two ranges are merged when
one continues the other in both address spaces, and 64-bit sums let a range continue another
across the end of a space: there the merged size is 0, or the merged range starts at the wrong
userspace address.

Owns: when exactly an update gives the updated map and no assertion fails.
-/

namespace VhostUser.Qemu

open VhostUser.Lib
open VhostMemoryRegion

/-! ### Disjoint entries -/

def Apart (left right : VhostMemoryRegion) : Prop :=
  left.piece.stop ≤ right.piece.start ∨ right.piece.stop ≤ left.piece.start

section Geometry

variable {reg other part new : VhostMemoryRegion} {startAddr size : UInt64} {addr : Nat}
  {mem left : List VhostMemoryRegion}

theorem Apart.symm (apart : Apart reg other) : Apart other reg := Or.symm apart

instance : Std.Symm Apart := ⟨fun _ _ => Apart.symm⟩

theorem Apart.not_covers (apart : Apart reg other) (covers : reg.piece.Covers addr) :
    ¬ other.piece.Covers addr := by
  rintro ⟨low, high⟩
  obtain ⟨above, below⟩ := covers
  rcases apart with apart | apart <;> omega

theorem apart_of_covers (located : reg.Located) (otherLocated : other.Located)
    (none : ∀ addr, reg.piece.Covers addr → ¬ other.piece.Covers addr) : Apart reg other := by
  have nonempty := located.nonempty
  have otherNonempty := otherLocated.nonempty
  have stop : reg.piece.stop = reg.piece.start + reg.memorySize.toNat := rfl
  have otherStop : other.piece.stop = other.piece.start + other.memorySize.toNat := rfl
  have first := none (max reg.piece.start other.piece.start)
  simp only [Piece.Covers] at first
  rw [Apart]
  omega

theorem Apart.within (apart : Apart reg other) (low : reg.piece.start ≤ part.piece.start)
    (high : part.piece.stop ≤ reg.piece.stop) : Apart part other := by
  rcases apart with apart | apart
  · exact .inl (high.trans apart)
  · exact .inr (apart.trans low)

theorem VhostMemoryRegion.Located.covers_start (located : reg.Located) :
    reg.piece.Covers reg.piece.start := by
  have := located.nonempty
  refine ⟨Nat.le_refl _, ?_⟩
  exact Nat.lt_add_of_pos_right this

/-! ### Removing never fails -/

theorem shrink_nonempty (above : reg.piece.start < startAddr.toNat) :
    (reg.shrink startAddr).memorySize ≠ 0 := by
  intro empty
  have cut := congrArg Piece.size (shrink_piece above.le)
  simp only [piece, Piece.before, empty, UInt64.toNat_zero] at above cut
  omega

theorem shift_nonempty {change : UInt64} (located : reg.Located)
    (within : change.toNat < reg.memorySize.toNat) : (reg.shift change).memorySize ≠ 0 := by
  intro empty
  have rest := (shift_located located within).2
  rw [empty, UInt64.toNat_zero] at rest
  omega

/-- What the counters say of the entries to go: whether one before them has the first or the last
address of the range, one of its addresses, or all. -/
structure FlagsFit (startAddr size : UInt64) (flags : UnassignFlags)
    (mem : List VhostMemoryRegion) : Prop where
  overlapEnd : flags.overlapEnd = true → ∀ reg ∈ mem, ¬ reg.piece.Covers startAddr.toNat
  overlapStart : flags.overlapStart = true →
    ∀ reg ∈ mem, ¬ reg.piece.Covers (startAddr.toNat + size.toNat - 1)
  overlapMiddle : flags.overlapMiddle = true →
    ∃ addr, InRange startAddr size addr ∧ ∀ reg ∈ mem, ¬ reg.piece.Covers addr
  split : flags.split = true →
    ∀ reg ∈ mem, ∀ addr, InRange startAddr size addr → ¬ reg.piece.Covers addr

theorem FlagsFit.tail {flags : UnassignFlags} (fit : FlagsFit startAddr size flags (reg :: mem)) :
    FlagsFit startAddr size flags mem where
  overlapEnd set other member := fit.overlapEnd set other (List.mem_cons_of_mem _ member)
  overlapStart set other member := fit.overlapStart set other (List.mem_cons_of_mem _ member)
  overlapMiddle set := by
    obtain ⟨addr, inside, free⟩ := fit.overlapMiddle set
    exact ⟨addr, inside, fun other member => free other (List.mem_cons_of_mem _ member)⟩
  split set other member := fit.split set other (List.mem_cons_of_mem _ member)

theorem unassignLoop_total (range : SoundRange startAddr size) :
    ∀ {mem : List VhostMemoryRegion} {flags : UnassignFlags}, (∀ reg ∈ mem, reg.Located) →
      mem.Pairwise Apart → FlagsFit startAddr size flags mem →
      (unassignLoop startAddr size mem flags).isSome
  | [], _, _, _, _ => rfl
  | reg :: rest, flags, located, apart, fit => by
    have nonempty := range.nonempty
    obtain ⟨regLocated, restLocated⟩ := List.forall_mem_cons.mp located
    obtain ⟨regApart, restApart⟩ := List.pairwise_cons.mp apart
    have later := fun (flags : UnassignFlags) fits =>
      @unassignLoop_total range rest flags restLocated restApart fits
    -- the entries to go do not cover what this one covers
    have free : ∀ {addr}, reg.piece.Covers addr → ∀ other ∈ rest, ¬ other.piece.Covers addr :=
      fun covers other member => (regApart other member).not_covers covers
    have tail := fit.tail
    simp only [unassignLoop, Bool.not_eq_true', Bool.and_eq_true, decide_eq_true_eq,
      regLocated.last_le_iff range, UInt64.le_iff_toNat_le]
    by_cases overlap : rangesOverlap reg.guestPhysAddr reg.memorySize startAddr size = true
    swap
    · rw [if_pos ((Bool.not_eq_true _).mp overlap), Option.isSome_map]
      exact later flags tail
    rw [if_neg (by simp [overlap])]
    obtain ⟨low, high⟩ := (regLocated.overlaps_iff range).mp overlap
    -- the higher of the two starts is in the entry and in the range
    have common : reg.piece.Covers (max reg.piece.start startAddr.toNat) ∧
        InRange startAddr size (max reg.piece.start startAddr.toNat) := by
      have regNonempty := regLocated.nonempty
      have stop : reg.piece.stop = reg.piece.start + reg.memorySize.toNat := rfl
      simp only [Piece.Covers, InRange]
      omega
    rw [if_neg fun split => fit.split split reg List.mem_cons_self _ common.2 common.1]
    by_cases covered : startAddr.toNat ≤ reg.guestPhysAddr.toNat ∧
        reg.piece.stop ≤ startAddr.toNat + size.toNat
    · rw [if_pos covered]
      exact later _ { tail with overlapMiddle := fun _ => ⟨_, common.2, free common.1⟩ }
    rw [if_neg covered]
    by_cases ends : reg.piece.stop ≤ startAddr.toNat + size.toNat
    · have above : reg.piece.start < startAddr.toNat :=
        Nat.lt_of_not_le fun below => covered ⟨below, ends⟩
      have covers : reg.piece.Covers startAddr.toNat := ⟨above.le, high⟩
      rw [if_pos ends, if_neg]
      · rw [Option.isSome_map]
        exact later _ { tail with overlapEnd := fun _ => free covers }
      rw [Bool.or_eq_true, decide_eq_true_eq]
      rintro (empty | set)
      · exact shrink_nonempty above empty
      · exact fit.overlapEnd set reg List.mem_cons_self covers
    rw [if_neg ends]
    replace ends : startAddr.toNat + size.toNat < reg.piece.stop := Nat.lt_of_not_le ends
    obtain ⟨-, within⟩ := change_limit regLocated range low.le ends
    by_cases starts : startAddr.toNat ≤ reg.guestPhysAddr.toNat
    · have covers : reg.piece.Covers (startAddr.toNat + size.toNat - 1) := by
        simp only [Piece.Covers]
        omega
      rw [if_pos starts, if_neg]
      · rw [Option.isSome_map]
        exact later _ { tail with overlapStart := fun _ => free covers }
      rw [Bool.or_eq_true, decide_eq_true_eq]
      rintro (empty | set)
      · exact shift_nonempty regLocated within empty
      · exact fit.overlapStart set reg List.mem_cons_self covers
    rw [if_neg starts]
    -- the range is inside the entry, so no other entry has one of its addresses
    have whole : ∀ addr, InRange startAddr size addr → reg.piece.Covers addr := by
      rintro addr ⟨above, below⟩
      have start : reg.piece.start = reg.guestPhysAddr.toNat := rfl
      simp only [Piece.Covers]
      omega
    rw [if_neg, if_neg]
    · rw [Option.isSome_map]
      exact later _ { tail with
        split := fun _ other member addr inside => free (whole addr inside) other member }
    · rw [Bool.or_eq_true, decide_eq_true_eq, decide_eq_true_eq]
      rintro (empty | empty)
      · exact shrink_nonempty (Nat.lt_of_not_le starts) empty
      · exact shift_nonempty regLocated within empty
    rw [Bool.or_eq_true, Bool.or_eq_true]
    rintro ((set | set) | set)
    · refine fit.overlapStart set reg List.mem_cons_self (whole _ ?_)
      simp only [InRange]
      omega
    · refine fit.overlapEnd set reg List.mem_cons_self (whole _ ?_)
      simp only [InRange]
      omega
    · obtain ⟨addr, inside, free⟩ := fit.overlapMiddle set
      exact free reg List.mem_cons_self (whole addr inside)

theorem vhostDevUnassignMemory_total (range : SoundRange startAddr size)
    (located : ∀ reg ∈ mem, reg.Located) (apart : mem.Pairwise Apart) :
    ∃ left, vhostDevUnassignMemory mem startAddr size = some left := by
  rw [← Option.isSome_iff_exists, vhostDevUnassignMemory, Option.isSome_map]
  exact unassignLoop_total range located apart ⟨nofun, nofun, nofun, nofun⟩

/-! ### The table without the range -/

structure PartOf (startAddr size : UInt64) (reg part : VhostMemoryRegion) : Prop where
  located : part.Located
  low : reg.piece.start ≤ part.piece.start
  high : part.piece.stop ≤ reg.piece.stop
  outside : part.piece.stop ≤ startAddr.toNat ∨ startAddr.toNat + size.toNat ≤ part.piece.start

theorem shrink_partOf (located : reg.Located) (low : reg.piece.start < startAddr.toNat)
    (below : startAddr.toNat < reg.piece.stop) :
    PartOf startAddr size reg (reg.shrink startAddr) := by
  have phys : reg.piece.stop ≤ 2 ^ 64 := located.phys
  have cut := shrink_piece low.le
  have limit : (reg.shrink startAddr).piece.stop = startAddr.toNat := by
    rw [cut, Piece.stop]
    exact Nat.add_sub_cancel' low.le
  refine ⟨⟨?_, limit.trans_le (below.le.trans phys)⟩, Nat.le_refl _, limit.trans_le below.le,
    .inl limit.le⟩
  exact (Nat.sub_pos_of_lt low).trans_eq (congrArg Piece.size cut).symm

section

variable (located : reg.Located) (range : SoundRange startAddr size)
include located range

theorem shift_partOf (low : reg.piece.start ≤ startAddr.toNat + size.toNat)
    (high : startAddr.toNat + size.toNat < reg.piece.stop) : PartOf startAddr size reg
      (reg.shift (rangeGetLast startAddr size + 1 - reg.guestPhysAddr)) := by
  have phys := located.phys
  obtain ⟨limit, within⟩ := change_limit located range low high
  obtain ⟨start, rest⟩ := shift_located located within
  constructor
  · exact ⟨by omega, by omega⟩
  all_goals
    simp only [piece, Piece.stop] at limit ⊢
    omega

theorem remains_partOf : ∀ part ∈ remains startAddr size reg, PartOf startAddr size reg part := by
  intro part member
  obtain ⟨rfl, outside⟩ | ⟨rfl, low, high⟩ | ⟨rfl, low, high⟩ :=
    (mem_remains located range).mp member
  · exact ⟨located, Nat.le_refl _, Nat.le_refl _, outside⟩
  · exact shrink_partOf located low high
  · exact shift_partOf located range low.le high

theorem remains_apart : (remains startAddr size reg).Pairwise Apart := by
  rw [remains_eq located range]
  split_ifs with apart low high high
  · exact List.pairwise_singleton _ _
  · obtain ⟨limit, within⟩ := change_limit located range (by omega) high
    have cut := congrArg Piece.stop (shrink_piece low.le)
    have start := (shift_located located within).1
    rw [List.singleton_append, List.pairwise_pair]
    refine .inl ?_
    rw [cut]
    simp only [piece, Piece.before, Piece.stop] at low limit ⊢
    omega
  · exact List.pairwise_singleton _ _
  · exact List.pairwise_singleton _ _
  · exact .nil

end

structure Remaining (startAddr size : UInt64) (mem left : List VhostMemoryRegion) : Prop where
  order : left = without startAddr size mem
  perm : left.Perm (mem.flatMap (remains startAddr size))
  located : ∀ part ∈ left, part.Located
  apart : left.Pairwise Apart
  outside : ∀ part ∈ left,
    part.piece.stop ≤ startAddr.toNat ∨ startAddr.toNat + size.toNat ≤ part.piece.start

theorem vhostDevUnassignMemory_remaining (range : SoundRange startAddr size)
    (located : ∀ reg ∈ mem, reg.Located) (apart : mem.Pairwise Apart) :
    ∃ left, vhostDevUnassignMemory mem startAddr size = some left ∧
      Remaining startAddr size mem left := by
  obtain ⟨left, result⟩ := vhostDevUnassignMemory_total range located apart
  have order := vhostDevUnassignMemory_remains result
  have perm := order ▸ without_perm startAddr size mem
  refine ⟨left, result, order, perm, fun part member => ?_, ?_, fun part member => ?_⟩
  · obtain ⟨reg, found, within⟩ := List.mem_flatMap.mp (perm.mem_iff.mp member)
    exact (remains_partOf (located reg found) range part within).located
  · rw [perm.pairwise_iff Apart.symm, List.pairwise_flatMap]
    refine ⟨fun reg found => remains_apart (located reg found) range, ?_⟩
    refine List.Pairwise.imp_of_mem ?_ apart
    intro reg other found otherFound apart part within otherPart otherWithin
    have here := remains_partOf (located reg found) range part within
    have there := remains_partOf (located other otherFound) range otherPart otherWithin
    exact ((apart.within here.low here.high).symm.within there.low there.high).symm
  · obtain ⟨reg, found, within⟩ := List.mem_flatMap.mp (perm.mem_iff.mp member)
    exact (remains_partOf (located reg found) range part within).outside

end Geometry

/-! ### Tables as maps -/

def tableMap (mem : List VhostMemoryRegion) (addr value : Nat) : Prop :=
  ∃ reg ∈ mem, reg.Backs addr value

/-- The map after an update: the section's range has the section's addresses, or none. -/
def updatedMap (startAddr size ram : UInt64) (add : Bool) (mem : List VhostMemoryRegion)
    (addr value : Nat) : Prop :=
  (add = true ∧ Backs ⟨startAddr, size, ram⟩ addr value) ∨
    (tableMap mem addr value ∧ ¬ InRange startAddr size addr)

/-- A table of disjoint entries that are not empty and do not wrap, for the map `maps`. -/
structure TableOf (maps : Nat → Nat → Prop) (mem : List VhostMemoryRegion) : Prop where
  located : ∀ reg ∈ mem, reg.Located
  apart : mem.Pairwise Apart
  maps : ∀ addr value, tableMap mem addr value ↔ maps addr value

/-- No assertion fails, and the table that is left is one of `maps`. -/
def Becomes (maps : Nat → Nat → Prop) (result : Except VhostTable VhostTable) : Prop :=
  ∃ final, result = .ok final ∧ TableOf maps final.entries

section Maps

variable {reg : VhostMemoryRegion} {mem left : List VhostMemoryRegion}
  {other : VhostMemoryRegion} {addr value : Nat} {maps more : Nat → Nat → Prop}

@[simp] theorem tableMap_cons :
    tableMap (reg :: mem) addr value ↔ reg.Backs addr value ∨ tableMap mem addr value := by
  simp [tableMap]

theorem VhostMemoryRegion.Backs.covers (backs : reg.Backs addr value) : reg.piece.Covers addr := by
  obtain ⟨sum, mapped, -⟩ := backs
  exact mapped.1

theorem backs_of_covers (covers : reg.piece.Covers addr) :
    reg.Backs addr ((reg.piece.target + (addr - reg.piece.start)) % 2 ^ 64) :=
  ⟨_, ⟨covers, rfl⟩, rfl⟩

theorem entry_unique (apart : mem.Pairwise Apart) (member : reg ∈ mem) (otherMember : other ∈ mem)
    (covers : reg.piece.Covers addr) (otherCovers : other.piece.Covers addr) : other = reg := by
  by_contra distinct
  have disjoint := apart.forall otherMember member distinct
  exact disjoint.not_covers otherCovers covers

theorem TableOf.perm (table : TableOf maps left) (perm : mem.Perm left) : TableOf maps mem where
  located reg member := table.located reg (perm.mem_iff.mp member)
  apart := (perm.pairwise_iff Apart.symm).mpr table.apart
  maps addr value := by
    rw [← table.maps]
    simp only [tableMap, perm.mem_iff]

theorem TableOf.cons (table : TableOf maps left) (located : reg.Located)
    (apart : ∀ addr value, maps addr value → ¬ reg.piece.Covers addr)
    (whole : ∀ addr value, more addr value ↔ reg.Backs addr value ∨ maps addr value) :
    TableOf more (reg :: left) where
  located := List.forall_mem_cons.mpr ⟨located, table.located⟩
  apart := by
    refine List.pairwise_cons.mpr ⟨fun other member => ?_, table.apart⟩
    refine apart_of_covers located (table.located other member) fun addr covers otherCovers => ?_
    have found := (table.maps addr _).mp ⟨other, member, backs_of_covers otherCovers⟩
    exact apart addr _ found covers
  maps addr value := by
    rw [tableMap_cons, table.maps, whole]

theorem tableMap_apart (apart : ∀ other ∈ mem, Apart reg other)
    (found : tableMap mem addr value) : ¬ reg.piece.Covers addr := by
  obtain ⟨other, member, backs⟩ := found
  exact (apart other member).symm.not_covers backs.covers

end Maps

/-! ### Joining ranges -/

/-- The range is joined to the entries next to it, one by one in the order of the array, and never
across an end of an address space. -/
inductive JoinsInside : VhostMemoryRegion → List VhostMemoryRegion → Prop
  | nil {new} : JoinsInside new []
  | skip {new reg rest} (above : ¬ Continues reg new) (below : ¬ Continues new reg)
      (later : JoinsInside new rest) : JoinsInside new (reg :: rest)
  | upper {new reg rest} (joins : Joins reg new) (later : JoinsInside (reg.join new) rest) :
      JoinsInside new (reg :: rest)
  | lower {new reg rest} (joins : Joins new reg) (later : JoinsInside (new.join reg) rest) :
      JoinsInside new (reg :: rest)

section Joining

variable {reg new lower upper : VhostMemoryRegion} {mem : List VhostMemoryRegion}
  {out : VhostMemoryRegion × List VhostMemoryRegion} {maps : Nat → Nat → Prop}

theorem regionsApart_iff (located : reg.Located) (newLocated : new.Located) :
    regionsApart reg new = true ↔ Apart reg new := by
  have nonempty := located.nonempty
  have newNonempty := newLocated.nonempty
  simp only [regionsApart, Bool.or_eq_true, decide_eq_true_eq, UInt64.lt_iff_toNat_lt,
    rangeGetLast_toNat nonempty located.phys, rangeGetLast_toNat newNonempty newLocated.phys]
  simp only [Apart, piece, Piece.stop]
  omega

theorem Joins.continues (joins : Joins lower upper) : Continues lower upper := by
  obtain ⟨⟨start, target⟩, -⟩ := joins
  have bound : upper.piece.start < 2 ^ 64 := UInt64.toNat_lt _
  have userBound : upper.piece.target < 2 ^ 64 := UInt64.toNat_lt _
  rw [Piece.stop] at start
  exact continues_iff.mpr ⟨by omega, by omega⟩

/-- What the loop does next with an entry that the range is joined to: `whole` is the two. -/
theorem assignMerged_join {whole : VhostMemoryRegion} (located : reg.Located)
    (newLocated : new.Located) (apart : Apart new reg)
    (joins : (Joins reg new ∧ whole = reg.join new) ∨ (Joins new reg ∧ whole = new.join reg)) :
    assignMerged new (reg :: mem) = assignMerged whole mem ∧ whole.Located ∧
      ∀ addr value, whole.Backs addr value ↔ new.Backs addr value ∨ reg.Backs addr value := by
  have disjoint := (regionsApart_iff located newLocated).mpr apart.symm
  have merged : regionsAdjacent reg new = true ∧ mergeRegions reg new = whole ∧ whole.Located ∧
      ∀ addr value, whole.Backs addr value ↔ new.Backs addr value ∨ reg.Backs addr value := by
    rw [regionsAdjacent_iff]
    obtain ⟨joins, rfl⟩ | ⟨joins, rfl⟩ := joins
    · exact ⟨.inl joins.continues, joins.merged located newLocated,
        joins.located located newLocated, fun addr value => (joins.backs addr value).trans or_comm⟩
    · exact ⟨.inr joins.continues, mergeRegions_comm.trans (joins.merged newLocated located),
        joins.located newLocated located, joins.backs⟩
  obtain ⟨adjacent, same, wholeLocated, backs⟩ := merged
  rw [assignMerged, if_neg (by simp [disjoint]), if_neg (by simp [adjacent]), same,
    if_neg (UInt64.pos_iff_ne_zero.mp wholeLocated.nonempty)]
  exact ⟨rfl, wholeLocated, backs⟩

/-- A range and the entries behind it are merged without an assertion that fails, to a table of
the same map. -/
theorem JoinsInside.tableOf (joins : JoinsInside new mem) (located : ∀ reg ∈ mem, reg.Located)
    (newLocated : new.Located) (apart : (new :: mem).Pairwise Apart) :
    ∃ out, assignMerged new mem = some out ∧ TableOf (tableMap (new :: mem)) (out.1 :: out.2) := by
  -- an entry that is joined: the rest of the loop goes on with the whole
  have joined : ∀ {new reg whole : VhostMemoryRegion} {rest : List VhostMemoryRegion},
      (∀ other ∈ reg :: rest, other.Located) → new.Located → (new :: reg :: rest).Pairwise Apart →
      ((Joins reg new ∧ whole = reg.join new) ∨ (Joins new reg ∧ whole = new.join reg)) →
      ((∀ other ∈ rest, other.Located) → whole.Located → (whole :: rest).Pairwise Apart →
        ∃ out, assignMerged whole rest = some out ∧
          TableOf (tableMap (whole :: rest)) (out.1 :: out.2)) →
      ∃ out, assignMerged new (reg :: rest) = some out ∧
        TableOf (tableMap (new :: reg :: rest)) (out.1 :: out.2) := by
    intro new reg whole rest located newLocated apart joins ih
    obtain ⟨regLocated, restLocated⟩ := List.forall_mem_cons.mp located
    obtain ⟨newApart, memApart⟩ := List.pairwise_cons.mp apart
    obtain ⟨newReg, newRest⟩ := List.forall_mem_cons.mp newApart
    obtain ⟨regApart, restApart⟩ := List.pairwise_cons.mp memApart
    obtain ⟨step, wholeLocated, backs⟩ :=
      @assignMerged_join reg new rest whole regLocated newLocated newReg joins
    have wholeApart : ∀ other ∈ rest, Apart whole other := by
      intro other member
      refine apart_of_covers wholeLocated (restLocated other member) fun addr covers => ?_
      rcases (backs addr _).mp (backs_of_covers covers) with found | found
      · exact (newRest other member).not_covers found.covers
      · exact (regApart other member).not_covers found.covers
    obtain ⟨out, result, table⟩ := ih restLocated wholeLocated
      (List.pairwise_cons.mpr ⟨wholeApart, restApart⟩)
    refine ⟨out, step.trans result, table.located, table.apart, fun addr value => ?_⟩
    rw [table.maps, tableMap_cons, tableMap_cons, tableMap_cons, backs, or_assoc]
  induction joins with
  | nil =>
    exact ⟨_, rfl, by simpa using newLocated, List.pairwise_singleton _ _, fun _ _ => Iff.rfl⟩
  | @skip new reg rest above below later ih =>
    obtain ⟨regLocated, restLocated⟩ := List.forall_mem_cons.mp located
    obtain ⟨newApart, memApart⟩ := List.pairwise_cons.mp apart
    obtain ⟨newReg, newRest⟩ := List.forall_mem_cons.mp newApart
    obtain ⟨regApart, restApart⟩ := List.pairwise_cons.mp memApart
    have disjoint := (regionsApart_iff regLocated newLocated).mpr newReg.symm
    have distant : regionsAdjacent reg new = false := by
      rw [← Bool.not_eq_true, regionsAdjacent_iff]
      exact not_or.mpr ⟨above, below⟩
    obtain ⟨out, result, table⟩ :=
      ih restLocated newLocated (List.pairwise_cons.mpr ⟨newRest, restApart⟩)
    refine ⟨(out.1, reg :: out.2), ?_, TableOf.perm (table.cons regLocated ?_ ?_) (.swap _ _ _)⟩
    · rw [assignMerged, if_neg (by simp [disjoint]), if_pos (by simp [distant]), result]
      rfl
    · intro addr value
      exact tableMap_apart (List.forall_mem_cons.mpr ⟨newReg.symm, regApart⟩)
    · intro addr value
      simp only [tableMap_cons]
      exact or_left_comm
  | upper joins _ ih => exact joined located newLocated apart (.inl ⟨joins, rfl⟩) ih
  | lower joins _ ih => exact joined located newLocated apart (.inr ⟨joins, rfl⟩) ih

theorem mergeRegions_located (located : reg.Located) (newLocated : new.Located)
    (nonzero : (mergeRegions reg new).memorySize ≠ 0) : (mergeRegions reg new).Located := by
  obtain ⟨-, stop, -⟩ := mergeRegions_bounds located newLocated nonzero
  have phys : reg.piece.stop ≤ 2 ^ 64 := located.phys
  have newPhys : new.piece.stop ≤ 2 ^ 64 := newLocated.phys
  refine ⟨UInt64.pos_iff_ne_zero.mpr nonzero, ?_⟩
  have limit : (mergeRegions reg new).piece.stop ≤ 2 ^ 64 := by omega
  exact limit

/-- The entry has an address at another place than `maps`. -/
def Misplaces (maps : Nat → Nat → Prop) (reg : VhostMemoryRegion) : Prop :=
  ∃ addr value, maps addr value ∧ reg.piece.Covers addr ∧ ¬ reg.Backs addr value

/-- A merge across the end of userspace: the entry that was there is at the wrong place. -/
theorem misplaces_of_meetsEnd (located : reg.Located) (newLocated : new.Located)
    (meets : MeetsEnd reg new ∨ MeetsEnd new reg)
    (nonzero : (mergeRegions reg new).memorySize ≠ 0)
    (backed : ∀ addr value, reg.Backs addr value → maps addr value) :
    Misplaces maps (mergeRegions reg new) := by
  obtain ⟨start, stop, target⟩ := mergeRegions_bounds located newLocated nonzero
  have nonempty : 0 < reg.piece.size := located.nonempty
  have newNonempty : 0 < new.piece.size := newLocated.nonempty
  have size : reg.piece.size < 2 ^ 64 := UInt64.toNat_lt _
  have newSize : new.piece.size < 2 ^ 64 := UInt64.toNat_lt _
  refine ⟨_, _, backed _ _ (backs_of_covers located.covers_start), ⟨by omega, ?_⟩, ?_⟩
  · rw [stop, Piece.stop, Piece.stop]
    omega
  rintro ⟨sum, ⟨-, rfl⟩, same⟩
  rw [start, target] at same
  obtain ⟨next, wraps⟩ | ⟨next, wraps⟩ := meets
  · rw [Piece.stop] at next
    omega
  · rw [Piece.stop] at next
    omega

/-- A range that is joined across an end, or was wrong before, ends in a wrong entry: it keeps an
address that the joined entry does not have. -/
theorem assignMerged_misplaces (located : ∀ reg ∈ mem, reg.Located) (newLocated : new.Located)
    (backed : ∀ reg ∈ mem, ∀ addr value, reg.Backs addr value → maps addr value)
    (wrong : JoinsInside new mem → Misplaces maps new)
    (result : assignMerged new mem = some out) : Misplaces maps out.1 := by
  induction mem generalizing new out with
  | nil =>
    cases result
    exact wrong .nil
  | cons reg rest ih =>
    obtain ⟨regLocated, restLocated⟩ := List.forall_mem_cons.mp located
    obtain ⟨regBacked, restBacked⟩ := List.forall_mem_cons.mp backed
    have ended := result
    rw [assignMerged] at result
    split at result
    · cases result
    next apart =>
    rw [Bool.not_eq_true', Bool.not_eq_false, regionsApart_iff regLocated newLocated] at apart
    split at result
    next distant =>
      obtain ⟨tail, tailResult, rfl⟩ := Option.map_eq_some_iff.mp result
      rw [Bool.not_eq_true', ← Bool.not_eq_true, regionsAdjacent_iff, not_or] at distant
      have later := ih restLocated newLocated restBacked
        (fun later => wrong (.skip distant.1 distant.2 later)) tailResult
      exact later
    next adjacent =>
      rw [Bool.not_eq_true', Bool.not_eq_false] at adjacent
      split at result
      · cases result
      next nonzero =>
      have grows : ∀ {whole : VhostMemoryRegion},
          ((Joins reg new ∧ whole = reg.join new) ∨ (Joins new reg ∧ whole = new.join reg)) →
          (JoinsInside whole rest → JoinsInside new (reg :: rest)) → Misplaces maps out.1 := by
        intro whole joins more
        obtain ⟨step, wholeLocated, backs⟩ :=
          @assignMerged_join reg new rest whole regLocated newLocated apart.symm joins
        refine ih restLocated wholeLocated restBacked (fun later => ?_) (step ▸ ended)
        obtain ⟨addr, value, mapped, covers, not⟩ := wrong (more later)
        refine ⟨addr, value, mapped, ?_, ?_⟩
        · exact ((backs addr _).mpr (.inl (backs_of_covers covers))).covers
        · rw [backs, not_or]
          exact ⟨not, fun here => apart.not_covers here.covers covers⟩
      obtain meets | joins | joins := merge_outcome regLocated newLocated adjacent nonzero
      · have merged := misplaces_of_meetsEnd regLocated newLocated meets nonzero regBacked
        exact ih restLocated (mergeRegions_located regLocated newLocated nonzero) restBacked
          (fun _ => merged) result
      · exact grows (.inl ⟨joins, rfl⟩) (.upper joins)
      · exact grows (.inr ⟨joins, rfl⟩) (.lower joins)

end Joining

section Update

variable {startAddr size ram : UInt64} {new reg : VhostMemoryRegion}
  {mem left : List VhostMemoryRegion} {addr value : Nat} {t : VhostTable}

section

variable (remaining : Remaining startAddr size mem left)
include remaining

theorem Remaining.maps
    (range : SoundRange startAddr size) (located : ∀ reg ∈ mem, reg.Located) (addr value : Nat) :
    tableMap left addr value ↔ tableMap mem addr value ∧ ¬ InRange startAddr size addr := by
  have parts : tableMap left addr value ↔
      ∃ reg ∈ mem, ∃ part ∈ remains startAddr size reg, part.Backs addr value := by
    simp only [tableMap, remaining.perm.mem_iff, List.mem_flatMap]
    grind
  rw [parts, tableMap, ← exists_and_right]
  refine exists_congr fun reg => ?_
  rw [and_assoc]
  exact and_congr_right fun member => remains_backs (located reg member) range addr value

theorem Remaining.new_apart :
    ((⟨startAddr, size, ram⟩ : VhostMemoryRegion) :: left).Pairwise Apart :=
  List.pairwise_cons.mpr ⟨fun part member => (remaining.outside part member).symm, remaining.apart⟩

theorem Remaining.updatedMap
    (range : SoundRange startAddr size) (located : ∀ reg ∈ mem, reg.Located) (addr value : Nat) :
    tableMap (⟨startAddr, size, ram⟩ :: left) addr value ↔
      updatedMap startAddr size ram true mem addr value := by
  rw [tableMap_cons, remaining.maps range located, Qemu.updatedMap]
  simp

end

theorem becomes_of_refines {maps : Nat → Nat → Prop} {result : Except VhostTable VhostTable}
    (refines : Refines result (some left)) (table : TableOf maps left) : Becomes maps result := by
  obtain ⟨final, ended, rfl⟩ := refines
  exact ⟨final, ended, table⟩

theorem newRegion_located (range : SoundRange startAddr size) : Located ⟨startAddr, size, ram⟩ :=
  ⟨range.nonempty, range.bounded⟩

theorem SoundRange.ne_zero (range : SoundRange startAddr size) : size ≠ 0 :=
  UInt64.pos_iff_ne_zero.mp range.nonempty

/-- The full update gives the updated map exactly where the section is joined to what is left
without crossing an end. -/
theorem update_becomes_iff {add : Bool} (range : SoundRange startAddr size)
    (located : ∀ reg ∈ t.entries, reg.Located) (apart : t.entries.Pairwise Apart) :
    Becomes (updatedMap startAddr size ram add t.entries) (t.update startAddr size ram add) ↔
      (add = true → JoinsInside ⟨startAddr, size, ram⟩ (without startAddr size t.entries)) := by
  have refines := update_refines t startAddr size ram add
  obtain ⟨left, removed, remaining⟩ := vhostDevUnassignMemory_remaining range located apart
  rw [removed, Option.bind_some] at refines
  cases add with
  | false =>
    obtain ⟨again, removedAgain, rest⟩ :=
      vhostDevUnassignMemory_remaining range remaining.located remaining.apart
    rw [if_neg (by decide), removedAgain] at refines
    refine iff_of_true (becomes_of_refines refines ⟨rest.located, rest.apart, ?_⟩) nofun
    intro addr value
    rw [rest.maps range remaining.located, remaining.maps range located, updatedMap]
    simp
  | true =>
    rw [if_pos rfl] at refines
    have whole := fun addr value =>
      @Remaining.updatedMap startAddr size ram _ _ remaining range located addr value
    have newLocated := @newRegion_located startAddr size ram range
    rw [← remaining.order, forall_prop_of_true rfl]
    obtain ⟨failed, assigned⟩ | ⟨out, final, merged, assigned, perm⟩ :=
      @vhostDevAssignMemory_merged ⟨startAddr, size, ram⟩ left range.ne_zero
    · rw [assigned] at refines
      obtain ⟨_, stopped⟩ := refines
      refine iff_of_false ?_ fun joins => ?_
      · rintro ⟨_, ended, -⟩
        rw [stopped] at ended
        cases ended
      · obtain ⟨out, merged, -⟩ := joins.tableOf remaining.located newLocated remaining.new_apart
        rw [failed] at merged
        cases merged
    rw [assigned] at refines
    constructor
    · rintro ⟨result, ended, table⟩
      obtain ⟨_, same, rfl⟩ := refines
      cases ended.symm.trans same
      by_contra crosses
      obtain ⟨addr, value, mapped, covers, not⟩ := assignMerged_misplaces remaining.located
        newLocated (fun reg member addr value backs => (whole addr value).mp
          (tableMap_cons.mpr (.inr ⟨reg, member, backs⟩))) (absurd · crosses) merged
      obtain ⟨reg, member, backs⟩ := (table.maps addr value).mpr mapped
      have found : out.1 ∈ result.entries := perm.mem_iff.mpr List.mem_cons_self
      obtain rfl := entry_unique table.apart found member covers backs.covers
      exact not backs
    · intro joins
      obtain ⟨out', merged', table⟩ :=
        joins.tableOf remaining.located newLocated remaining.new_apart
      cases merged.symm.trans merged'
      have final := table.perm perm
      exact becomes_of_refines refines ⟨final.located, final.apart, fun addr value =>
        (final.maps addr value).trans (whole addr value)⟩

/-! ### The shortcuts -/

theorem tableOf_absent (range : SoundRange startAddr size) (located : ∀ reg ∈ mem, reg.Located)
    (apart : mem.Pairwise Apart) (absent : vhostDevFindReg mem startAddr size = none) :
    TableOf (updatedMap startAddr size ram false mem) mem := by
  refine ⟨located, apart, fun addr value => ?_⟩
  have outside : tableMap mem addr value → ¬ InRange startAddr size addr := by
    rintro ⟨reg, member, sum, maps, -⟩
    exact (vhostDevFindReg_none_iff located range).mp absent addr sum ⟨reg, member, maps⟩
  rw [updatedMap]
  simpa using outside

theorem backs_within (low : reg.piece.start ≤ startAddr.toNat)
    (high : startAddr.toNat + size.toNat ≤ reg.piece.stop)
    (same : ram = reg.userspaceAddr + startAddr - reg.guestPhysAddr) :
    Backs ⟨startAddr, size, ram⟩ addr value ↔
      reg.Backs addr value ∧ InRange startAddr size addr := by
  have target : ram.toNat = (reg.piece.target + (startAddr.toNat - reg.piece.start)) % 2 ^ 64 := by
    have bound := startAddr.toNat_lt
    simp only [piece] at low ⊢
    rw [same, UInt64.toNat_sub, UInt64.toNat_add]
    omega
  constructor
  · rintro ⟨sum, ⟨⟨above, below⟩, rfl⟩, rfl⟩
    change startAddr.toNat ≤ addr at above
    change addr < startAddr.toNat + size.toNat at below
    refine ⟨⟨_, ⟨⟨by omega, by omega⟩, rfl⟩, ?_⟩, above, below⟩
    change (ram.toNat + (addr - startAddr.toNat)) % 2 ^ 64 = _
    rw [target, Nat.mod_add_mod]
    exact congrArg (· % 2 ^ 64) (by omega)
  · rintro ⟨⟨sum, ⟨-, rfl⟩, rfl⟩, above, below⟩
    refine ⟨_, ⟨⟨above, below⟩, rfl⟩, ?_⟩
    change _ = (ram.toNat + (addr - startAddr.toNat)) % 2 ^ 64
    rw [target, Nat.mod_add_mod]
    exact congrArg (· % 2 ^ 64) (by omega)

section

variable (range : SoundRange startAddr size) (located : ∀ reg ∈ mem, reg.Located)
  (apart : mem.Pairwise Apart)
include range located apart

/-- `vhost_dev_cmp_memory` finds no change where the section lies in an entry, at its addresses. -/
theorem vhostDevCmpMemory_false_iff :
    vhostDevCmpMemory mem startAddr size ram = false ↔
      ∃ reg ∈ mem, reg.piece.start ≤ startAddr.toNat ∧
        startAddr.toNat + size.toNat ≤ reg.piece.stop ∧
        ram = reg.userspaceAddr + startAddr - reg.guestPhysAddr := by
  have nonempty := range.nonempty
  have bounds : ∀ reg ∈ mem, (startAddr < reg.guestPhysAddr ||
      rangeGetLast reg.guestPhysAddr reg.memorySize < rangeGetLast startAddr size) = false ↔
        reg.piece.start ≤ startAddr.toNat ∧ startAddr.toNat + size.toNat ≤ reg.piece.stop := by
    intro reg member
    have regNonempty := (located reg member).nonempty
    simp only [Bool.or_eq_false_iff, decide_eq_false_iff_not, UInt64.lt_iff_toNat_lt, Nat.not_lt,
      rangeGetLast_toNat nonempty range.bounded,
      rangeGetLast_toNat regNonempty (located reg member).phys]
    simp only [piece, Piece.stop]
    omega
  rw [vhostDevCmpMemory]
  constructor
  · intro unchanged
    split at unchanged
    · cases unchanged
    next reg found =>
      have member := List.mem_of_find?_eq_some found
      dsimp only at unchanged
      split at unchanged
      · cases unchanged
      next inside =>
        obtain ⟨low, high⟩ := (bounds reg member).mp ((Bool.not_eq_true _).mp inside)
        exact ⟨reg, member, low, high, by simpa using unchanged⟩
  · rintro ⟨reg, member, low, high, same⟩
    have overlaps : ∀ other ∈ mem, rangesOverlap other.guestPhysAddr other.memorySize startAddr
        size = true → other = reg := by
      intro other otherMember overlap
      obtain ⟨below, above⟩ := ((located other otherMember).overlaps_iff range).mp overlap
      -- the higher of the two starts is in both entries
      have otherNonempty := (located other otherMember).nonempty
      have stop : other.piece.stop = other.piece.start + other.memorySize.toNat := rfl
      refine @entry_unique reg mem other (max other.piece.start startAddr.toNat) apart member
        otherMember ⟨?_, ?_⟩ ⟨?_, ?_⟩ <;> omega
    have found : vhostDevFindReg mem startAddr size = some reg := by
      cases find : vhostDevFindReg mem startAddr size with
      | none =>
        have overlap := ((located reg member).overlaps_iff range).mpr ⟨by omega, by omega⟩
        exact absurd overlap (List.find?_eq_none.mp find reg member)
      | some other =>
        rw [overlaps other (List.mem_of_find?_eq_some find)
          (List.find?_some (p := fun reg : VhostMemoryRegion =>
            rangesOverlap reg.guestPhysAddr reg.memorySize startAddr size) find)]
    rw [found]
    dsimp only
    rw [(bounds reg member).mpr ⟨low, high⟩, if_neg (by decide)]
    simpa using same

theorem tableOf_unchanged (unchanged : vhostDevCmpMemory mem startAddr size ram = false) :
    TableOf (updatedMap startAddr size ram true mem) mem := by
  obtain ⟨reg, member, low, high, same⟩ :=
    (vhostDevCmpMemory_false_iff range located apart).mp unchanged
  refine ⟨located, apart, fun addr value => ?_⟩
  rw [updatedMap, backs_within low high same]
  constructor
  · rintro ⟨other, otherMember, backs⟩
    by_cases inside : InRange startAddr size addr
    · obtain ⟨above, below⟩ := inside
      have covers : reg.piece.Covers addr := ⟨by omega, by omega⟩
      obtain ⟨sum, maps, rfl⟩ := backs
      obtain rfl := entry_unique apart member otherMember covers maps.1
      exact .inl ⟨rfl, ⟨sum, maps, rfl⟩, above, below⟩
    · exact .inr ⟨⟨other, otherMember, backs⟩, inside⟩
  · rintro (⟨-, backs, -⟩ | ⟨backed, -⟩)
    · exact ⟨reg, member, backs⟩
    · exact backed

end

end Update

/-- `vhost_set_memory` makes the table the one of the updated map and fails no assertion, and so
does the full update in place of a shortcut, exactly where an added section is joined to what is
left of the entries without crossing an end of an address space. -/
theorem setMemory_updatesMap_iff (t : VhostTable) (startAddr size ram : UInt64)
    (add logDirty : Bool) (located : ∀ reg ∈ t.entries, reg.Located)
    (apart : t.entries.Pairwise Apart) (range : SoundRange startAddr size) :
    (Becomes (updatedMap startAddr size ram (add && !logDirty) t.entries)
        (t.setMemory startAddr size ram add logDirty) ∧
      Becomes (updatedMap startAddr size ram (add && !logDirty) t.entries)
        (t.update startAddr size ram (add && !logDirty))) ↔
      ((add && !logDirty) = true →
        JoinsInside ⟨startAddr, size, ram⟩ (without startAddr size t.entries)) := by
  rw [VhostTable.setMemory, if_neg range.ne_zero]
  generalize (add && !logDirty) = adding
  rw [← update_becomes_iff range located apart]
  refine and_iff_right_of_imp fun full => ?_
  split
  next unchanged =>
    simp only [Bool.and_eq_true, Bool.not_eq_true'] at unchanged
    obtain ⟨rfl, same⟩ := unchanged
    exact ⟨t, rfl, tableOf_unchanged range located apart same⟩
  split
  next absent =>
    simp only [Bool.and_eq_true, Bool.not_eq_true', Option.isNone_iff_eq_none] at absent
    obtain ⟨rfl, none⟩ := absent
    exact ⟨t, rfl, tableOf_absent range located apart none⟩
  · exact full

/-- Three pages and one page that continue each other across the end of guest-physical space. -/
def acrossTable : VhostTable :=
  ⟨4, fun index => [⟨0xfffffffffffff000, 0x1000, 0x7f0000000000⟩, ⟨0, 0x1000, 0x7f0000001000⟩,
    ⟨0x4000, 0x3000, 0x7f1000000000⟩, ⟨0x8000, 0x1000, 0x7f3000002000⟩].getD index ⟨0, 0, 0⟩, []⟩

/-- The section takes the last of the three pages and is joined to the page behind it. -/
theorem setMemory_updatesMap_joined :
    Becomes (updatedMap 0x6000 0x2000 0x7f3000000000 true acrossTable.entries)
        (acrossTable.setMemory 0x6000 0x2000 0x7f3000000000 true false) ∧
      Becomes (updatedMap 0x6000 0x2000 0x7f3000000000 true acrossTable.entries)
        (acrossTable.update 0x6000 0x2000 0x7f3000000000 true) := by
  have entries : acrossTable.entries = [⟨0xfffffffffffff000, 0x1000, 0x7f0000000000⟩,
      ⟨0, 0x1000, 0x7f0000001000⟩, ⟨0x4000, 0x3000, 0x7f1000000000⟩,
      ⟨0x8000, 0x1000, 0x7f3000002000⟩] := rfl
  have left : without 0x6000 0x2000 acrossTable.entries =
      [⟨0xfffffffffffff000, 0x1000, 0x7f0000000000⟩, ⟨0, 0x1000, 0x7f0000001000⟩,
        ⟨0x4000, 0x2000, 0x7f1000000000⟩, ⟨0x8000, 0x1000, 0x7f3000002000⟩] := by
    decide +kernel
  refine (setMemory_updatesMap_iff acrossTable 0x6000 0x2000 0x7f3000000000 true false ?_ ?_ ?_).mpr
    fun _ => ?_
  · rw [entries]
    simp only [List.forall_mem_cons]
    exact ⟨⟨by decide, by decide⟩, ⟨by decide, by decide⟩, ⟨by decide, by decide⟩,
      ⟨by decide, by decide⟩, List.forall_mem_nil _⟩
  · rw [entries]
    simp [Apart, piece, Piece.stop]
  · exact ⟨by decide, by decide⟩
  · rw [left]
    have apart : ∀ {reg new : VhostMemoryRegion}, regionsAdjacent reg new = false →
        ¬ Continues reg new ∧ ¬ Continues new reg := by
      intro reg new distant
      rwa [← not_or, ← regionsAdjacent_iff, Bool.not_eq_true]
    refine .skip (apart ?_).1 (apart ?_).2 (.skip (apart ?_).1 (apart ?_).2
      (.skip (apart ?_).1 (apart ?_).2 (.lower ⟨⟨?_, ?_⟩, ?_⟩ .nil))) <;> decide

def lastPage : VhostTable := ⟨1, fun _ => ⟨0xfffffffffffff000, 0x1000, 0x7f0000000000⟩, []⟩

/-- Page 0, with the memory behind that of the last page: the merged entry has size 0. -/
theorem setMemory_fails_at_end :
    (∀ reg ∈ lastPage.entries, reg.Placed) ∧ lastPage.entries.Pairwise Apart ∧
      SoundRange 0 0x1000 ∧ VhostMemoryRegion.Placed ⟨0, 0x1000, 0x7f0000001000⟩ ∧
      ¬ Becomes (updatedMap 0 0x1000 0x7f0000001000 true lastPage.entries)
        (lastPage.setMemory 0 0x1000 0x7f0000001000 true false) := by
  have entries : lastPage.entries = [⟨0xfffffffffffff000, 0x1000, 0x7f0000000000⟩] := rfl
  refine ⟨?_, ?_, ⟨by decide, by decide⟩, ⟨⟨by decide, by decide⟩, by decide⟩, ?_⟩
  · rw [entries, List.forall_mem_singleton]
    exact ⟨⟨by decide, by decide⟩, by decide⟩
  · rw [entries]
    exact List.pairwise_singleton _ _
  rintro ⟨final, ended, -⟩
  have failed : (lastPage.setMemory 0 0x1000 0x7f0000001000 true false).toOption.isNone = true := by
    decide +kernel
  rw [ended] at failed
  cases failed

end VhostUser.Qemu
