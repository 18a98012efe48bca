import VhostUser.Lib.BinarySearch
import VhostUser.Qemu.CurrentMap
import VhostUser.Qemu.GuestMemory
import VhostUser.Qemu.ViewUpdate

/-!
Contract: the list of host pointers that the dataplane keeps (`hostmem.c`), over every
history of calls of the memory API.

The listener forgets nothing that it is told between two commits, and is told every range
of the new view. So after each commit the list is the RAM of the flat view that is not under
dirty logging. A lookup adds start and size of a section in 64 bits: a section that ends at
2^64 is never found.

Owns: the listener and its registration as a machine, and where a lookup is exact.
-/

namespace VhostUser.Qemu

open VhostUser.Lib
open Virtio.GuestSpace (HostMemRegion hostmemLookupCmp)
open MemoryState

/-! ### The listener -/

structure HostMem where
  newRegions : List HostMemRegion
  currentRegions : List HostMemRegion
deriving DecidableEq, Repr

section Listener

-- `memory_region_get_ram_ptr`
variable (ramPtr : Nat → UInt64)

def hostmemAppendNewRegion (sec : MemoryRegionSection) (hostmem : HostMem) : Option HostMem :=
  (int128Get64 sec.size).map fun size =>
    { hostmem with newRegions := hostmem.newRegions ++
        [⟨ramPtr sec.mr + sec.offsetWithinRegion, sec.offsetWithinAddressSpace, size,
          sec.readonly⟩] }

def hostmemListenerAppendRegion (regions : Regions) (sec : MemoryRegionSection)
    (hostmem : HostMem) : Option HostMem :=
  if !(regions sec.mr).ram then some hostmem
  else if (regions sec.mr).dirtyLogMask ≠ 0 then some hostmem
  else hostmemAppendNewRegion ramPtr sec hostmem

def hostmemListenerCommit (hostmem : HostMem) : HostMem := ⟨[], hostmem.newRegions⟩

def hostmemListenerSectionDummy : SectionCallback (Option HostMem) :=
  fun _ _ hostmem => some hostmem

/-- The listener of `hostmem_init`, with no state before it is registered. -/
def hostmemListener : MemoryListener (Option HostMem) where
  begin := some
  commit hostmem := some (hostmem.map hostmemListenerCommit)
  regionAdd regions sec := Option.mapM (hostmemListenerAppendRegion ramPtr regions sec)
  regionDel := hostmemListenerSectionDummy
  regionNop regions sec := Option.mapM (hostmemListenerAppendRegion ramPtr regions sec)
  logStart := hostmemListenerSectionDummy
  logStop := hostmemListenerSectionDummy
  addressSpaceFilter := some 0

/-- `hostmem_init`, with `listener_add_address_space`. -/
def hostmemInit (regions : Regions) (view : FlatView) : Option HostMem := do
  let hostmem ← view.foldlM (fun hostmem fr => (fr.toSection 0).bind fun sec =>
    hostmemListenerAppendRegion ramPtr regions sec hostmem) ⟨[], []⟩
  return if hostmem.newRegions.length > 0 then hostmemListenerCommit hostmem else hostmem

inductive HostMemAction where
  | api (call : ApiCall)
  | init
deriving DecidableEq, Repr

def hostmemMachine (fuel : Nat) : Machine (MemoryState (Option HostMem)) HostMemAction where
  start state := (memoryMachine (hostmemListener ramPtr) fuel).start state ∧ state.dev = none
  step state
    | .api call => apiStep (hostmemListener ramPtr) fuel state call
    | .init =>
      if state.dev.isSome then none
      else (hostmemInit ramPtr state.regions state.currentMap).map fun hostmem =>
        { state with dev := some hostmem }

end Listener

def hostmemLookup
    (bsearch : (HostMemRegion → Int) → List HostMemRegion → Option HostMemRegion)
    (hostmem : HostMem) (phys len : UInt64) (isWrite : Bool) : Option UInt64 :=
  match bsearch (hostmemLookupCmp phys) hostmem.currentRegions with
  | none => none
  | some region =>
    if isWrite && region.readonly then none
    else
      let offsetWithinRegion := phys - region.guestAddr
      if len ≤ region.size - offsetWithinRegion then some (region.hostAddr + offsetWithinRegion)
      else none

/-! ### What the list should be -/

/-- The ranges of RAM in the view that are not under dirty logging. -/
def unloggedRam (regions : Regions) (view : FlatView) : FlatView :=
  view.filter fun fr => (regions fr.mr).ram && (regions fr.mr).dirtyLogMask == 0

def FlatRange.hostRegion (ramPtr : Nat → UInt64) (fr : FlatRange) : HostMemRegion :=
  ⟨ramPtr fr.mr + fr.offsetInRegion, .ofNat fr.addr.start.toNat, .ofNat fr.addr.size.toNat,
    fr.readonly⟩

/-- `[phys, phys + len)` lies inside the range, which may be accessed so. -/
structure FlatRange.Serves (fr : FlatRange) (phys len : UInt64) (isWrite : Bool) : Prop where
  within : fr.addr.contains phys.toNat = true
  room : phys.toNat + len.toNat ≤ fr.addr.last
  writable : isWrite = true → fr.readonly = false

/-- The entries are the ranges in increasing order, and their numbers are not cut off. -/
structure HostMem.Lists (ramPtr : Nat → UInt64) (regions : Regions) (view : FlatView)
    (hostmem : HostMem) : Prop where
  regions_eq : hostmem.currentRegions = (unloggedRam regions view).map (·.hostRegion ramPtr)
  sorted : (unloggedRam regions view).Pairwise fun left right => left.addr.last ≤ right.addr.start
  exact : ∀ fr ∈ unloggedRam regions view,
    ((UInt64.ofNat fr.addr.start.toNat).toNat : Int) = fr.addr.start ∧
      ((UInt64.ofNat fr.addr.size.toNat).toNat : Int) = fr.addr.size ∧ fr.addr.last ≤ 2 ^ 64

def FlatRange.hostAt (ramPtr : Nat → UInt64) (fr : FlatRange) (phys : UInt64) : UInt64 :=
  ramPtr fr.mr + fr.offsetInRegion + (phys - .ofNat fr.addr.start.toNat)

/-- A lookup returns the host address if a range serves it, and nothing else. -/
def ExactLookup (ramPtr : Nat → UInt64) (regions : Regions) (view : FlatView)
    (lookup : UInt64 → UInt64 → Bool → Option UInt64) (phys len : UInt64) (isWrite : Bool) : Prop :=
  ∀ host, lookup phys len isWrite = some host ↔
    ∃ fr ∈ unloggedRam regions view, fr.Serves phys len isWrite ∧ host = fr.hostAt ramPtr phys

section Lookup

variable {ramPtr : Nat → UInt64} {regions : Regions} {view : FlatView} {hostmem : HostMem}
  {phys len : UInt64} {isWrite : Bool} {fr other : FlatRange}
  {bsearch : (HostMemRegion → Int) → List HostMemRegion → Option HostMemRegion}

namespace HostMem.Lists

section

variable (lists : hostmem.Lists ramPtr regions view)
include lists

/-- Where a range is, seen from an address: the end of one that ends at 2^64 is zero. -/
theorem cmp_cases (member : fr ∈ unloggedRam regions view) (phys : UInt64) :
    hostmemLookupCmp phys (fr.hostRegion ramPtr) =
      if (phys.toNat : Int) < fr.addr.start then -1
      else if fr.addr.last ≤ phys.toNat ∨ fr.addr.last = 2 ^ 64 then 1 else 0 := by
  obtain ⟨start, size, high⟩ := lists.exact fr member
  simp only [hostmemLookupCmp, FlatRange.hostRegion, UInt64.lt_iff_toNat_lt,
    UInt64.le_iff_toNat_le, UInt64.toNat_add]
  rw [AddrRange.last] at high ⊢
  split_ifs <;> first | rfl | omega

theorem partitioned (phys : UInt64) :
    Partitioned (hostmemLookupCmp phys) hostmem.currentRegions := by
  rw [Partitioned, lists.regions_eq, List.pairwise_map]
  refine lists.sorted.imp_of_mem fun {left right} isLeft isRight apart => ?_
  obtain ⟨leftStart, leftSize, -⟩ := lists.exact left isLeft
  obtain ⟨rightStart, rightSize, rightHigh⟩ := lists.exact right isRight
  rw [lists.cmp_cases isLeft, lists.cmp_cases isRight]
  simp only [AddrRange.last] at apart rightHigh ⊢
  split_ifs <;> omega

theorem cmp_eq_zero (member : fr ∈ unloggedRam regions view) :
    hostmemLookupCmp phys (fr.hostRegion ramPtr) = 0 ↔
      fr.addr.contains phys.toNat = true ∧ fr.addr.last ≠ 2 ^ 64 := by
  rw [lists.cmp_cases member, AddrRange.contains_iff]
  simp only [AddrRange.last]
  split_ifs <;> simp <;> omega

theorem unique (member : fr ∈ unloggedRam regions view) (isOther : other ∈ unloggedRam regions view)
    (within : fr.addr.contains phys.toNat = true)
    (otherWithin : other.addr.contains phys.toNat = true) : other = fr := by
  by_contra differ
  have : Std.Symm fun left right : FlatRange =>
      left.addr.last ≤ right.addr.start ∨ right.addr.last ≤ left.addr.start := ⟨fun _ _ => Or.symm⟩
  have pairwise : (unloggedRam regions view).Pairwise fun left right =>
      left.addr.last ≤ right.addr.start ∨ right.addr.last ≤ left.addr.start :=
    lists.sorted.imp Or.inl
  have apart := pairwise.forall isOther member differ
  rw [AddrRange.contains_iff] at within otherWithin
  simp only [AddrRange.last] at apart
  omega

theorem search_some (searches : Searches bsearch) {region : HostMemRegion} :
    bsearch (hostmemLookupCmp phys) hostmem.currentRegions = some region ↔
      ∃ fr ∈ unloggedRam regions view, fr.addr.contains phys.toNat = true ∧
        fr.addr.last ≠ 2 ^ 64 ∧ region = fr.hostRegion ramPtr := by
  constructor
  · intro result
    obtain ⟨member, equal⟩ := searches.found (lists.partitioned phys) result
    rw [lists.regions_eq] at member
    obtain ⟨fr, isRange, rfl⟩ := List.mem_map.mp member
    obtain ⟨within, below⟩ := (lists.cmp_eq_zero isRange).mp equal
    exact ⟨fr, isRange, within, below, rfl⟩
  · rintro ⟨fr, isRange, within, below, rfl⟩
    cases result : bsearch (hostmemLookupCmp phys) hostmem.currentRegions with
    | none =>
      refine absurd ((lists.cmp_eq_zero isRange).mpr ⟨within, below⟩)
        (searches.missing (lists.partitioned phys) result _ ?_)
      rw [lists.regions_eq]
      exact List.mem_map.mpr ⟨fr, isRange, rfl⟩
    | some region =>
      obtain ⟨member, equal⟩ := searches.found (lists.partitioned phys) result
      rw [lists.regions_eq] at member
      obtain ⟨other, isOther, rfl⟩ := List.mem_map.mp member
      obtain ⟨otherWithin, -⟩ := (lists.cmp_eq_zero isOther).mp equal
      rw [lists.unique isRange isOther within otherWithin]

theorem lookup_iff (searches : Searches bsearch)
    (host : UInt64) : hostmemLookup bsearch hostmem phys len isWrite = some host ↔
      ∃ fr ∈ unloggedRam regions view, fr.Serves phys len isWrite ∧ fr.addr.last ≠ 2 ^ 64 ∧
        host = fr.hostAt ramPtr phys := by
  have room {fr : FlatRange} (isRange : fr ∈ unloggedRam regions view)
      (within : fr.addr.contains phys.toNat = true) :
      len ≤ (fr.hostRegion ramPtr).size - (phys - (fr.hostRegion ramPtr).guestAddr) ↔
        (phys.toNat + len.toNat : Int) ≤ fr.addr.last := by
    obtain ⟨start, size, high⟩ := lists.exact fr isRange
    rw [AddrRange.contains_iff] at within
    have offset : (phys - UInt64.ofNat fr.addr.start.toNat).toNat =
        phys.toNat - (UInt64.ofNat fr.addr.start.toNat).toNat :=
      UInt64.toNat_sub_of_le _ _ (UInt64.le_iff_toNat_le.mpr (by omega))
    have left : (UInt64.ofNat fr.addr.size.toNat -
        (phys - UInt64.ofNat fr.addr.start.toNat)).toNat =
        (UInt64.ofNat fr.addr.size.toNat).toNat - (phys - UInt64.ofNat fr.addr.start.toNat).toNat :=
      UInt64.toNat_sub_of_le _ _ (UInt64.le_iff_toNat_le.mpr (by omega))
    simp only [FlatRange.hostRegion, AddrRange.last, UInt64.le_iff_toNat_le]
    omega
  rw [hostmemLookup]
  constructor
  · intro result
    split at result
    · cases result
    next region found =>
      obtain ⟨fr, isRange, within, below, rfl⟩ := (lists.search_some searches).mp found
      rw [Option.ite_none_left_eq_some] at result
      obtain ⟨writable, result⟩ := result
      rw [Option.ite_none_right_eq_some, Option.some.injEq] at result
      obtain ⟨fits, rfl⟩ := result
      refine ⟨fr, isRange, ⟨within, (room isRange within).mp fits, fun isWrite => ?_⟩, below, rfl⟩
      simpa [isWrite, FlatRange.hostRegion] using writable
  · rintro ⟨fr, isRange, ⟨within, fits, writable⟩, below, rfl⟩
    rw [(lists.search_some searches).mpr ⟨fr, isRange, within, below, rfl⟩]
    dsimp only
    rw [if_neg, if_pos ((room isRange within).mpr fits)]
    · rfl
    rw [Bool.and_eq_true]
    rintro ⟨isWrite, readonly⟩
    rw [FlatRange.hostRegion, writable isWrite] at readonly
    cases readonly

/-- Lookups are exact up to the section that ends at 2^64. -/
theorem exactLookup_iff (searches : Searches bsearch) :
    ExactLookup ramPtr regions view (hostmemLookup bsearch hostmem) phys len isWrite ↔
      ¬ ∃ fr ∈ unloggedRam regions view, fr.addr.last = 2 ^ 64 ∧ fr.Serves phys len isWrite := by
  constructor
  · rintro exactly ⟨fr, isRange, top, serves⟩
    have result := (exactly _).mpr ⟨fr, isRange, serves, rfl⟩
    obtain ⟨other, isOther, otherServes, below, -⟩ := (lists.lookup_iff searches _).mp result
    rw [lists.unique isRange isOther serves.within otherServes.within] at below
    exact below top
  · intro below host
    rw [lists.lookup_iff searches]
    constructor
    · rintro ⟨fr, isRange, serves, -, host_eq⟩
      exact ⟨fr, isRange, serves, host_eq⟩
    · rintro ⟨fr, isRange, serves, host_eq⟩
      exact ⟨fr, isRange, serves, fun top => below ⟨fr, isRange, top, serves⟩, host_eq⟩

end

end HostMem.Lists

end Lookup

/-! ### What a call leaves unseen -/

section Calls

variable {δ : Type} {listener : MemoryListener δ} {fuel : Nat} {state inside next : MemoryState δ}
  {mr subregion : Nat} {offset : UInt64}

/-- No callback was made, and unless an update is pending no enabled region was disabled or changed
its logging. -/
structure Unseen (before after : MemoryState δ) : Prop where
  spaces : ∃ more, after.addressSpaces = before.addressSpaces ++ more ∧
    ∀ as ∈ more, as.currentMap = []
  dev : after.dev = before.dev
  ram : ∀ mr, (after.regions mr).ram = (before.regions mr).ram
  settled : after.updatePending = false → before.updatePending = false ∧
    ∀ mr, (before.regions mr).enabled = true → (after.regions mr).enabled = true ∧
      (after.regions mr).dirtyLogMask = (before.regions mr).dirtyLogMask

namespace Unseen

variable {before after later : MemoryState δ} {change : MemoryRegion → MemoryRegion}

theorem of_fields (regions : after.regions = before.regions)
    (spaces : after.addressSpaces = before.addressSpaces) (dev : after.dev = before.dev)
    (pending : after.updatePending = false → before.updatePending = false) : Unseen before after :=
  ⟨⟨[], by simp [spaces]⟩, dev, fun _ => by rw [regions],
    fun idle => ⟨pending idle, fun _ enabled => by rw [regions]; exact ⟨enabled, rfl⟩⟩⟩

theorem trans (first : Unseen before after) (second : Unseen after later) :
    Unseen before later := by
  obtain ⟨firstMore, firstSpaces, firstEmpty⟩ := first.spaces
  obtain ⟨secondMore, secondSpaces, secondEmpty⟩ := second.spaces
  refine ⟨⟨firstMore ++ secondMore, ?_, ?_⟩, second.dev.trans first.dev,
    fun mr => (second.ram mr).trans (first.ram mr), fun idle => ?_⟩
  · rw [secondSpaces, firstSpaces, List.append_assoc]
  · exact List.forall_mem_append.mpr ⟨firstEmpty, secondEmpty⟩
  obtain ⟨middle, secondKeeps⟩ := second.settled idle
  obtain ⟨start, firstKeeps⟩ := first.settled middle
  refine ⟨start, fun mr enabled => ?_⟩
  obtain ⟨stillEnabled, firstMask⟩ := firstKeeps mr enabled
  obtain ⟨finallyEnabled, secondMask⟩ := secondKeeps mr stillEnabled
  exact ⟨finallyEnabled, secondMask.trans firstMask⟩

theorem edit (kept : ∀ region : MemoryRegion, region.Alike (change region) ∧
      (change region).enabled = region.enabled) : Unseen state (state.edit mr change) := by
  refine ⟨⟨[], (List.append_nil _).symm, by simp⟩, rfl,
    fun other => edit_frame (·.ram) fun region => (kept region).1.ram,
    fun idle => ⟨idle, fun other isEnabled => ?_⟩⟩
  exact ⟨(edit_frame (·.enabled) fun region => (kept region).2).trans isEnabled,
    edit_frame (·.dirtyLogMask) fun region => (kept region).1.mask⟩

theorem edit_pend (ram : ∀ region, (change region).ram = region.ram) :
    Unseen state ((state.edit mr change).pend (state.regions mr).enabled) := by
  refine ⟨⟨[], (List.append_nil _).symm, by simp⟩, rfl,
    fun other => edit_frame (·.ram) ram, fun idle => ?_⟩
  obtain ⟨start, disabled⟩ := Bool.or_eq_false_iff.mp idle
  refine ⟨start, fun other isEnabled => ?_⟩
  have different : other ≠ mr := by
    rintro rfl
    rw [disabled] at isEnabled
    cases isEnabled
  have same : ((state.edit mr change).pend (state.regions mr).enabled).regions other =
      state.regions other := edit_other different
  rw [same]
  exact ⟨isEnabled, rfl⟩

theorem edit_update (ram : ∀ region, (change region).ram = region.ram) :
    Unseen state ((state.edit mr change).pend true) := by
  refine ⟨⟨[], (List.append_nil _).symm, by simp⟩, rfl,
    fun other => edit_frame (·.ram) ram, fun idle => ?_⟩
  obtain ⟨-, updated⟩ := Bool.or_eq_false_iff.mp idle
  cases updated

theorem silent : Silent (Unseen (δ := δ)) where
  trans := Unseen.trans
  depth _ _ := of_fields rfl rfl rfl id
  pend _ _ := of_fields rfl rfl rfl fun idle => (Bool.or_eq_false_iff.mp idle).1
  place _ _ _ kept := edit kept
  set _ _ _ kept := edit_pend fun region => (kept region).ram
  enable _ _ _ := edit_update fun _ => rfl
  init _ root := ⟨⟨[⟨some root, []⟩], rfl, by simp⟩, rfl, fun _ => rfl,
    fun idle => ⟨idle, fun _ enabled => ⟨enabled, rfl⟩⟩⟩

end Unseen

/-- A call changes nothing that can be seen, or it ends with a commit. -/
theorem apiStep_unseen {call : ApiCall} (result : apiStep listener fuel state call = some next) :
    (Unseen state next ∧ next.updatePending = state.updatePending ∧
        (next.transactionDepth = 0 → state.transactionDepth = 0)) ∨
      ∃ inside, Unseen state inside ∧ transactionCommit listener fuel inside = some next :=
  apiStep_silent Unseen.silent (fun _ _ _ _ => .edit_pend fun _ => rfl) result

end Calls

section Update

variable {ramPtr : Nat → UInt64} {regions : Regions} {fuel : Nat} {view new old : FlatView}
  {hostmem after : HostMem}

theorem hostmemListenerAppendRegion_cases {fr : FlatRange}
    (result : hostmemListenerAppendRegion ramPtr regions (fr.sectionAt 0) hostmem = some after) :
    after.currentRegions = hostmem.currentRegions ∧
      after.newRegions = hostmem.newRegions ++
        (unloggedRam regions [fr]).map (·.hostRegion ramPtr) ∧
      ∀ range ∈ unloggedRam regions [fr], range.addr.size < 2 ^ 64 := by
  by_cases listed : (regions fr.mr).ram = true ∧ (regions fr.mr).dirtyLogMask = 0
  · have alone : unloggedRam regions [fr] = [fr] := by simp [unloggedRam, listed]
    rw [hostmemListenerAppendRegion, if_neg (by simp [FlatRange.sectionAt, listed]),
      if_neg (by simp [FlatRange.sectionAt, listed])] at result
    obtain ⟨size, size_eq, rfl⟩ := Option.map_eq_some_iff.mp result
    rw [int128Get64, Option.ite_none_right_eq_some] at size_eq
    obtain ⟨⟨-, small⟩, size_eq⟩ := size_eq
    cases size_eq
    rw [alone]
    exact ⟨rfl, rfl, List.forall_mem_singleton.mpr small⟩
  · have nothing : unloggedRam regions [fr] = [] := by simpa [unloggedRam] using listed
    have same : after = hostmem := by
      rw [hostmemListenerAppendRegion] at result
      split_ifs at result with notRam logged
      · exact (Option.some.inj result).symm
      · exact (Option.some.inj result).symm
      · exact absurd ⟨by simpa [FlatRange.sectionAt] using notRam,
          by simpa [FlatRange.sectionAt] using logged⟩ listed
    rw [nothing, same, List.map_nil, List.append_nil]
    exact ⟨rfl, rfl, List.forall_mem_nil _⟩

theorem append_ranges : ∀ {view : FlatView} {hostmem : HostMem},
    view.foldlM (fun hostmem fr =>
      hostmemListenerAppendRegion ramPtr regions (fr.sectionAt 0) hostmem) hostmem = some after →
    after.currentRegions = hostmem.currentRegions ∧
      after.newRegions = hostmem.newRegions ++
        (unloggedRam regions view).map (·.hostRegion ramPtr) ∧
      ∀ fr ∈ unloggedRam regions view, fr.addr.size < 2 ^ 64
  | [], hostmem, result => by
    cases result
    simp [unloggedRam]
  | fr :: rest, hostmem, result => by
    rw [List.foldlM_cons] at result
    obtain ⟨next, first, later⟩ := Option.bind_eq_some_iff.mp result
    obtain ⟨firstCurrent, firstNew, firstSize⟩ := hostmemListenerAppendRegion_cases first
    obtain ⟨laterCurrent, laterNew, laterSize⟩ := append_ranges later
    have split : unloggedRam regions (fr :: rest) =
        unloggedRam regions [fr] ++ unloggedRam regions rest := by
      rw [← List.singleton_append, unloggedRam, List.filter_append]
      rfl
    rw [split, laterCurrent, firstCurrent, laterNew, firstNew, List.map_append, List.append_assoc]
    exact ⟨rfl, rfl, List.forall_mem_append.mpr ⟨firstSize, laterSize⟩⟩

theorem append_ranges_lists (flat : view.Flat) {current : List HostMemRegion}
    (result : view.foldlM (fun hostmem fr =>
      hostmemListenerAppendRegion ramPtr regions (fr.sectionAt 0) hostmem) ⟨[], current⟩ =
        some after) : (hostmemListenerCommit after).Lists ramPtr regions view := by
  obtain ⟨-, new, sizes⟩ := append_ranges result
  have part : (unloggedRam regions view).Sublist view := List.filter_sublist
  refine ⟨new, flat.ordered.pairwise.sublist part, fun fr member => ?_⟩
  obtain ⟨low, nonempty⟩ := flat.ordered.bounds fr (part.subset member)
  have high := flat.high fr (part.subset member)
  have small := sizes fr member
  refine ⟨?_, ?_, high⟩
  all_goals
    simp only [AddrRange.last] at high
    rw [UInt64.toNat_ofNat']
    omega

section Dispatch

variable {call : SectionCall} {sec : MemoryRegionSection} {dev : Option HostMem}

theorem dispatchCall_ignored (ignored : call.current? = none) :
    dispatchCall (hostmemListener ramPtr) regions dev call = some dev := by
  cases call with
  | add sec | nop sec => cases ignored
  | del sec | logStart sec | logStop sec => exact ite_self _

theorem dispatchCall_current (current : call.current? = some sec) (space : sec.addressSpace = 0) :
    dispatchCall (hostmemListener ramPtr) regions dev call =
      dev.mapM (hostmemListenerAppendRegion ramPtr regions sec) := by
  have passes : memoryListenerMatch (hostmemListener ramPtr) sec = true := by
    simp [memoryListenerMatch, hostmemListener, space]
  cases call with
  | add other | nop other =>
    cases current
    exact if_pos passes
  | del other | logStart other | logStop other => cases current

theorem dispatchCall_unregistered :
    dispatchCall (hostmemListener ramPtr) regions none call = some none := by
  cases call <;> exact ite_self _

end Dispatch

theorem hostmemInit_lists (flat : view.Flat)
    (result : hostmemInit ramPtr regions view = some hostmem) :
    hostmem.newRegions = [] ∧ hostmem.Lists ramPtr regions view := by
  obtain ⟨appended, appends, result⟩ := Option.bind_eq_some_iff.mp result
  have sections : view.foldlM (fun hostmem fr =>
      hostmemListenerAppendRegion ramPtr regions (fr.sectionAt 0) hostmem) ⟨[], []⟩ =
        some appended := by
    refine foldlM_follow (fun fr member hostmem next step => ?_) appends
    rwa [flat.toSection member, Option.bind_some] at step
  have committed : hostmem = hostmemListenerCommit appended := by
    rw [← Option.some.inj result]
    split
    · rfl
    next empty =>
      -- without RAM there is nothing to commit
      obtain ⟨current, -, -⟩ := append_ranges sections
      obtain ⟨new, current⟩ := appended
      cases new with
      | nil => simp_all [hostmemListenerCommit]
      | cons region rest => exact absurd (Nat.succ_pos _) empty
  subst committed
  exact ⟨rfl, append_ranges_lists flat sections⟩

/-- The listener appends the sections that it is told of, and ignores the other calls. -/
theorem foldlM_dispatchCall : ∀ {calls : List SectionCall} {hostmem : HostMem},
    (∀ sec ∈ calls.filterMap SectionCall.current?, sec.addressSpace = 0) →
    calls.foldlM (dispatchCall (hostmemListener ramPtr) regions) (some hostmem) =
      ((calls.filterMap SectionCall.current?).foldlM
        (fun hostmem sec => hostmemListenerAppendRegion ramPtr regions sec hostmem) hostmem).map
          some
  | [], hostmem, _ => rfl
  | call :: rest, hostmem, spaces => by
    rw [List.foldlM_cons]
    cases current : call.current? with
    | none =>
      rw [List.filterMap_cons_none current] at spaces ⊢
      rw [dispatchCall_ignored current]
      exact foldlM_dispatchCall spaces
    | some sec =>
      rw [List.filterMap_cons_some current] at spaces ⊢
      obtain ⟨here, later⟩ := List.forall_mem_cons.mp spaces
      rw [dispatchCall_current current here, List.foldlM_cons]
      cases appended : hostmemListenerAppendRegion ramPtr regions sec hostmem with
      | none => simp [appended]
      | some next => simpa [appended] using foldlM_dispatchCall later

theorem pass_unregistered (oldFlat : old.Flat) (newFlat : new.Flat) {adding : Bool}
    {dev : Option HostMem}
    (result : addressSpaceUpdateTopologyPass (hostmemListener ramPtr) regions 0 old
      new adding none =
      some dev) : dev = none := by
  rw [addressSpaceUpdateTopologyPass_eq _ _ oldFlat newFlat] at result
  refine foldlM_invariant (· = none) (fun state call member next unregistered step => ?_) rfl result
  subst unregistered
  rw [dispatchCall_unregistered] at step
  exact (Option.some.inj step).symm

theorem pass_deleting (oldFlat : old.Flat) (newFlat : new.Flat) :
    addressSpaceUpdateTopologyPass (hostmemListener ramPtr) regions 0 old new false (some hostmem) =
      some (some hostmem) := by
  have none : (passCalls 0 old new false).filterMap SectionCall.current? = [] := by
    refine List.filterMap_eq_nil_iff.mpr fun call member => ?_
    have deletes := passCalls_deleting member
    cases call with
    | del sec => rfl
    | add | nop | logStart | logStop => cases deletes
  rw [addressSpaceUpdateTopologyPass_eq _ _ oldFlat newFlat, foldlM_dispatchCall (by simp [none]),
    none]
  rfl

theorem pass_adding (oldFlat : old.Flat) (newFlat : new.Flat) :
    addressSpaceUpdateTopologyPass (hostmemListener ramPtr) regions 0 old new true (some hostmem) =
      (new.foldlM (fun hostmem fr =>
        hostmemListenerAppendRegion ramPtr regions (fr.sectionAt 0) hostmem) hostmem).map some := by
  rw [addressSpaceUpdateTopologyPass_eq _ _ oldFlat newFlat, foldlM_dispatchCall, passCalls_current,
    List.foldlM_map]
  intro sec member
  rw [passCalls_current] at member
  obtain ⟨fr, -, rfl⟩ := List.mem_map.mp member
  rfl

end Update

section Runs

variable {ramPtr : Nat → UInt64} {fuel : Nat} {state inside next : MemoryState (Option HostMem)}

/-- Unless an update is pending, the ranges of the view are of enabled regions and listed. -/
structure Tracks (ramPtr : Nat → UInt64) (state : MemoryState (Option HostMem)) : Prop where
  flat : state.currentMap.Flat
  enabled : state.updatePending = false → ∀ fr ∈ state.currentMap,
    (state.regions fr.mr).enabled = true
  reset : ∀ hostmem ∈ state.dev, hostmem.newRegions = []
  lists : state.updatePending = false → ∀ hostmem ∈ state.dev,
    hostmem.Lists ramPtr state.regions state.currentMap

theorem unloggedRam_congr {before after : Regions} {view : FlatView}
    (same : ∀ fr ∈ view, (after fr.mr).ram = (before fr.mr).ram ∧
      (after fr.mr).dirtyLogMask = (before fr.mr).dirtyLogMask) :
    unloggedRam after view = unloggedRam before view :=
  List.filter_congr fun fr member => by rw [(same fr member).1, (same fr member).2]

theorem Tracks.unseen (tracks : Tracks ramPtr state) (unseen : Unseen state inside) :
    Tracks ramPtr inside := by
  obtain ⟨more, spaces, empty⟩ := unseen.spaces
  have view : inside.currentMap = state.currentMap := currentMap_append spaces empty
  refine ⟨view ▸ tracks.flat, fun idle fr member => ?_, fun hostmem isDev => ?_,
    fun idle hostmem isDev => ?_⟩
  · obtain ⟨before, keeps⟩ := unseen.settled idle
    rw [view] at member
    exact (keeps fr.mr (tracks.enabled before fr member)).1
  · exact tracks.reset hostmem (unseen.dev ▸ isDev)
  obtain ⟨before, keeps⟩ := unseen.settled idle
  have same : unloggedRam inside.regions state.currentMap =
      unloggedRam state.regions state.currentMap :=
    unloggedRam_congr fun fr member =>
      ⟨unseen.ram fr.mr, (keeps fr.mr (tracks.enabled before fr member)).2⟩
  obtain ⟨regions_eq, sorted, exactly⟩ := tracks.lists before hostmem (unseen.dev ▸ isDev)
  rw [view]
  rw [← same] at regions_eq sorted exactly
  exact ⟨regions_eq, sorted, exactly⟩

theorem update_lists {regions : Regions} {as updated : AddressSpace} {dev after : Option HostMem}
    (flat : as.currentMap.Flat) (reset : ∀ hostmem ∈ dev, hostmem.newRegions = []) (result :
    addressSpaceUpdateTopology (hostmemListener ramPtr) fuel regions 0 as dev = some (updated,
    after)) : updated.currentMap.Flat ∧ (∀ fr ∈ updated.currentMap, (regions fr.mr).enabled = true)
    ∧ ∀ hostmem ∈ after, (hostmemListenerCommit hostmem).Lists ramPtr regions updated.currentMap :=
    by
  obtain ⟨newView, generated, passes⟩ := Option.bind_eq_some_iff.mp result
  obtain ⟨deleted, del, passes⟩ := Option.bind_eq_some_iff.mp passes
  obtain ⟨added, add, passes⟩ := Option.bind_eq_some_iff.mp passes
  cases passes
  have newFlat := (generateMemoryTopology_rendered generated).flat
  refine ⟨newFlat, generateMemoryTopology_forall (fun mr _ => (regions mr).enabled = true)
    (fun _ _ enabled => enabled) generated, fun hostmem isDev => ?_⟩
  cases dev with
  | none =>
    rw [pass_unregistered flat newFlat del] at add
    rw [pass_unregistered flat newFlat add] at isDev
    cases isDev
  | some old =>
    obtain ⟨new, current⟩ := old
    obtain rfl : new = [] := reset _ rfl
    rw [pass_deleting flat newFlat] at del
    cases del
    rw [pass_adding flat newFlat] at add
    obtain ⟨appended, appends, rfl⟩ := Option.map_eq_some_iff.mp add
    cases isDev
    exact append_ranges_lists newFlat appends

theorem Tracks.flush (tracks : Tracks ramPtr state)
    (result : flush (hostmemListener ramPtr) fuel state = some next) :
    Tracks ramPtr next ∧ next.updatePending = false := by
  obtain ⟨⟨spaces, updated⟩, update, result⟩ := Option.bind_eq_some_iff.mp result
  obtain ⟨committed, commit, result⟩ := Option.bind_eq_some_iff.mp result
  cases commit
  cases result
  suffices tracked : ∀ view, currentMap
      { state with updatePending := false, addressSpaces := spaces,
                   dev := updated.map hostmemListenerCommit } = view →
      view.Flat ∧ (∀ fr ∈ view, (state.regions fr.mr).enabled = true) ∧
        ∀ hostmem ∈ updated, (hostmemListenerCommit hostmem).Lists ramPtr state.regions view by
    obtain ⟨flat, enabled, lists⟩ := tracked _ rfl
    refine ⟨⟨flat, fun _ => enabled, fun hostmem isDev => ?_, fun _ hostmem isDev => ?_⟩, rfl⟩
    all_goals obtain ⟨before, isBefore, rfl⟩ := Option.mem_map.mp isDev
    · rfl
    · exact lists before isBefore
  obtain ⟨regions, depth, pending, oldSpaces, dev⟩ := state
  obtain ⟨flat, -, reset, -⟩ := tracks
  cases oldSpaces with
  | nil =>
    cases update
    rintro view rfl
    refine ⟨flat, nofun, fun hostmem isDev => ?_⟩
    exact ⟨reset hostmem isDev, .nil, nofun⟩
  | cons as rest =>
    obtain ⟨⟨first, firstDev⟩, firstResult, update⟩ := Option.bind_eq_some_iff.mp update
    obtain ⟨⟨later, laterDev⟩, laterResult, update⟩ := Option.bind_eq_some_iff.mp update
    cases update
    obtain rfl := updateSpaces_other rfl Nat.zero_lt_one laterResult
    rintro view rfl
    exact update_lists flat reset firstResult

/-- Outside transactions no update is pending. -/
structure Tracked (ramPtr : Nat → UInt64) (state : MemoryState (Option HostMem)) : Prop
    extends Tracks ramPtr state where
  idle : state.transactionDepth = 0 → state.updatePending = false

theorem Tracks.commit (tracks : Tracks ramPtr state)
    (result : transactionCommit (hostmemListener ramPtr) fuel state = some next) :
    Tracked ramPtr next := by
  have entered (depth : Nat) : Tracks ramPtr { state with transactionDepth := depth } :=
    tracks.unseen (.of_fields rfl rfl rfl id)
  obtain ⟨depth, -, ⟨rfl, idle⟩ | ⟨-, flush⟩⟩ := transactionCommit_cases result
  · exact ⟨entered depth, idle⟩
  · obtain ⟨flushed, idle⟩ := (entered depth).flush flush
    exact ⟨flushed, fun _ => idle⟩

theorem Tracked.step {action : HostMemAction} (tracked : Tracked ramPtr state)
    (taken : (hostmemMachine ramPtr fuel).step state action = some next) : Tracked ramPtr next := by
  cases action with
  | api call =>
    obtain ⟨unseen, pending, depth⟩ | ⟨inside, unseen, commit⟩ := apiStep_unseen taken
    · exact ⟨tracked.unseen unseen, fun outside => pending.trans (tracked.idle (depth outside))⟩
    · exact (tracked.unseen unseen).commit commit
  | init =>
    simp only [hostmemMachine, Option.ite_none_left_eq_some] at taken
    obtain ⟨-, taken⟩ := taken
    obtain ⟨hostmem, init, rfl⟩ := Option.map_eq_some_iff.mp taken
    obtain ⟨reset, lists⟩ := hostmemInit_lists tracked.flat init
    refine ⟨⟨tracked.flat, tracked.enabled, ?_, fun _ => ?_⟩, tracked.idle⟩
    all_goals
      rintro _ ⟨⟩
      assumption

/-- In every history, outside transactions: the list is the RAM of the view that is not under dirty
logging, in order, and a lookup is exact unless a section that ends at 2^64 should serve it. -/
theorem hostmem_exact_iff
    {bsearch : (HostMemRegion → Int) → List HostMemRegion → Option HostMemRegion}
    (searches : Searches bsearch)
    (reached : (hostmemMachine ramPtr fuel).Reached Machine.anyAction state)
    (outside : state.transactionDepth = 0) {hostmem : HostMem}
    (registered : state.dev = some hostmem) :
    hostmem.Lists ramPtr state.regions state.currentMap ∧
    ∀ phys len isWrite,
      ExactLookup ramPtr state.regions state.currentMap (hostmemLookup bsearch hostmem)
          phys len isWrite ↔
        ¬ ∃ fr ∈ unloggedRam state.regions state.currentMap,
          fr.addr.last = 2 ^ 64 ∧ fr.Serves phys len isWrite := by
  have tracked : Tracked ramPtr state := by
    refine reached.invariant (fun start initial => ?_) fun _ _ _ tracked _ => tracked.step
    obtain ⟨⟨-, idle, spaces, -⟩, unregistered⟩ := initial
    have view : start.currentMap = [] := by rw [currentMap, spaces]
    refine ⟨⟨?_, fun _ => ?_, ?_, fun _ => ?_⟩, fun _ => idle⟩
    · rw [view]
      exact ⟨trivial, List.forall_mem_nil _⟩
    · rw [view]
      exact List.forall_mem_nil _
    all_goals
      rw [unregistered]
      rintro _ ⟨⟩
  have lists := tracked.lists (tracked.idle outside) hostmem registered
  exact ⟨lists, fun phys len isWrite => lists.exactLookup_iff searches⟩

end Runs

/-! ### A page at the end of the address space -/

def pagesState : MemoryState (Option HostMem) where
  regions mr :=
    { memoryRegionInit (if mr = 0 then 0xffffffffffffffff else 0x1000) with
      terminates := mr ≠ 0, ram := mr ≠ 0 }
  transactionDepth := 0
  updatePending := false
  addressSpaces := []
  dev := none

def pagesPtr (mr : Nat) : UInt64 := 0x7f0000000000 + 0x1000 * .ofNat mr

def pagesRun : List HostMemAction :=
  [.api (.addressSpaceInit 0), .init, .api (.addSubregion 0 0x1000 1),
    .api (.addSubregion 0 0xfffffffffffff000 2)]

theorem pagesRun_reached : ∃ state hostmem,
    (hostmemMachine pagesPtr 2).Reached Machine.anyAction state ∧ state.transactionDepth = 0 ∧
      state.dev = some hostmem ∧
      hostmemLookup bisect hostmem 0x1010 0x10 true = some 0x7f0000001010 ∧
      hostmemLookup bisect hostmem 0xfffffffffffff010 0x10 true = none ∧
      unloggedRam state.regions state.currentMap =
        [⟨1, 0, ⟨0x1000, 0x1000⟩, 0, true, false⟩,
          ⟨2, 0, ⟨0xfffffffffffff000, 0x1000⟩, 0, true, false⟩] := by
  have ran : ((hostmemMachine pagesPtr 2).run pagesRun pagesState).map (fun state =>
      (state.transactionDepth, state.dev.map (fun hostmem =>
        (hostmemLookup bisect hostmem 0x1010 0x10 true,
          hostmemLookup bisect hostmem 0xfffffffffffff010 0x10 true)),
        unloggedRam state.regions state.currentMap)) =
      some (0, some (some 0x7f0000001010, none), [⟨1, 0, ⟨0x1000, 0x1000⟩, 0, true, false⟩,
        ⟨2, 0, ⟨0xfffffffffffff000, 0x1000⟩, 0, true, false⟩]) := by decide +kernel
  have start : (hostmemMachine pagesPtr 2).start pagesState :=
    ⟨⟨rfl, rfl, rfl, fun _ => ⟨rfl, rfl⟩⟩, rfl⟩
  obtain ⟨state, reached, fields⟩ := Machine.evaluate_any ran start
  simp only [Prod.mk.injEq, Option.map_eq_some_iff] at fields
  obtain ⟨outside, ⟨hostmem, registered, low, top⟩, view⟩ := fields
  exact ⟨state, hostmem, reached, outside, registered, low, top, view⟩

theorem hostmem_exact_iff_pages : ∃ state hostmem,
    (hostmemMachine pagesPtr 2).Reached Machine.anyAction state ∧ state.transactionDepth = 0 ∧
      state.dev = some hostmem ∧ hostmem.Lists pagesPtr state.regions state.currentMap ∧
      ExactLookup pagesPtr state.regions state.currentMap (hostmemLookup bisect hostmem)
        0x1010 0x10 true := by
  obtain ⟨state, hostmem, reached, outside, registered, -, -, view⟩ := pagesRun_reached
  obtain ⟨lists, exact_iff⟩ := hostmem_exact_iff bisect_searches reached outside registered
  refine ⟨state, hostmem, reached, outside, registered, lists, (exact_iff _ _ _).mpr ?_⟩
  rintro ⟨fr, member, top, serves⟩
  have within := serves.within
  rw [view, List.mem_pair] at member
  rcases member with rfl | rfl
  · exact absurd top (by decide)
  · exact absurd within (by decide)

/-- The page at the end of the address space is in the view, and a lookup does not find it. -/
theorem hostmem_misses_top : ∃ state hostmem,
    (hostmemMachine pagesPtr 2).Reached Machine.anyAction state ∧ state.transactionDepth = 0 ∧
      state.dev = some hostmem ∧
      ¬ ExactLookup pagesPtr state.regions state.currentMap (hostmemLookup bisect hostmem)
        0xfffffffffffff010 0x10 true := by
  obtain ⟨state, hostmem, reached, outside, registered, -, missed, view⟩ := pagesRun_reached
  refine ⟨state, hostmem, reached, outside, registered, fun exactly => ?_⟩
  have served := (exactly 0x7f0000002010).mpr
    ⟨⟨2, 0, ⟨0xfffffffffffff000, 0x1000⟩, 0, true, false⟩, by rw [view]; decide,
      ⟨by decide, by decide, fun _ => rfl⟩, by decide⟩
  rw [missed] at served
  cases served

end VhostUser.Qemu
