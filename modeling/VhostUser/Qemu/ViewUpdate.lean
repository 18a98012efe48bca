import VhostUser.Qemu.MemoryApi

/-!
Contract: the callbacks of the two passes of `address_space_update_topology`
(`memory.c`) turn a listener that holds the sections of the old view into one
that holds those of the new view.

The callbacks of a pass are listed once (`passCalls`); what a pass does to any
listener is the callbacks in turn (`addressSpaceUpdateTopologyPass_eq`).

Owns: `recorder`, a listener that writes the callbacks down, `holder`, one that
holds sections and insists on what it is told, and what an update does to both.
-/

namespace VhostUser.Qemu

open VhostUser.Lib
open FlatRange

/-! ### The callbacks of a pass -/

inductive SectionCall where
  | add (sec : MemoryRegionSection)
  | del (sec : MemoryRegionSection)
  | nop (sec : MemoryRegionSection)
  | logStart (sec : MemoryRegionSection)
  | logStop (sec : MemoryRegionSection)
deriving DecidableEq, Repr

namespace SectionCall

def isDel : SectionCall → Bool
  | .del _ => true
  | _ => false

def current? : SectionCall → Option MemoryRegionSection
  | .add sec | .nop sec => some sec
  | _ => none

end SectionCall

/-- The section of a range that starts in the 64-bit space. -/
def FlatRange.sectionAt (space : Nat) (fr : FlatRange) : MemoryRegionSection :=
  ⟨fr.mr, space, fr.offsetInRegion, fr.addr.size, .ofNat fr.addr.start.toNat, fr.readonly⟩

/-- A flat view: ranges that are not empty, do not overlap and increase, in the
64-bit space. -/
structure FlatView.Flat (view : FlatView) : Prop where
  ordered : OrderedFrom 0 view
  high : ∀ fr ∈ view, fr.addr.last ≤ 2 ^ 64

theorem Rendered.flat {regions : Regions} {view : FlatView} (rendered : Rendered regions view) :
    view.Flat :=
  ⟨rendered.ordered, fun fr member => (rendered.placed fr member).high⟩

def Change.calls (space : Nat) (adding : Bool) : Change → List SectionCall
  | .del old => if adding then [] else [.del (old.sectionAt space)]
  | .keep old new =>
    if adding then
      .nop (new.sectionAt space) ::
        if old.dirtyLogMask ≠ 0 && new.dirtyLogMask = 0 then [.logStop (new.sectionAt space)]
        else if new.dirtyLogMask ≠ 0 && old.dirtyLogMask = 0 then
          [.logStart (new.sectionAt space)]
        else []
    else []
  | .add new => if adding then [.add (new.sectionAt space)] else []

def passCalls (space : Nat) (old new : FlatView) (adding : Bool) : List SectionCall :=
  (flatviewDiff old new).flatMap (Change.calls space adding)

section Pass

variable {δ : Type} (listener : MemoryListener δ) (regions : Regions) {fr : FlatRange}
  {view : FlatView}

def dispatchCall (dev : δ) (call : SectionCall) : Option δ :=
  let notify (callback : SectionCallback δ) (sec : MemoryRegionSection) : Option δ :=
    if memoryListenerMatch listener sec then callback regions sec dev else some dev
  match call with
  | .add sec => notify listener.regionAdd sec
  | .del sec => notify listener.regionDel sec
  | .nop sec => notify listener.regionNop sec
  | .logStart sec => notify listener.logStart sec
  | .logStop sec => notify listener.logStop sec

theorem FlatView.Flat.toSection (flat : view.Flat) (member : fr ∈ view) (space : Nat) :
    fr.toSection space = some (fr.sectionAt space) := by
  obtain ⟨low, nonempty⟩ := flat.ordered.bounds fr member
  have high := flat.high fr member
  simp only [AddrRange.last] at high
  rw [FlatRange.toSection, int128Get64, if_pos (by omega)]
  rfl

theorem updateRegion_eq (flat : view.Flat) (member : fr ∈ view) (callback : SectionCallback δ)
    (space : Nat) (dev : δ) :
    updateRegion listener callback regions space fr dev =
      if memoryListenerMatch listener (fr.sectionAt space) then
        callback regions (fr.sectionAt space) dev
      else some dev := by
  rw [updateRegion, flat.toSection member, Option.bind_some]

/-- To any listener, a pass is its callbacks in turn. -/
theorem addressSpaceUpdateTopologyPass_eq {old new : FlatView} (oldFlat : old.Flat)
    (newFlat : new.Flat) (space : Nat) (adding : Bool) (dev : δ) :
    addressSpaceUpdateTopologyPass listener regions space old new adding dev =
      (passCalls space old new adding).foldlM (dispatchCall listener regions) dev := by
  refine foldlM_flatMap (fun change member dev => ?_) dev
  have inOld {range : FlatRange} (here : change.old? = some range) : range ∈ old := by
    rw [← flatviewDiff_old old new]
    exact List.mem_filterMap.mpr ⟨change, member, here⟩
  have inNew {range : FlatRange} (here : change.new? = some range) : range ∈ new := by
    rw [← flatviewDiff_new old new]
    exact List.mem_filterMap.mpr ⟨change, member, here⟩
  cases change with
  | del range =>
    cases adding with
    | true => rfl
    | false =>
      simp [topologyChange, Change.calls, updateRegion_eq _ _ oldFlat (inOld rfl), dispatchCall]
  | add range =>
    cases adding with
    | false => rfl
    | true =>
      simp [topologyChange, Change.calls, updateRegion_eq _ _ newFlat (inNew rfl), dispatchCall]
  | keep range same =>
    cases adding with
    | false => rfl
    | true =>
      simp only [topologyChange, Change.calls, updateRegion_eq _ _ newFlat (inNew rfl), if_true]
      rw [List.foldlM_cons]
      congr 1
      funext dev
      split
      · simp [dispatchCall]
      · split <;> simp [dispatchCall]

end Pass

/-! ### The order of the callbacks -/

def recorder : MemoryListener (List SectionCall) where
  begin := some
  commit := some
  regionAdd := fun _ sec calls => some (calls ++ [.add sec])
  regionDel := fun _ sec calls => some (calls ++ [.del sec])
  regionNop := fun _ sec calls => some (calls ++ [.nop sec])
  logStart := fun _ sec calls => some (calls ++ [.logStart sec])
  logStop := fun _ sec calls => some (calls ++ [.logStop sec])
  addressSpaceFilter := none

theorem dispatchCall_recorder (regions : Regions) (calls : List SectionCall) (call : SectionCall) :
    dispatchCall recorder regions calls call = some (calls ++ [call]) := by
  cases call <;> rfl

theorem foldlM_recorder (regions : Regions) (calls : List SectionCall) :
    ∀ before, calls.foldlM (dispatchCall recorder regions) before = some (before ++ calls) := by
  induction calls with
  | nil => simp
  | cons call rest ih =>
    intro before
    rw [List.foldlM_cons, dispatchCall_recorder]
    exact (ih _).trans (by simp)

section Calls

variable {space : Nat} {old new : FlatView} {call : SectionCall}

theorem passCalls_deleting (member : call ∈ passCalls space old new false) : call.isDel = true := by
  obtain ⟨change, -, member⟩ := List.mem_flatMap.mp member
  cases change with
  | del range =>
    obtain rfl := List.mem_singleton.mp member
    rfl
  | keep | add => cases member

theorem passCalls_adding (member : call ∈ passCalls space old new true) : call.isDel = false := by
  obtain ⟨change, -, member⟩ := List.mem_flatMap.mp member
  cases change with
  | del range => cases member
  | add range =>
    obtain rfl := List.mem_singleton.mp member
    rfl
  | keep range same =>
    rcases List.mem_cons.mp member with rfl | member
    · rfl
    split at member
    · obtain rfl := List.mem_singleton.mp member
      rfl
    split at member
    · obtain rfl := List.mem_singleton.mp member
      rfl
    · cases member

theorem Change.calls_current (space : Nat) (change : Change) :
    (change.calls space true).filterMap SectionCall.current? =
      (change.new?.map (sectionAt space)).toList := by
  cases change with
  | del range => rfl
  | add range => rfl
  | keep range same =>
    rw [Change.calls, if_pos rfl]
    split
    · rfl
    · split <;> rfl

theorem passCalls_current (space : Nat) (old new : FlatView) :
    (passCalls space old new true).filterMap SectionCall.current? = new.map (sectionAt space) := by
  have each (changes : List Change) :
      (changes.flatMap (Change.calls space true)).filterMap SectionCall.current? =
        (changes.filterMap Change.new?).map (sectionAt space) := by
    induction changes with
    | nil => rfl
    | cons change rest ih =>
      rw [List.flatMap_cons, List.filterMap_append, Change.calls_current, ih, List.filterMap_cons]
      cases change.new? <;> rfl
  rw [passCalls, each, flatviewDiff_new]

end Calls

/-! ### A listener that holds sections -/

def MemoryRegionSection.Disjoint (left right : MemoryRegionSection) : Prop :=
  left.offsetWithinAddressSpace.toNat + left.size ≤ right.offsetWithinAddressSpace.toNat ∨
    right.offsetWithinAddressSpace.toNat + right.size ≤ left.offsetWithinAddressSpace.toNat

theorem MemoryRegionSection.Disjoint.symm {left right : MemoryRegionSection}
    (apart : left.Disjoint right) : right.Disjoint left :=
  Or.symm apart

instance (left right : MemoryRegionSection) : Decidable (left.Disjoint right) :=
  inferInstanceAs (Decidable (_ ∨ _))

/-- A listener that holds sections. It refuses a section that overlaps one it holds, and calls
about others. -/
def holder : MemoryListener (List MemoryRegionSection) where
  begin := some
  commit := some
  regionAdd := fun _ sec held =>
    if ∀ other ∈ held, sec.Disjoint other then some (sec :: held) else none
  regionDel := fun _ sec held => if sec ∈ held then some (held.erase sec) else none
  regionNop := fun _ sec held => if sec ∈ held then some held else none
  logStart := fun _ sec held => if sec ∈ held then some held else none
  logStop := fun _ sec held => if sec ∈ held then some held else none
  addressSpaceFilter := none

section Holder

variable {regions : Regions} {space : Nat} {held done : List MemoryRegionSection}
  {sec : MemoryRegionSection} {range same : FlatRange}

theorem dispatchCall_holder_del (member : sec ∈ held) :
    dispatchCall holder regions held (.del sec) = some (held.erase sec) := if_pos member

theorem dispatchCall_holder_add (apart : ∀ other ∈ held, sec.Disjoint other) :
    dispatchCall holder regions held (.add sec) = some (sec :: held) := if_pos apart

theorem sectionAt_of_equal (equal : flatrangeEqual range same = true) (space : Nat) :
    range.sectionAt space = same.sectionAt space := by
  simp only [flatrangeEqual, Bool.and_eq_true, decide_eq_true_eq] at equal
  obtain ⟨⟨⟨⟨mr, addr⟩, offset⟩, -⟩, readonly⟩ := equal
  rw [sectionAt, sectionAt, mr, addr, offset, readonly]

theorem foldlM_holder_deleting : ∀ {changes : List Change} {held done : List MemoryRegionSection},
    (∀ range same, .keep range same ∈ changes → flatrangeEqual range same = true) →
    held.Perm (done ++ (changes.filterMap Change.old?).map (sectionAt space)) →
    ∃ kept, (changes.flatMap (Change.calls space false)).foldlM
        (dispatchCall holder regions) held = some kept ∧
      kept.Perm (done ++ (changes.filterMap Change.keptNew?).map (sectionAt space))
  | [], held, done, _, holds => ⟨held, rfl, holds⟩
  | change :: rest, held, done, equal, holds => by
    have restEqual := fun range same member =>
      equal range same (List.mem_cons_of_mem change member)
    rw [List.flatMap_cons, List.foldlM_append]
    cases change with
    | add range => exact foldlM_holder_deleting restEqual holds
    | keep range same =>
      have moved : held.Perm ((done ++ [range.sectionAt space]) ++
          (rest.filterMap Change.old?).map (sectionAt space)) := by
        simpa using holds
      obtain ⟨kept, result, keeps⟩ := foldlM_holder_deleting restEqual moved
      refine ⟨kept, result, ?_⟩
      rw [sectionAt_of_equal (equal range same List.mem_cons_self)] at keeps
      simpa [Change.keptNew?] using keeps
    | del range =>
      have front : held.Perm (range.sectionAt space :: (done ++
          (rest.filterMap Change.old?).map (sectionAt space))) := by
        refine holds.trans ?_
        simp
      have member : range.sectionAt space ∈ held := front.mem_iff.mpr List.mem_cons_self
      have erased := (List.perm_cons_erase member).symm.trans front
      obtain ⟨kept, result, keeps⟩ :=
        @foldlM_holder_deleting rest _ done restEqual ((List.perm_cons _).mp erased)
      refine ⟨kept, ?_, keeps⟩
      rw [← result]
      simp [Change.calls, dispatchCall_holder_del member]

/-- What a kept range makes the second pass call leaves the holder as it is. -/
theorem foldlM_holder_keep (member : same.sectionAt space ∈ held) :
    ((Change.keep range same).calls space true).foldlM (dispatchCall holder regions) held =
      some held := by
  have nop : dispatchCall holder regions held (.nop (same.sectionAt space)) = some held :=
    if_pos member
  have start : dispatchCall holder regions held (.logStart (same.sectionAt space)) = some held :=
    if_pos member
  have stop : dispatchCall holder regions held (.logStop (same.sectionAt space)) = some held :=
    if_pos member
  rw [Change.calls, if_pos rfl, List.foldlM_cons, nop]
  split
  · simp [stop]
  · split
    · simp [start]
    · rfl

/-- The second pass adds the rest of the new view. `done` is what was reported
so far. -/
theorem foldlM_holder_adding : ∀ {changes : List Change} {held done : List MemoryRegionSection},
    (done ++ (changes.filterMap Change.new?).map (sectionAt space)).Pairwise
      MemoryRegionSection.Disjoint →
    held.Perm (done ++ (changes.filterMap Change.keptNew?).map (sectionAt space)) →
    ∃ final, (changes.flatMap (Change.calls space true)).foldlM
        (dispatchCall holder regions) held = some final ∧
      final.Perm (done ++ (changes.filterMap Change.new?).map (sectionAt space))
  | [], held, done, _, holds => ⟨held, rfl, holds⟩
  | change :: rest, held, done, apart, holds => by
    rw [List.flatMap_cons, List.foldlM_append]
    cases change with
    | del range => exact foldlM_holder_adding apart holds
    | keep range same =>
      have moved : held.Perm ((done ++ [same.sectionAt space]) ++
          (rest.filterMap Change.keptNew?).map (sectionAt space)) := by
        simpa [Change.keptNew?] using holds
      have member : same.sectionAt space ∈ held := moved.mem_iff.mpr (by simp)
      obtain ⟨final, result, holdsNew⟩ := foldlM_holder_adding (by simpa using apart) moved
      rw [foldlM_holder_keep member]
      exact ⟨final, result, by simpa using holdsNew⟩
    | add range =>
      have apartNew : (done ++ range.sectionAt space ::
          (rest.filterMap Change.new?).map (sectionAt space)).Pairwise
            MemoryRegionSection.Disjoint := by
        simpa using apart
      have fromRange := (List.pairwise_middle MemoryRegionSection.Disjoint.symm).mp apartNew
      rw [List.pairwise_cons] at fromRange
      have apartHeld : ∀ other ∈ held, (range.sectionAt space).Disjoint other := by
        intro other member
        refine fromRange.1 other ?_
        rcases List.mem_append.mp (holds.mem_iff.mp member) with before | kept
        · exact List.mem_append_left _ before
        · obtain ⟨same, sameMember, rfl⟩ := List.mem_map.mp kept
          exact List.mem_append_right _ (List.mem_map_of_mem
            (Change.mem_new_of_keptNew sameMember))
      have added : (range.sectionAt space :: held).Perm ((done ++ [range.sectionAt space]) ++
          (rest.filterMap Change.keptNew?).map (sectionAt space)) := by
        refine (List.Perm.cons _ holds).trans ?_
        rw [List.append_assoc]
        exact List.perm_middle.symm
      obtain ⟨final, result, holdsNew⟩ :=
        foldlM_holder_adding (by simpa using apart) added
      refine ⟨final, ?_, by simpa using holdsNew⟩
      rw [← result]
      simp [Change.calls, dispatchCall_holder_add apartHeld]

theorem FlatView.Flat.sections_disjoint {view : FlatView} (flat : view.Flat) (space : Nat) :
    (view.map (sectionAt space)).Pairwise MemoryRegionSection.Disjoint := by
  have start {fr : FlatRange} (member : fr ∈ view) :
      ((fr.sectionAt space).offsetWithinAddressSpace.toNat : Int) = fr.addr.start := by
    obtain ⟨low, nonempty⟩ := flat.ordered.bounds fr member
    have high := flat.high fr member
    simp only [AddrRange.last] at high
    simp only [sectionAt, UInt64.toNat_ofNat']
    omega
  rw [List.pairwise_map]
  refine flat.ordered.pairwise.imp_of_mem fun leftMember rightMember before => .inl ?_
  rw [start leftMember, start rightMember]
  exact before

/-- The callbacks of an update: first only deletions, then the ranges of the new view in order. A
listener that holds the sections of the old view deletes sections that it holds, adds sections
apart from those it holds, and ends up with the sections of the new view. -/
theorem addressSpaceUpdateTopology_refines {old new : FlatView} (oldFlat : old.Flat)
    (newFlat : new.Flat) (regions : Regions) (space : Nat) :
    ∃ deletes updates kept final,
      addressSpaceUpdateTopologyPass recorder regions space old new false [] = some deletes ∧
      addressSpaceUpdateTopologyPass recorder regions space old new true deletes =
        some (deletes ++ updates) ∧
      (∀ call ∈ deletes, call.isDel = true) ∧ (∀ call ∈ updates, call.isDel = false) ∧
      updates.filterMap SectionCall.current? = new.map (FlatRange.sectionAt space) ∧
      addressSpaceUpdateTopologyPass holder regions space old new false
        (old.map (FlatRange.sectionAt space)) = some kept ∧
      addressSpaceUpdateTopologyPass holder regions space old new true kept = some final ∧
      final.Perm (new.map (FlatRange.sectionAt space)) := by
  have holdsOld : (old.map (sectionAt space)).Perm ([] ++
      ((flatviewDiff old new).filterMap Change.old?).map (sectionAt space)) := by
    rw [flatviewDiff_old, List.nil_append]
  have apart : ([] ++ ((flatviewDiff old new).filterMap Change.new?).map
      (sectionAt space)).Pairwise MemoryRegionSection.Disjoint := by
    rw [flatviewDiff_new]
    exact newFlat.sections_disjoint space
  obtain ⟨kept, deleted, holdsKept⟩ :=
    @foldlM_holder_deleting regions space _ _ [] (fun _ _ => flatviewDiff_keep) holdsOld
  obtain ⟨final, added, holdsNew⟩ := @foldlM_holder_adding regions space _ _ [] apart holdsKept
  refine ⟨passCalls space old new false, passCalls space old new true, kept, final, ?_, ?_,
    fun _ => passCalls_deleting, fun _ => passCalls_adding, passCalls_current space old new, ?_, ?_,
    ?_⟩
  · rw [addressSpaceUpdateTopologyPass_eq recorder regions oldFlat newFlat, foldlM_recorder,
      List.nil_append]
  · rw [addressSpaceUpdateTopologyPass_eq recorder regions oldFlat newFlat, foldlM_recorder]
  · rw [addressSpaceUpdateTopologyPass_eq holder regions oldFlat newFlat, passCalls, deleted]
  · rw [addressSpaceUpdateTopologyPass_eq holder regions oldFlat newFlat, passCalls, added]
  · rwa [flatviewDiff_new, List.nil_append] at holdsNew

theorem addressSpaceUpdateTopology_refines_shrunk :
    let old : FlatView := [⟨1, 0, ⟨0, 0x2000⟩, 0, true, false⟩]
    let new : FlatView :=
      [⟨1, 0, ⟨0, 0x1000⟩, 0, true, false⟩, ⟨2, 0, ⟨0x1000, 0x1000⟩, 0, true, true⟩]
    old.Flat ∧ new.Flat ∧ ∀ regions : Regions, ∃ kept final,
      addressSpaceUpdateTopologyPass holder regions 0 old new false
        (old.map (sectionAt 0)) = some kept ∧
      addressSpaceUpdateTopologyPass holder regions 0 old new true kept = some final ∧
      final.Perm (new.map (sectionAt 0)) := by
  intro old new
  have oldFlat : old.Flat := ⟨by simp [old, OrderedFrom], by decide⟩
  have newFlat : new.Flat := ⟨by simp [new, OrderedFrom, AddrRange.last], by decide⟩
  refine ⟨oldFlat, newFlat, fun regions => ?_⟩
  obtain ⟨-, -, kept, final, -, -, -, -, -, deleted, added, holds⟩ :=
    addressSpaceUpdateTopology_refines oldFlat newFlat regions 0
  exact ⟨kept, final, deleted, added, holds⟩

end Holder

end VhostUser.Qemu
