import VhostUser.Qemu.VhostListener

/-!
Contract: a registered vhost device mirrors the flat view of
`address_space_memory` through every run of memory API calls, as long as dirty
logging is turned on and off only for regions that are not in the view.

Owns: the two passes of a topology update over the whole difference of two views,
the machine of API calls, and the run without the condition in which the table
still maps RAM that is under dirty logging.
-/

namespace VhostUser.Qemu

open VhostUser.Lib

section Passes

variable {env : VhostEnv} {regions : Regions} {dev after : VhostMemoryDev} {fr : FlatRange}
  {callback : SectionCallback VhostMemoryDev} {space : Nat} {changes : List Change}

/-! ### Single updates -/

theorem updateRegion_section (result : updateRegion (vhostListener env) callback regions 0 fr dev =
    some after) : ∃ sec, fr.toSection 0 = some sec ∧ callback regions sec dev = some after := by
  obtain ⟨sec, sec_eq, result⟩ := Option.bind_eq_some_iff.mp result
  have space : sec.addressSpace = 0 := by
    obtain ⟨start, -, rfl⟩ := Option.map_eq_some_iff.mp sec_eq
    rfl
  rw [memoryListenerMatch, vhostListener, space] at result
  exact ⟨sec, sec_eq, result⟩

theorem updateRegion_ignore (result : updateRegion (vhostListener env) vhostIgnore regions space fr
    dev = some after) : after = dev := by
  obtain ⟨sec, -, result⟩ := Option.bind_eq_some_iff.mp result
  split at result
  all_goals
    cases result
    rfl

theorem topologyChange_keep {adding : Bool} {old new : FlatRange}
    (result : topologyChange (vhostListener env) regions space adding dev (.keep old new) =
      some after) : after = dev := by
  cases adding with
  | false =>
    cases result
    rfl
  | true =>
    rw [topologyChange, if_pos rfl] at result
    obtain ⟨noted, nop, logged⟩ := Option.bind_eq_some_iff.mp result
    obtain rfl := updateRegion_ignore nop
    split at logged
    · exact updateRegion_ignore logged
    split at logged
    · exact updateRegion_ignore logged
    · cases logged
      rfl

/-! ### The two passes -/

structure Separate (env : VhostEnv) (regions : Regions) (view : FlatView) : Prop where
  fits : ∀ range ∈ view, range.Fits env regions
  apart : view.Pairwise FlatRange.Apart

theorem Separate.middle {front back : FlatView}
    (separate : Separate env regions (front ++ fr :: back)) :
    fr.Fits env regions ∧ (∀ range ∈ front ++ back, range.Fits env regions) ∧
      (∀ range ∈ front ++ back, range.Apart fr) ∧ Separate env regions (front ++ back) := by
  obtain ⟨fits, apart⟩ := separate
  rw [List.pairwise_middle (fun related => FlatRange.Apart.symm related)] at apart
  obtain ⟨head, rest⟩ := List.pairwise_cons.mp apart
  have restFits : ∀ range ∈ front ++ back, range.Fits env regions := fun range member =>
    fits range (List.perm_middle.mem_iff.mpr (List.mem_cons_of_mem _ member))
  exact ⟨fits fr (by simp), restFits, fun range member => (head range member).symm, restFits, rest⟩

theorem delPass_holds {kept : FlatView}
    (separate : Separate env regions (kept ++ changes.filterMap Change.old?))
    (holds : Holds env regions (kept ++ changes.filterMap Change.old?) dev)
    (result : changes.foldlM (topologyChange (vhostListener env) regions 0 false) dev =
      some after) : Holds env regions (kept ++ changes.filterMap Change.keptOld?) after := by
  induction changes generalizing kept dev with
  | nil =>
    cases result
    exact holds
  | cons change rest ih =>
    rw [List.foldlM_cons] at result
    obtain ⟨next, first, later⟩ := Option.bind_eq_some_iff.mp result
    cases change with
    | del old =>
      obtain ⟨fits, restFits, apart, restSeparate⟩ := separate.middle
      obtain ⟨sec, sec_eq, deleted⟩ := updateRegion_section first
      have moved : Holds env regions (old :: (kept ++ rest.filterMap Change.old?)) dev :=
        holds.congr fun _ => List.perm_middle.mem_iff
      exact ih restSeparate
        (moved.regionDel fits restFits apart sec_eq deleted) later
    | keep old new =>
      obtain rfl := topologyChange_keep first
      -- the range moves from the rest of the old view to what is kept
      rw [List.filterMap_cons_some Change.old?_keep, List.append_cons] at separate holds
      rw [List.filterMap_cons_some (by rfl), List.append_cons]
      exact ih separate holds later
    | add new =>
      cases first
      exact ih separate holds later

theorem addPass_holds {kept : FlatView}
    (separate : Separate env regions (kept ++ changes.filterMap Change.new?))
    (masked : ∀ range, .add range ∈ changes → range.dirtyLogMask = (regions range.mr).dirtyLogMask)
    (holds : Holds env regions (kept ++ changes.filterMap Change.keptNew?) dev)
    (result : changes.foldlM (topologyChange (vhostListener env) regions 0 true) dev = some after) :
    Holds env regions (kept ++ changes.filterMap Change.new?) after := by
  induction changes generalizing kept dev with
  | nil =>
    cases result
    exact holds
  | cons change rest ih =>
    rw [List.foldlM_cons] at result
    obtain ⟨next, first, later⟩ := Option.bind_eq_some_iff.mp result
    cases change with
    | del old =>
      cases first
      exact ih separate
        (fun range member => masked range (List.mem_cons_of_mem _ member)) holds later
    | keep old new =>
      obtain rfl := topologyChange_keep first
      rw [List.filterMap_cons_some Change.new?_keep] at separate ⊢
      rw [List.filterMap_cons_some (by rfl)] at holds
      rw [List.append_cons] at separate holds ⊢
      exact ih separate
        (fun range member => masked range (List.mem_cons_of_mem _ member)) holds later
    | add new =>
      obtain ⟨fits, restFits, apart, -⟩ := separate.middle
      obtain ⟨sec, sec_eq, added⟩ := updateRegion_section first
      have part : ∀ range ∈ kept ++ rest.filterMap Change.keptNew?,
          range ∈ kept ++ rest.filterMap Change.new? := fun range member =>
        List.mem_append.mpr ((List.mem_append.mp member).imp_right Change.mem_new_of_keptNew)
      have held := holds.regionAdd fits (fun range member => restFits range (part range member))
        (fun range member => apart range (part range member)) sec_eq
        (masked new List.mem_cons_self) added
      rw [List.filterMap_cons_some Change.new?_add] at separate ⊢
      rw [List.append_cons] at separate ⊢
      refine ih separate
        (fun range member => masked range (List.mem_cons_of_mem _ member)) ?_ later
      rw [← List.append_cons]
      exact held.congr fun _ => List.perm_middle.symm.mem_iff

/-! ### A whole update -/

/-- No RAM range that is in both views starts or stops being logged. -/
def LoggingStable (regions : Regions) (old new : FlatView) : Prop :=
  ∀ range ∈ old, ∀ same ∈ new, flatrangeEqual range same = true →
    (regions range.mr).ram = true → (range.dirtyLogMask = 0 ↔ same.dirtyLogMask = 0)

theorem flatrangeEqual_iff {range same : FlatRange} : flatrangeEqual range same = true ↔
    same = { range with dirtyLogMask := same.dirtyLogMask } := by
  cases same
  simp only [flatrangeEqual, Bool.and_eq_true, decide_eq_true_eq, FlatRange.mk.injEq]
  tauto

/-- Kept ranges are held as they are now, if their logging is what it was. -/
theorem Holds.keep (holds : Holds env regions (changes.filterMap Change.keptOld?) dev)
    (stable : ∀ old new, .keep old new ∈ changes →
      new = { old with dirtyLogMask := new.dirtyLogMask } ∧
        ((regions old.mr).ram = true → (old.dirtyLogMask = 0 ↔ new.dirtyLogMask = 0))) :
    Holds env regions (changes.filterMap Change.keptNew?) dev := by
  have transfer {property : FlatRange → Prop}
      (same : ∀ old new, .keep old new ∈ changes → (property old ↔ property new)) :
      (∃ range ∈ changes.filterMap Change.keptOld?, property range) ↔
        ∃ range ∈ changes.filterMap Change.keptNew?, property range := by
    simp only [Change.mem_keptOld, Change.mem_keptNew]
    constructor
    · rintro ⟨old, ⟨new, member⟩, holdsOld⟩
      exact ⟨new, ⟨old, member⟩, (same old new member).mp holdsOld⟩
    · rintro ⟨new, ⟨old, member⟩, holdsNew⟩
      exact ⟨old, ⟨new, member⟩, (same old new member).mpr holdsNew⟩
  obtain ⟨⟨maps, sections, nodup⟩, sound⟩ := holds
  refine ⟨⟨fun addr value => (maps addr value).trans (transfer fun old new member => ?_),
    fun sec => (sections sec).trans (transfer fun old new member => ?_), nodup⟩, sound⟩
  · obtain ⟨equal, logging⟩ := stable old new member
    rw [equal]
    exact and_congr_right fun ram => and_congr_left fun _ => logging ram
  · obtain ⟨equal, -⟩ := stable old new member
    rw [equal]
    rfl

theorem update_holds {old new : FlatView} {deleted : VhostMemoryDev}
    (oldSeparate : Separate env regions old) (newSeparate : Separate env regions new)
    (masked : ∀ range ∈ new, range.dirtyLogMask = (regions range.mr).dirtyLogMask)
    (stable : LoggingStable regions old new) (holds : Holds env regions old dev)
    (del : addressSpaceUpdateTopologyPass (vhostListener env) regions 0 old new false dev =
      some deleted)
    (add : addressSpaceUpdateTopologyPass (vhostListener env) regions 0 old new true deleted =
      some after) : Holds env regions new after := by
  have olds := flatviewDiff_old old new
  have news := flatviewDiff_new old new
  have kept : Holds env regions
      ([] ++ (flatviewDiff old new).filterMap Change.keptOld?) deleted :=
    delPass_holds (by rwa [olds]) (by rwa [olds]) del
  have current : Holds env regions
      ([] ++ (flatviewDiff old new).filterMap Change.keptNew?) deleted := by
    refine kept.keep fun range same member => ?_
    have equal := flatviewDiff_keep member
    have inOld : range ∈ old := olds ▸ List.mem_filterMap.mpr ⟨_, member, rfl⟩
    have inNew : same ∈ new := news ▸ List.mem_filterMap.mpr ⟨_, member, rfl⟩
    exact ⟨flatrangeEqual_iff.mp equal, stable range inOld same inNew equal⟩
  have final : Holds env regions ([] ++ (flatviewDiff old new).filterMap Change.new?) after :=
    addPass_holds (by rwa [news])
      (fun range member => masked range (news ▸ List.mem_filterMap.mpr ⟨_, member, rfl⟩))
      current add
  rwa [news] at final

end Passes

/-! ### Runs of API calls -/

variable (env : VhostEnv) (fuel : Nat)

/-- The RAM of a region is mapped somewhere in the host's address space. -/
def HostedRam (regions : Regions) : Prop :=
  ∀ mr, (regions mr).ram = true → 0 < (env.ramPtr mr).toNat ∧
    (env.ramPtr mr).toNat + (regions mr).size ≤ 2 ^ 64

structure Registered (state : MemoryState VhostMemoryDev) : Prop where
  hosted : HostedRam env state.regions
  fresh : ∀ as ∈ state.addressSpaces.head?,
    generateMemoryTopology state.regions fuel as.root = some as.currentMap
  device : vhostRegister env state.regions state.currentMap = some state.dev

inductive VhostAction where
  | api (call : ApiCall)
  | setStarted (started : Bool)
deriving DecidableEq, Repr

def vhostMachine : Machine (MemoryState VhostMemoryDev) VhostAction where
  start := Registered env fuel
  step state
    | .api call => apiStep (vhostListener env) fuel state call
    | .setStarted started => some { state with dev := { state.dev with started } }

/-- `memory_region_set_log` does not turn dirty logging on or off for RAM that is in
the view of `address_space_memory`. -/
def Steady (state : MemoryState VhostMemoryDev) : VhostAction → Prop
  | .api (.setLog mr log client) =>
    (state.regions mr).ram = true → (∃ fr ∈ state.currentMap, fr.mr = mr) →
      ((state.regions mr).logMask log client = 0 ↔ (state.regions mr).dirtyLogMask = 0)
  | _ => True

instance (state : MemoryState VhostMemoryDev) :
    (action : VhostAction) → Decidable (Steady state action)
  | .api (.setLog _ _ _) => inferInstanceAs (Decidable (_ → _ → _))
  | .api .transactionBegin | .api .transactionCommit | .api (.setReadonly _ _)
  | .api (.romDeviceSetRomd _ _) | .api (.setAliasOffset _ _) | .api (.setEnabled _ _)
  | .api (.addSubregion _ _ _) | .api (.addSubregionOverlap _ _ _ _) | .api (.delSubregion _ _)
  | .api (.setAddress _ _) | .api (.addressSpaceInit _) | .setStarted _ => .isTrue trivial

section Runs

variable {env fuel} {regions : Regions} {view : FlatView} {state next : MemoryState VhostMemoryDev}
  {dev : VhostMemoryDev}

/-- A view in order, whose ranges lie inside their regions, and whose RAM is under
dirty logging as its regions are now. -/
structure Laid (regions : Regions) (view : FlatView) : Prop where
  ordered : OrderedFrom 0 view
  placed : ∀ fr ∈ view, fr.Placed (regions fr.mr)
  logged : ∀ fr ∈ view, (regions fr.mr).ram = true →
    (fr.dirtyLogMask = 0 ↔ (regions fr.mr).dirtyLogMask = 0)

theorem Rendered.laid (rendered : Rendered regions view) : Laid regions view :=
  ⟨rendered.ordered, rendered.placed, fun fr member _ => by rw [rendered.masked fr member]⟩

theorem Laid.loggingStable {new : FlatView} (laid : Laid regions view)
    (rendered : Rendered regions new) : LoggingStable regions view new := by
  intro range member same sameMember equal ram
  have region : same.mr = range.mr := by rw [flatrangeEqual_iff.mp equal]
  rw [rendered.masked same sameMember, region]
  exact laid.logged range member ram

theorem Laid.separate (laid : Laid regions view) (hosted : HostedRam env regions) :
    Separate env regions view := by
  refine ⟨fun fr member => ?_, laid.ordered.pairwise.imp .inl⟩
  obtain ⟨low, nonempty⟩ := laid.ordered.bounds fr member
  obtain ⟨high, inside⟩ := laid.placed fr member
  refine ⟨low, nonempty, high, fun ram => ?_⟩
  obtain ⟨mapped, room⟩ := hosted fr.mr ram
  exact ⟨mapped, by omega⟩

structure MirrorInvariant (env : VhostEnv) (state : MemoryState VhostMemoryDev) : Prop where
  hosted : HostedRam env state.regions
  laid : Laid state.regions state.currentMap
  holds : Holds env state.regions state.currentMap state.dev

theorem Holds.of_fields {other : VhostMemoryDev} (holds : Holds env regions view dev)
    (mem : other.mem = dev.mem) (sections : other.memSections = dev.memSections) :
    Holds env regions view other := by
  obtain ⟨⟨maps, sectionsExact, nodup⟩, sound⟩ := holds
  rw [← mem] at maps sound
  rw [← sections] at sectionsExact nodup
  exact ⟨⟨maps, sectionsExact, nodup⟩, sound⟩

theorem Holds.of_ram {other : Regions} (holds : Holds env regions view dev)
    (ram : ∀ mr, (other mr).ram = (regions mr).ram) : Holds env other view dev := by
  obtain ⟨⟨maps, sections, nodup⟩, sound⟩ := holds
  simp only [← ram] at maps sections
  exact ⟨⟨maps, sections, nodup⟩, sound⟩

theorem Separate.of_ram {other : Regions} (separate : Separate env regions view)
    (ram : ∀ mr, (other mr).ram = (regions mr).ram) : Separate env other view := by
  refine ⟨fun range member => ?_, separate.apart⟩
  obtain ⟨low, nonempty, high, room⟩ := separate.fits range member
  exact ⟨low, nonempty, high, fun isRam => room (ram range.mr ▸ isRam)⟩

/-- Regions may change their place while the view and the device stay. -/
theorem MirrorInvariant.transfer (invariant : MirrorInvariant env state)
    (ram : ∀ mr, (next.regions mr).ram = (state.regions mr).ram)
    (size : ∀ mr, (next.regions mr).size = (state.regions mr).size)
    (logging : ∀ fr ∈ state.currentMap, (state.regions fr.mr).ram = true →
      ((next.regions fr.mr).dirtyLogMask = 0 ↔ (state.regions fr.mr).dirtyLogMask = 0))
    (view : next.currentMap = state.currentMap) (dev : next.dev = state.dev) :
    MirrorInvariant env next := by
  obtain ⟨hosted, ⟨ordered, placed, logged⟩, holds⟩ := invariant
  simp only [← ram] at logged logging
  refine ⟨fun mr isRam => ?_, ?_, ?_⟩
  · rw [size]
    exact hosted mr (ram mr ▸ isRam)
  · rw [view]
    refine ⟨ordered, fun fr member => ?_, fun fr member isRam => ?_⟩
    · obtain ⟨high, inside⟩ := placed fr member
      exact ⟨high, size fr.mr ▸ inside⟩
    · exact (logged fr member isRam).trans (logging fr member isRam).symm
  · rw [view, dev]
    exact holds.of_ram ram

theorem MirrorInvariant.quiet (invariant : MirrorInvariant env state) (quiet : Quiet state next) :
    MirrorInvariant env next :=
  invariant.transfer (fun mr => (quiet.alike mr).ram) (fun mr => (quiet.alike mr).size)
    (fun fr _ _ => by rw [(quiet.alike fr.mr).mask]) quiet.currentMap quiet.dev

theorem MirrorInvariant.relog {call : ApiCall} (invariant : MirrorInvariant env state)
    (steady : Steady state (.api call)) : MirrorInvariant env (state.relog call) := by
  cases call with
  | setLog mr log client =>
    refine invariant.transfer (fun other => ?_) (fun other => ?_) (fun fr member ram => ?_)
      rfl rfl
    all_goals simp only [MemoryState.relog, MemoryState.edit]
    · split
      next same => rw [same]
      · rfl
    · split
      next same => rw [same]
      · rfl
    · split
      next same =>
        subst same
        exact steady ram ⟨fr, member, rfl⟩
      · rfl
  | _ => exact invariant

theorem vhostCommit_fields {after : VhostMemoryDev} (result : vhostCommit env dev = some after) :
    after.mem = dev.mem ∧ after.memSections = dev.memSections := by
  simp only [vhostCommit] at result
  repeat' split at result
  all_goals
    cases result
    try exact ⟨rfl, rfl⟩

/-- An update of all views leaves the device with the new view. -/
theorem MirrorInvariant.flush (invariant : MirrorInvariant env state)
    (result : flush (vhostListener env) fuel state = some next) :
    MirrorInvariant env next := by
  obtain ⟨hosted, laid, holds⟩ := invariant
  obtain ⟨⟨spaces, updated⟩, update, result⟩ := Option.bind_eq_some_iff.mp result
  obtain ⟨committed, commit, result⟩ := Option.bind_eq_some_iff.mp result
  cases result
  obtain ⟨mem, sections⟩ := vhostCommit_fields commit
  suffices Laid state.regions (MemoryState.currentMap ⟨state.regions, 0, false, spaces, updated⟩) ∧
      Holds env state.regions (MemoryState.currentMap ⟨state.regions, 0, false, spaces, updated⟩)
        updated from
    ⟨hosted, this.1, this.2.of_fields mem sections⟩
  obtain ⟨regions, depth, pending, oldSpaces, dev⟩ := state
  replace holds := holds.of_fields (rfl : (vhostBegin dev).mem = dev.mem) rfl
  cases oldSpaces with
  | nil =>
    cases update
    exact ⟨laid, holds⟩
  | cons as rest =>
    obtain ⟨⟨first, firstDev⟩, firstResult, update⟩ := Option.bind_eq_some_iff.mp update
    obtain ⟨⟨later, laterDev⟩, laterResult, update⟩ := Option.bind_eq_some_iff.mp update
    cases update
    obtain rfl := updateSpaces_other rfl Nat.zero_lt_one laterResult
    obtain ⟨newView, generated, passes⟩ := Option.bind_eq_some_iff.mp firstResult
    obtain ⟨deleted, del, passes⟩ := Option.bind_eq_some_iff.mp passes
    obtain ⟨added, add, passes⟩ := Option.bind_eq_some_iff.mp passes
    cases passes
    have rendered := generateMemoryTopology_rendered generated
    exact ⟨rendered.laid, update_holds (laid.separate hosted) (rendered.laid.separate hosted)
      rendered.masked (laid.loggingStable rendered) holds del add⟩

theorem vhostRegister_holds (separate : Separate env regions view)
    (masked : ∀ fr ∈ view, fr.dirtyLogMask = (regions fr.mr).dirtyLogMask)
    (result : vhostRegister env regions view = some dev) : Holds env regions view dev := by
  have empty : Holds env regions [] ⟨[], [], 0, 0, false, false⟩ :=
    ⟨⟨by simp, by simp, .nil⟩, by simp⟩
  have added {todo done : FlatView} {start after : VhostMemoryDev}
      (separate : Separate env regions (done ++ todo))
      (masked : ∀ fr ∈ todo, fr.dirtyLogMask = (regions fr.mr).dirtyLogMask)
      (holds : Holds env regions done start)
      (result : todo.foldlM (fun dev fr => (fr.toSection 0).bind fun sec =>
        vhostRegionAdd env regions sec dev) start = some after) :
      Holds env regions (done ++ todo) after := by
    induction todo generalizing done start with
    | nil =>
      cases result
      rwa [List.append_nil]
    | cons fr rest ih =>
      rw [List.foldlM_cons] at result
      obtain ⟨next, first, later⟩ := Option.bind_eq_some_iff.mp result
      obtain ⟨sec, sec_eq, addResult⟩ := Option.bind_eq_some_iff.mp first
      obtain ⟨fits, restFits, apart, -⟩ := separate.middle
      have held := holds.regionAdd fits
        (fun range member => restFits range (List.mem_append_left _ member))
        (fun range member => apart range (List.mem_append_left _ member)) sec_eq
        (masked fr List.mem_cons_self) addResult
      rw [List.append_cons] at separate ⊢
      exact ih separate
        (fun range member => masked range (List.mem_cons_of_mem _ member))
        (held.congr fun _ => (List.perm_append_singleton fr done).symm.mem_iff) later
  exact @added view [] _ _ separate masked empty result

theorem Registered.invariant (registered : Registered env fuel state) :
    MirrorInvariant env state := by
  obtain ⟨hosted, fresh, device⟩ := registered
  have rendered : Rendered state.regions state.currentMap := by
    obtain ⟨regions, depth, pending, spaces, dev⟩ := state
    cases spaces with
    | nil => exact ⟨trivial, by simp [MemoryState.currentMap], by simp [MemoryState.currentMap]⟩
    | cons as rest => exact generateMemoryTopology_rendered (fresh as rfl)
  exact ⟨hosted, rendered.laid,
    vhostRegister_holds (rendered.laid.separate hosted) rendered.masked device⟩

theorem MirrorInvariant.step {action : VhostAction} (invariant : MirrorInvariant env state)
    (steady : Steady state action)
    (taken : (vhostMachine env fuel).step state action = some next) :
    MirrorInvariant env next := by
  cases action with
  | setStarted started =>
    cases taken
    exact { invariant with holds := invariant.holds.of_fields rfl rfl }
  | api call =>
    obtain ⟨inside, quiet, last⟩ := apiStep_cases taken
    have before : MirrorInvariant env inside := (invariant.relog steady).quiet quiet
    rcases last with rfl | commit
    · exact before
    obtain ⟨depth, -, ⟨rfl, -⟩ | ⟨-, flushed⟩⟩ := transactionCommit_cases commit
    · exact before.quiet (.depth .refl)
    · exact (before.quiet (.depth .refl)).flush flushed

/-- In every run in which dirty logging changes only for regions that are not in the view, the
device mirrors the flat view. -/
theorem steady_mirrors
    (reached : (vhostMachine env fuel).Reached Steady state) :
    Mirrors env state.regions state.currentMap state.dev := by
  have invariant : MirrorInvariant env state :=
    reached.invariant (fun _ => Registered.invariant)
      fun _ _ _ invariant steady taken => invariant.step steady taken
  exact invariant.holds.toMirrors

end Runs

/-! ### Two runs -/

def ramPage : MemoryRegion := memoryRegionInitRam 0x1000 0

def bootRegions : Regions
  | 0 => { memoryRegionInit 0xffffffffffffffff with subregions := [1] }
  | 1 => { ramPage with parent := some 0, addr := 0x1000 }
  | 2 => ramPage
  | _ => { ramPage with ram := false }

def bootEnv : VhostEnv where
  ramPtr mr := if mr = 1 then 0x10000000 else 0x20000000
  ringsMapped _ _ := true
  tableSent _ := true

def bootState : MemoryState VhostMemoryDev where
  regions := bootRegions
  transactionDepth := 0
  updatePending := false
  addressSpaces := [⟨some 0, [⟨1, 0, ⟨0x1000, 0x1000⟩, 0, true, false⟩]⟩]
  dev := ⟨[⟨0x1000, 0x1000, 0x10000000⟩], [⟨1, 0, 0, 0x1000, 0x1000, false⟩], 0, 0x1fff, true,
    false⟩

theorem bootState_registered : Registered bootEnv 3 bootState where
  hosted mr ram := by
    match mr with
    | 0 => exact absurd ram (by decide)
    | 1 => decide
    | 2 => decide
    | _ + 3 => exact absurd ram (by simp [bootState, bootRegions])
  fresh as member := by
    cases member
    decide +kernel
  device := by decide +kernel

def tableAndView (actions : List VhostAction) : Option (List VhostMemoryRegion × FlatView) :=
  ((vhostMachine bootEnv 3).run actions bootState).map fun state =>
    (state.dev.mem, state.currentMap)

/-- A page is plugged under dirty logging while the first one moves. It is moved, logged by a
second client, unplugged, and comes back without logging. -/
def plugRun : List VhostAction :=
  [.setStarted true, .api .transactionBegin, .api (.setLog 2 true 0),
    .api (.addSubregion 0 0x4000 2), .api (.setAddress 1 0x2000), .api .transactionCommit,
    .api (.setAddress 2 0x5000), .api (.setLog 2 true 1), .api (.setLog 2 false 0),
    .api (.delSubregion 0 2), .api (.setLog 2 false 1), .api (.addSubregion 0 0x5000 2)]

theorem steady_mirrors_plug : ∃ state,
    (vhostMachine bootEnv 3).Reached Steady state ∧
      Mirrors bootEnv state.regions state.currentMap state.dev ∧
      state.dev.mem = [⟨0x2000, 0x1000, 0x10000000⟩, ⟨0x5000, 0x1000, 0x20000000⟩] := by
  have ends : tableAndView plugRun =
      some ([⟨0x2000, 0x1000, 0x10000000⟩, ⟨0x5000, 0x1000, 0x20000000⟩],
        [⟨1, 0, ⟨0x2000, 0x1000⟩, 0, true, false⟩, ⟨2, 0, ⟨0x5000, 0x1000⟩, 0, true, false⟩]) := by
    decide +kernel
  have start : (vhostMachine bootEnv 3).Reached Steady bootState := .start bootState_registered
  obtain ⟨state, reached, values⟩ := start.evaluate (by decide +kernel) ends
  exact ⟨state, reached, steady_mirrors reached, (Prod.mk.inj values).1⟩

/-- Once the page is under dirty logging, the table still maps it. -/
theorem mirrors_fails_on_logging : ¬ ∀ state,
    (vhostMachine bootEnv 3).Reached Machine.anyAction state →
      Mirrors bootEnv state.regions state.currentMap state.dev := by
  intro always
  have ends : tableAndView [.api (.setLog 1 true 0)] =
      some ([⟨0x1000, 0x1000, 0x10000000⟩], [⟨1, 0, ⟨0x1000, 0x1000⟩, 1, true, false⟩]) := by
    decide +kernel
  obtain ⟨state, reached, values⟩ := Machine.evaluate_any ends bootState_registered
  obtain ⟨mem, view⟩ := Prod.mk.inj values
  have mapped : MapsTo VhostMemoryRegion.piece state.dev.mem 0x1000 0x10000000 := by
    rw [mem]
    exact ⟨_, List.mem_singleton_self _, by decide⟩
  obtain ⟨fr, member, -, unlogged, -⟩ := ((always state reached).maps _ _).mp mapped
  rw [view, List.mem_singleton] at member
  subst member
  exact absurd unlogged (by decide)

end VhostUser.Qemu
