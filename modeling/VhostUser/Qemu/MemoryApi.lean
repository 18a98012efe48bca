import VhostUser.Qemu.Topology

/-!
Contract: transactions on the memory API (`memory.c`) and the callbacks they make
to a listener.

The state holds the regions, the transaction depth, the address spaces with
their current flat views, and the state of one listener. The address space
with number 0 is `address_space_memory`. A failed assertion is `none`.

Owns: the API functions as steps of a machine, and what a step does to the parts
of the state (`apiStep_cases`, `transactionCommit_cases`).

Does not own: I/O event descriptors, coalesced ranges and region references,
which no listener here reads.
-/

namespace VhostUser.Qemu

open VhostUser.Lib

/-! ### Listeners -/

structure MemoryRegionSection where
  mr : Nat
  addressSpace : Nat
  offsetWithinRegion : UInt64
  size : Int
  offsetWithinAddressSpace : UInt64
  readonly : Bool
deriving DecidableEq, Repr

/-- The section that `MEMORY_LISTENER_UPDATE_REGION` makes of a range. -/
def FlatRange.toSection (fr : FlatRange) (space : Nat) : Option MemoryRegionSection :=
  (int128Get64 fr.addr.start).map fun start =>
    ⟨fr.mr, space, fr.offsetInRegion, fr.addr.size, start, fr.readonly⟩

/-- A callback on a section. It may read the regions. -/
abbrev SectionCallback (δ : Type) := Regions → MemoryRegionSection → δ → Option δ

/-- The callbacks of `MemoryListener` that a commit makes, on a listener with
state `δ`. -/
structure MemoryListener (δ : Type) where
  begin : δ → Option δ
  commit : δ → Option δ
  regionAdd : SectionCallback δ
  regionDel : SectionCallback δ
  regionNop : SectionCallback δ
  logStart : SectionCallback δ
  logStop : SectionCallback δ
  addressSpaceFilter : Option Nat

variable {δ : Type} (listener : MemoryListener δ) {change : MemoryRegion → MemoryRegion}
  {mr subregion : Nat}

def memoryListenerMatch (sec : MemoryRegionSection) : Bool :=
  match listener.addressSpaceFilter with
  | none => true
  | some space => space = sec.addressSpace

def updateRegion (callback : SectionCallback δ) (regions : Regions) (space : Nat)
    (fr : FlatRange) (dev : δ) : Option δ :=
  (fr.toSection space).bind fun sec =>
    if memoryListenerMatch listener sec then callback regions sec dev else some dev

/-! ### The difference of two views -/

def flatrangeEqual (a b : FlatRange) : Bool :=
  a.mr = b.mr && a.addr = b.addr && a.offsetInRegion = b.offsetInRegion &&
    a.romdMode = b.romdMode && a.readonly = b.readonly

/-- A turn of the loop of `address_space_update_topology_pass`: a range of the old view only, of
both, or of the new one only. -/
inductive Change where
  | del (old : FlatRange)
  | keep (old new : FlatRange)
  | add (new : FlatRange)
deriving Repr

/-- The turns of the loop while the old view is at `old`; `next` is the loop
behind it. -/
def diffAt (old : FlatRange) (next : FlatView → List Change) : FlatView → List Change
  | [] => .del old :: next []
  | new :: rest =>
    if old.addr.start < new.addr.start ||
        (old.addr.start = new.addr.start && !flatrangeEqual old new) then
      .del old :: next (new :: rest)
    else if flatrangeEqual old new then .keep old new :: next rest
    else .add new :: diffAt old next rest

def flatviewDiff : FlatView → FlatView → List Change
  | [], new => new.map .add
  | old :: rest, new => diffAt old (flatviewDiff rest) new

def topologyChange (regions : Regions) (space : Nat) (adding : Bool) (dev : δ) :
    Change → Option δ
  | .del old =>
    if !adding then updateRegion listener listener.regionDel regions space old dev else some dev
  | .keep old new =>
    if adding then
      (updateRegion listener listener.regionNop regions space new dev).bind fun dev =>
        if old.dirtyLogMask ≠ 0 && new.dirtyLogMask = 0 then
          updateRegion listener listener.logStop regions space new dev
        else if new.dirtyLogMask ≠ 0 && old.dirtyLogMask = 0 then
          updateRegion listener listener.logStart regions space new dev
        else some dev
    else some dev
  | .add new =>
    if adding then updateRegion listener listener.regionAdd regions space new dev else some dev

def addressSpaceUpdateTopologyPass (regions : Regions) (space : Nat) (old new : FlatView)
    (adding : Bool) (dev : δ) : Option δ :=
  (flatviewDiff old new).foldlM (topologyChange listener regions space adding) dev

structure AddressSpace where
  root : Option Nat
  currentMap : FlatView

variable (fuel : Nat)

def addressSpaceUpdateTopology (regions : Regions) (space : Nat) (as : AddressSpace) (dev : δ) :
    Option (AddressSpace × δ) := do
  let newView ← generateMemoryTopology regions fuel as.root
  let dev ← addressSpaceUpdateTopologyPass listener regions space as.currentMap newView false dev
  let dev ← addressSpaceUpdateTopologyPass listener regions space as.currentMap newView true dev
  return ({ as with currentMap := newView }, dev)

def updateSpaces (regions : Regions) :
    Nat → List AddressSpace → δ → Option (List AddressSpace × δ)
  | _, [], dev => some ([], dev)
  | space, as :: rest, dev => do
      let (as, dev) ← addressSpaceUpdateTopology listener fuel regions space as dev
      let (rest, dev) ← updateSpaces regions (space + 1) rest dev
      return (as :: rest, dev)

/-! ### Transactions -/

structure MemoryState (δ : Type) where
  regions : Regions
  transactionDepth : Nat
  updatePending : Bool
  addressSpaces : List AddressSpace
  dev : δ

namespace MemoryState

def edit (state : MemoryState δ) (mr : Nat) (change : MemoryRegion → MemoryRegion) :
    MemoryState δ :=
  { state with regions := fun other =>
      if other = mr then change (state.regions mr) else state.regions other }

/-- `memory_region_update_pending |= pending`. -/
def pend (state : MemoryState δ) (pending : Bool) : MemoryState δ :=
  { state with updatePending := state.updatePending || pending }

def currentMap (state : MemoryState δ) : FlatView :=
  match state.addressSpaces with
  | [] => []
  | as :: _ => as.currentMap

end MemoryState

def transactionBegin (state : MemoryState δ) : MemoryState δ :=
  { state with transactionDepth := state.transactionDepth + 1 }

/-- The update that the outermost commit makes if one is pending. -/
def flush (state : MemoryState δ) : Option (MemoryState δ) := do
  let dev ← listener.begin state.dev
  let (spaces, dev) ← updateSpaces listener fuel state.regions 0 state.addressSpaces dev
  let dev ← listener.commit dev
  return { state with updatePending := false, addressSpaces := spaces, dev }

def transactionCommit (state : MemoryState δ) : Option (MemoryState δ) :=
  match state.transactionDepth with
  | 0 => none
  | depth + 1 =>
    if depth = 0 && state.updatePending then
      flush listener fuel { state with transactionDepth := depth }
    else some { state with transactionDepth := depth }

/-! ### The API -/

def changeRegion (mr : Nat) (change : MemoryRegion → MemoryRegion) (state : MemoryState δ) :
    Option (MemoryState δ) :=
  transactionCommit listener fuel
    (((transactionBegin state).edit mr change).pend (state.regions mr).enabled)

/-- The mask of a region after `memory_region_set_log`. -/
def MemoryRegion.logMask (region : MemoryRegion) (log : Bool) (client : Nat) : UInt8 :=
  let mask := UInt8.ofNat (2 ^ client)
  (region.dirtyLogMask &&& ~~~mask) ||| if log then mask else 0

def memoryRegionSetLog (mr : Nat) (log : Bool) (client : Nat) (state : MemoryState δ) :
    Option (MemoryState δ) :=
  changeRegion listener fuel mr
    (fun region => { region with dirtyLogMask := region.logMask log client }) state

def memoryRegionSetReadonly (mr : Nat) (readonly : Bool) (state : MemoryState δ) :
    Option (MemoryState δ) :=
  if (state.regions mr).readonly ≠ readonly then
    changeRegion listener fuel mr (fun region => { region with readonly }) state
  else some state

def memoryRegionRomDeviceSetRomd (mr : Nat) (romdMode : Bool) (state : MemoryState δ) :
    Option (MemoryState δ) :=
  if (state.regions mr).romdMode ≠ romdMode then
    changeRegion listener fuel mr (fun region => { region with romdMode }) state
  else some state

def memoryRegionSetAliasOffset (mr : Nat) (offset : UInt64) (state : MemoryState δ) :
    Option (MemoryState δ) :=
  if (state.regions mr).aliasOf.isNone then none
  else if offset = (state.regions mr).aliasOffset then some state
  else changeRegion listener fuel mr (fun region => { region with aliasOffset := offset }) state

def memoryRegionSetEnabled (mr : Nat) (enabled : Bool) (state : MemoryState δ) :
    Option (MemoryState δ) :=
  if enabled = (state.regions mr).enabled then some state
  else transactionCommit listener fuel
    (((transactionBegin state).edit mr fun region => { region with enabled }).pend true)

/-- The place of a subregion: in front of the first one with at most its
priority. -/
def insertSubregion (regions : Regions) (subregion : Nat) : List Nat → List Nat
  | [] => [subregion]
  | other :: rest =>
    if (regions other).priority ≤ (regions subregion).priority then subregion :: other :: rest
    else other :: insertSubregion regions subregion rest

def memoryRegionAddSubregionCommon (mr : Nat) (offset : UInt64) (subregion : Nat)
    (state : MemoryState δ) : Option (MemoryState δ) :=
  let state := transactionBegin state
  if (state.regions subregion).parent.isSome then none
  else
    let state := state.edit subregion fun region =>
      { region with parent := some mr, addr := offset }
    let state := state.edit mr fun region =>
      { region with subregions := insertSubregion state.regions subregion region.subregions }
    transactionCommit listener fuel
      (state.pend ((state.regions mr).enabled && (state.regions subregion).enabled))

def memoryRegionAddSubregion (mr : Nat) (offset : UInt64) (subregion : Nat)
    (state : MemoryState δ) : Option (MemoryState δ) :=
  memoryRegionAddSubregionCommon listener fuel mr offset subregion
    (state.edit subregion fun region => { region with mayOverlap := false, priority := 0 })

def memoryRegionAddSubregionOverlap (mr : Nat) (offset : UInt64) (subregion : Nat)
    (priority : Int) (state : MemoryState δ) : Option (MemoryState δ) :=
  memoryRegionAddSubregionCommon listener fuel mr offset subregion
    (state.edit subregion fun region => { region with mayOverlap := true, priority })

def memoryRegionDelSubregion (mr subregion : Nat) (state : MemoryState δ) :
    Option (MemoryState δ) :=
  let state := transactionBegin state
  if (state.regions subregion).parent ≠ some mr then none
  else
    let state := state.edit subregion fun region => { region with parent := none }
    let state := state.edit mr fun region =>
      { region with subregions := region.subregions.erase subregion }
    transactionCommit listener fuel
      (state.pend ((state.regions mr).enabled && (state.regions subregion).enabled))

def memoryRegionSetAddress (mr : Nat) (addr : UInt64) (state : MemoryState δ) :
    Option (MemoryState δ) :=
  let region := state.regions mr
  match region.parent with
  | none => some (state.edit mr fun region => { region with addr })
  | some parent =>
    if addr = region.addr then some (state.edit mr fun region => { region with addr })
    else
      (memoryRegionDelSubregion listener fuel parent mr (transactionBegin state)).bind
        fun state =>
        (if region.mayOverlap then
          memoryRegionAddSubregionOverlap listener fuel parent addr mr region.priority state
        else memoryRegionAddSubregion listener fuel parent addr mr state).bind
          (transactionCommit listener fuel)

def addressSpaceInit (root : Nat) (state : MemoryState δ) : Option (MemoryState δ) :=
  let state := transactionBegin state
  transactionCommit listener fuel
    (({ state with addressSpaces := state.addressSpaces ++ [⟨some root, []⟩] } :
      MemoryState δ).pend (state.regions root).enabled)

inductive ApiCall where
  | transactionBegin
  | transactionCommit
  | setLog (mr : Nat) (log : Bool) (client : Nat)
  | setReadonly (mr : Nat) (readonly : Bool)
  | romDeviceSetRomd (mr : Nat) (romdMode : Bool)
  | setAliasOffset (mr : Nat) (offset : UInt64)
  | setEnabled (mr : Nat) (enabled : Bool)
  | addSubregion (mr : Nat) (offset : UInt64) (subregion : Nat)
  | addSubregionOverlap (mr : Nat) (offset : UInt64) (subregion : Nat) (priority : Int)
  | delSubregion (mr subregion : Nat)
  | setAddress (mr : Nat) (addr : UInt64)
  | addressSpaceInit (root : Nat)
deriving DecidableEq, Repr

def apiStep (state : MemoryState δ) : ApiCall → Option (MemoryState δ)
  | .transactionBegin => some (Qemu.transactionBegin state)
  | .transactionCommit => Qemu.transactionCommit listener fuel state
  | .setLog mr log client => memoryRegionSetLog listener fuel mr log client state
  | .setReadonly mr readonly => memoryRegionSetReadonly listener fuel mr readonly state
  | .romDeviceSetRomd mr romdMode => memoryRegionRomDeviceSetRomd listener fuel mr romdMode state
  | .setAliasOffset mr offset => memoryRegionSetAliasOffset listener fuel mr offset state
  | .setEnabled mr enabled => memoryRegionSetEnabled listener fuel mr enabled state
  | .addSubregion mr offset subregion =>
    memoryRegionAddSubregion listener fuel mr offset subregion state
  | .addSubregionOverlap mr offset subregion priority =>
    memoryRegionAddSubregionOverlap listener fuel mr offset subregion priority state
  | .delSubregion mr subregion => memoryRegionDelSubregion listener fuel mr subregion state
  | .setAddress mr addr => memoryRegionSetAddress listener fuel mr addr state
  | .addressSpaceInit root => Qemu.addressSpaceInit listener fuel root state

/-! ### The difference, as lists -/

namespace Change

def old? : Change → Option FlatRange
  | .del old | .keep old _ => some old
  | .add _ => none

def new? : Change → Option FlatRange
  | .add new | .keep _ new => some new
  | .del _ => none

variable {old new : FlatRange}

@[simp] theorem old?_del : (del old).old? = some old := rfl
@[simp] theorem old?_keep : (keep old new).old? = some old := rfl
@[simp] theorem old?_add : (add new).old? = none := rfl
@[simp] theorem new?_del : (del old).new? = none := rfl
@[simp] theorem new?_keep : (keep old new).new? = some new := rfl
@[simp] theorem new?_add : (add new).new? = some new := rfl

def keptOld? : Change → Option FlatRange
  | .keep old _ => some old
  | _ => none

def keptNew? : Change → Option FlatRange
  | .keep _ new => some new
  | _ => none

variable {changes : List Change} {range : FlatRange}

theorem mem_keptOld : range ∈ changes.filterMap keptOld? ↔ ∃ new, .keep range new ∈ changes := by
  simp only [List.mem_filterMap]
  constructor
  · rintro ⟨change, member, kept⟩
    cases change <;> cases kept
    exact ⟨_, member⟩
  · rintro ⟨new, member⟩
    exact ⟨_, member, rfl⟩

theorem mem_keptNew : range ∈ changes.filterMap keptNew? ↔ ∃ old, .keep old range ∈ changes := by
  simp only [List.mem_filterMap]
  constructor
  · rintro ⟨change, member, kept⟩
    cases change <;> cases kept
    exact ⟨_, member⟩
  · rintro ⟨old, member⟩
    exact ⟨_, member, rfl⟩

theorem mem_new_of_keptNew (kept : range ∈ changes.filterMap keptNew?) :
    range ∈ changes.filterMap new? := by
  obtain ⟨old, member⟩ := mem_keptNew.mp kept
  exact List.mem_filterMap.mpr ⟨_, member, rfl⟩

end Change

section Diff

variable {old : FlatRange} {next : FlatView → List Change}

theorem diffAt_old {rest : FlatView} (behind : ∀ new, (next new).filterMap Change.old? = rest) :
    ∀ new, (diffAt old next new).filterMap Change.old? = old :: rest
  | [] => by simp only [diffAt, List.filterMap_cons, Change.old?_del, behind]
  | range :: later => by
    rw [diffAt]
    split
    · simp only [List.filterMap_cons, Change.old?_del, behind]
    split
    · simp only [List.filterMap_cons, Change.old?_keep, behind]
    · simp only [List.filterMap_cons, Change.old?_add, diffAt_old behind later]

theorem flatviewDiff_old : ∀ old new : FlatView,
    (flatviewDiff old new).filterMap Change.old? = old
  | [], new => by simp [flatviewDiff]
  | range :: rest, new => diffAt_old (flatviewDiff_old rest) new

theorem diffAt_new (behind : ∀ new, (next new).filterMap Change.new? = new) :
    ∀ new, (diffAt old next new).filterMap Change.new? = new
  | [] => by simp only [diffAt, List.filterMap_cons, Change.new?_del, behind]
  | range :: later => by
    rw [diffAt]
    split
    · simp only [List.filterMap_cons, Change.new?_del, behind]
    split
    · simp only [List.filterMap_cons, Change.new?_keep, behind]
    · simp only [List.filterMap_cons, Change.new?_add, diffAt_new behind later]

theorem flatviewDiff_new : ∀ old new : FlatView,
    (flatviewDiff old new).filterMap Change.new? = new
  | [], new => by
    rw [flatviewDiff, List.filterMap_map]
    exact List.filterMap_some
  | _ :: rest, new => diffAt_new (flatviewDiff_new rest) new

theorem flatviewDiff_keep {range same : FlatRange} : ∀ {old new : FlatView},
    .keep range same ∈ flatviewDiff old new → flatrangeEqual range same = true := by
  have atHead {head : FlatRange} {next : FlatView → List Change}
      (behind : ∀ new, .keep range same ∈ next new → flatrangeEqual range same = true) :
      ∀ new, .keep range same ∈ diffAt head next new → flatrangeEqual range same = true := by
    intro new
    induction new with
    | nil => simpa [diffAt] using behind []
    | cons first later ih =>
      rw [diffAt]
      split
      · simpa using behind (first :: later)
      split
      next equal =>
        rw [List.mem_cons]
        rintro (here | later)
        · cases here
          exact equal
        · exact behind _ later
      · simpa using ih
  intro old
  induction old with
  | nil => simp [flatviewDiff]
  | cons head rest ih =>
    intro new member
    exact atHead (fun _ => ih) new member

end Diff

/-! ### What a call does -/

variable {listener fuel} {state next : MemoryState δ}

theorem MemoryState.currentMap_append {more : List AddressSpace}
    (spaces : next.addressSpaces = state.addressSpaces ++ more)
    (empty : ∀ as ∈ more, as.currentMap = []) : next.currentMap = state.currentMap := by
  simp only [MemoryState.currentMap, spaces]
  cases state.addressSpaces with
  | cons as rest => rfl
  | nil =>
    cases more with
    | nil => rfl
    | cons as rest => exact empty as List.mem_cons_self

/-- What a region is made of, and its dirty logging, are as before. -/
structure MemoryRegion.Alike (before after : MemoryRegion) : Prop where
  ram : after.ram = before.ram
  size : after.size = before.size
  mask : after.dirtyLogMask = before.dirtyLogMask

/-- The flat views and the listener are as before, and so are the regions up to their place. New
address spaces have empty views. -/
structure Quiet (before after : MemoryState δ) : Prop where
  alike : ∀ mr, (before.regions mr).Alike (after.regions mr)
  spaces : ∃ more, after.addressSpaces = before.addressSpaces ++ more ∧
    ∀ as ∈ more, as.currentMap = []
  dev : after.dev = before.dev

namespace Quiet

variable {before after later : MemoryState δ}

theorem of_fields (regions : after.regions = before.regions)
    (spaces : after.addressSpaces = before.addressSpaces) (dev : after.dev = before.dev) :
    Quiet before after :=
  ⟨fun _ => regions ▸ ⟨rfl, rfl, rfl⟩, ⟨[], by simp [spaces]⟩, dev⟩

theorem refl : Quiet state state := of_fields rfl rfl rfl

theorem trans (first : Quiet before after) (second : Quiet after later) : Quiet before later := by
  obtain ⟨firstMore, firstSpaces, firstEmpty⟩ := first.spaces
  obtain ⟨secondMore, secondSpaces, secondEmpty⟩ := second.spaces
  refine ⟨fun mr => ?_, ⟨firstMore ++ secondMore, ?_, ?_⟩, second.dev.trans first.dev⟩
  · obtain ⟨firstRam, firstSize, firstMask⟩ := first.alike mr
    obtain ⟨secondRam, secondSize, secondMask⟩ := second.alike mr
    exact ⟨secondRam.trans firstRam, secondSize.trans firstSize, secondMask.trans firstMask⟩
  · rw [secondSpaces, firstSpaces, List.append_assoc]
  · exact List.forall_mem_append.mpr ⟨firstEmpty, secondEmpty⟩

theorem edit {mr : Nat} {change : MemoryRegion → MemoryRegion} (quiet : Quiet before after)
    (alike : ∀ region : MemoryRegion, region.Alike (change region)) :
    Quiet before (after.edit mr change) := by
  refine quiet.trans ⟨fun other => ?_, ⟨[], by simp [MemoryState.edit]⟩, rfl⟩
  simp only [MemoryState.edit]
  split
  next same =>
    rw [same]
    exact alike _
  · exact ⟨rfl, rfl, rfl⟩

theorem pend {pending : Bool} (quiet : Quiet before after) : Quiet before (after.pend pending) :=
  quiet.trans (of_fields rfl rfl rfl)

theorem depth {depth : Nat} (quiet : Quiet before after) :
    Quiet before { after with transactionDepth := depth } :=
  quiet.trans (of_fields rfl rfl rfl)

theorem currentMap (quiet : Quiet before after) : after.currentMap = before.currentMap :=
  let ⟨_, spaces, empty⟩ := quiet.spaces
  MemoryState.currentMap_append spaces empty

end Quiet

/-- A commit closes a nested transaction, or finds nothing pending, or updates
the views. -/
theorem transactionCommit_cases (result : transactionCommit listener fuel state = some next) :
    ∃ depth, state.transactionDepth = depth + 1 ∧
      (next = { state with transactionDepth := depth } ∧
          (depth = 0 → state.updatePending = false) ∨
        depth = 0 ∧ flush listener fuel { state with transactionDepth := depth } = some next) := by
  rw [transactionCommit] at result
  split at result
  · cases result
  next depth depth_eq =>
    refine ⟨depth, depth_eq, ?_⟩
    split at result
    next outermost =>
      simp only [Bool.and_eq_true, decide_eq_true_eq] at outermost
      exact .inr ⟨outermost.1, result⟩
    next nested =>
      cases result
      exact .inl ⟨rfl, fun outermost => by simpa [outermost] using nested⟩

/-- A change of a region that leaves its place, its links and whether it is enabled. -/
structure KeepsPlace (change : MemoryRegion → MemoryRegion) : Prop where
  enabled : ∀ region, (change region).enabled = region.enabled
  addr : ∀ region, (change region).addr = region.addr
  parent : ∀ region, (change region).parent = region.parent
  priority : ∀ region, (change region).priority = region.priority
  subregions : ∀ region, (change region).subregions = region.subregions

/-- The calls that set a field which only rendering uses. -/
def ApiCall.isSetter : ApiCall → Bool
  | .setLog _ _ _ | .setReadonly _ _ | .romDeviceSetRomd _ _ | .setAliasOffset _ _ => true
  | _ => false

theorem apiStep_setter {call : ApiCall} (setter : call.isSetter = true)
    (result : apiStep listener fuel state call = some next) :
    next = state ∨ ∃ mr change, changeRegion listener fuel mr change state = some next ∧
      KeepsPlace change ∧ ((∀ mr log client, call ≠ .setLog mr log client) →
        ∀ region : MemoryRegion, region.Alike (change region)) := by
  cases call with
  | setLog mr log client =>
    refine .inr ⟨mr, _, result, by constructor <;> exact fun _ => rfl, fun other => ?_⟩
    exact absurd rfl (other mr log client)
  | setReadonly mr readonly =>
    simp only [apiStep, memoryRegionSetReadonly] at result
    split at result
    · exact .inr ⟨mr, _, result, by constructor <;> exact fun _ => rfl,
        fun _ _ => ⟨rfl, rfl, rfl⟩⟩
    · exact .inl (Option.some.inj result).symm
  | romDeviceSetRomd mr romdMode =>
    simp only [apiStep, memoryRegionRomDeviceSetRomd] at result
    split at result
    · exact .inr ⟨mr, _, result, by constructor <;> exact fun _ => rfl,
        fun _ _ => ⟨rfl, rfl, rfl⟩⟩
    · exact .inl (Option.some.inj result).symm
  | setAliasOffset mr offset =>
    simp only [apiStep, memoryRegionSetAliasOffset] at result
    split at result
    · cases result
    split at result
    · exact .inl (Option.some.inj result).symm
    · exact .inr ⟨mr, _, result, by constructor <;> exact fun _ => rfl,
        fun _ _ => ⟨rfl, rfl, rfl⟩⟩
  | transactionBegin | transactionCommit | setEnabled | addSubregion | addSubregionOverlap
  | delSubregion | setAddress | addressSpaceInit => cases setter

/-- A relation in which the states stand that a call goes through before its commit. -/
structure Silent (r : MemoryState δ → MemoryState δ → Prop) : Prop where
  trans {before after later : MemoryState δ} : r before after → r after later → r before later
  depth (state : MemoryState δ) (depth : Nat) : r state { state with transactionDepth := depth }
  pend (state : MemoryState δ) (pending : Bool) : r state (state.pend pending)
  place (state : MemoryState δ) (mr : Nat) {change : MemoryRegion → MemoryRegion} :
    (∀ region : MemoryRegion, region.Alike (change region) ∧
      (change region).enabled = region.enabled) →
      r state (state.edit mr change)
  set (state : MemoryState δ) (mr : Nat) {change : MemoryRegion → MemoryRegion} :
    (∀ region : MemoryRegion, region.Alike (change region)) →
      r state ((state.edit mr change).pend (state.regions mr).enabled)
  enable (state : MemoryState δ) (mr : Nat) (enabled : Bool) :
    r state ((state.edit mr fun region => { region with enabled }).pend true)
  init (state : MemoryState δ) (root : Nat) :
    r state { state with addressSpaces := state.addressSpaces ++ [⟨some root, []⟩] }

/-- The call is one transaction around silent changes. -/
def Transacts (r : MemoryState δ → MemoryState δ → Prop) (listener : MemoryListener δ) (fuel : Nat)
    (state next : MemoryState δ) : Prop :=
  ∃ inside, r state inside ∧ inside.transactionDepth = state.transactionDepth + 1 ∧
    transactionCommit listener fuel inside = some next

section Silent

variable {r : MemoryState δ → MemoryState δ → Prop} (silent : Silent r)

include silent

theorem Transacts.nested (transacts : Transacts r listener fuel state next)
    (nested : state.transactionDepth ≠ 0) :
    r state next ∧ next.transactionDepth = state.transactionDepth := by
  obtain ⟨inside, changed, depth, commit⟩ := transacts
  rw [transactionCommit, depth] at commit
  dsimp only at commit
  rw [if_neg (by simp [nested])] at commit
  cases commit
  exact ⟨silent.trans changed (silent.depth _ _), rfl⟩

/-- Two regions get or lose their links. -/
theorem Silent.link {pending : Bool} {child parent : MemoryRegion → MemoryRegion}
    (childKept : ∀ region : MemoryRegion, region.Alike (child region) ∧
      (child region).enabled = region.enabled)
    (parentKept : ∀ region : MemoryRegion, region.Alike (parent region) ∧
      (parent region).enabled = region.enabled) :
    r state ((((transactionBegin state).edit subregion child).edit mr parent).pend pending) :=
  silent.trans (silent.trans (silent.trans (silent.depth _ _) (silent.place _ _ childKept))
    (silent.place _ _ parentKept)) (silent.pend _ _)

theorem memoryRegionAddSubregionCommon_transacts {offset : UInt64} {mayOverlap : Bool}
    {priority : Int} (result : memoryRegionAddSubregionCommon listener fuel mr offset subregion
      (state.edit subregion fun region => { region with mayOverlap, priority }) = some next) :
    Transacts r listener fuel state next := by
  simp only [memoryRegionAddSubregionCommon] at result
  split at result
  · cases result
  · refine ⟨_, silent.trans (silent.place _ subregion fun _ => ?_) (silent.link (fun _ => ?_)
      fun _ => ?_), rfl, result⟩
    all_goals exact ⟨⟨rfl, rfl, rfl⟩, rfl⟩

theorem memoryRegionDelSubregion_transacts
    (result : memoryRegionDelSubregion listener fuel mr subregion state = some next) :
    Transacts r listener fuel state next := by
  simp only [memoryRegionDelSubregion] at result
  split at result
  · cases result
  · refine ⟨_, silent.link (fun _ => ?_) fun _ => ?_, rfl, result⟩
    all_goals exact ⟨⟨rfl, rfl, rfl⟩, rfl⟩

theorem memoryRegionSetAddress_transacts {addr : UInt64}
    (result : memoryRegionSetAddress listener fuel mr addr state = some next) :
    next = state.edit mr (fun region => { region with addr }) ∨
      Transacts r listener fuel state next := by
  simp only [memoryRegionSetAddress] at result
  split at result
  · exact .inl (Option.some.inj result).symm
  split at result
  · exact .inl (Option.some.inj result).symm
  obtain ⟨removed, remove, result⟩ := Option.bind_eq_some_iff.mp result
  obtain ⟨added, add, commit⟩ := Option.bind_eq_some_iff.mp result
  obtain ⟨removes, removeDepth⟩ :=
    (memoryRegionDelSubregion_transacts silent remove).nested silent (Nat.succ_ne_zero _)
  have transacts : Transacts r listener fuel removed added := by
    split at add
    · exact memoryRegionAddSubregionCommon_transacts silent add
    · exact memoryRegionAddSubregionCommon_transacts silent add
  obtain ⟨adds, addDepth⟩ := transacts.nested silent (removeDepth ▸ Nat.succ_ne_zero _)
  exact .inr ⟨added, silent.trans (silent.trans (silent.depth _ _) removes) adds,
    addDepth.trans removeDepth, commit⟩

/-- Up to its effect on dirty logging, every call is silent until at most one commit, its last
step. -/
theorem apiStep_silent {call : ApiCall} (logs : ∀ mr log client, call = .setLog mr log client →
      r state ((state.edit mr fun region =>
        { region with dirtyLogMask := region.logMask log client }).pend (state.regions mr).enabled))
    (result : apiStep listener fuel state call = some next) :
    (r state next ∧ next.updatePending = state.updatePending ∧
        (next.transactionDepth = 0 → state.transactionDepth = 0)) ∨
      ∃ inside, r state inside ∧ transactionCommit listener fuel inside = some next := by
  have refl : r state state := silent.depth state state.transactionDepth
  have of_transacts (transacts : Transacts r listener fuel state next) :
      ∃ inside, r state inside ∧ transactionCommit listener fuel inside = some next :=
    let ⟨inside, changed, _, commit⟩ := transacts
    ⟨inside, changed, commit⟩
  have of_set {mr : Nat} {change : MemoryRegion → MemoryRegion}
      (result : changeRegion listener fuel mr change state = some next)
      (set : r state ((state.edit mr change).pend (state.regions mr).enabled)) :
      ∃ inside, r state inside ∧ transactionCommit listener fuel inside = some next :=
    ⟨_, silent.trans set (silent.depth _ _), result⟩
  cases call with
  | transactionBegin =>
    cases result
    exact .inl ⟨silent.depth _ _, rfl, fun depth => absurd depth (Nat.succ_ne_zero _)⟩
  | transactionCommit => exact .inr ⟨state, refl, result⟩
  | setLog mr log client => exact .inr (of_set result (logs mr log client rfl))
  | setReadonly | romDeviceSetRomd | setAliasOffset =>
    obtain rfl | ⟨mr, change, changed, -, alike⟩ := apiStep_setter rfl result
    · exact .inl ⟨refl, rfl, id⟩
    · exact .inr (of_set changed (silent.set _ _ (alike fun _ _ _ other => by cases other)))
  | setEnabled mr enabled =>
    simp only [apiStep, memoryRegionSetEnabled] at result
    split at result
    · cases result
      exact .inl ⟨refl, rfl, id⟩
    · exact .inr ⟨_, silent.trans (silent.enable _ mr enabled) (silent.depth _ _), result⟩
  | addSubregion | addSubregionOverlap =>
    exact .inr (of_transacts (memoryRegionAddSubregionCommon_transacts silent result))
  | delSubregion =>
    exact .inr (of_transacts (memoryRegionDelSubregion_transacts silent result))
  | setAddress mr addr =>
    obtain rfl | transacts := memoryRegionSetAddress_transacts silent result
    · exact .inl ⟨silent.place _ _ fun _ => ⟨⟨rfl, rfl, rfl⟩, rfl⟩, rfl, id⟩
    · exact .inr (of_transacts transacts)
  | addressSpaceInit root =>
    simp only [apiStep, addressSpaceInit] at result
    refine .inr ⟨_, ?_, result⟩
    exact silent.trans (silent.trans (silent.depth _ _) (silent.init _ root)) (silent.pend _ _)

end Silent

theorem Quiet.silent : Silent (Quiet (δ := δ)) where
  trans := Quiet.trans
  depth _ _ := .depth .refl
  pend _ _ := .pend .refl
  place _ _ _ kept := .edit .refl fun region => (kept region).1
  set _ _ _ kept := .pend (.edit .refl kept)
  enable _ _ _ := .pend (.edit .refl fun _ => ⟨rfl, rfl, rfl⟩)
  init _ root := ⟨fun _ => ⟨rfl, rfl, rfl⟩, ⟨[⟨some root, []⟩], rfl, by simp⟩, rfl⟩

/-- The only thing a call does to the dirty logging of a region. -/
def MemoryState.relog (state : MemoryState δ) : ApiCall → MemoryState δ
  | .setLog mr log client =>
    state.edit mr fun region => { region with dirtyLogMask := region.logMask log client }
  | _ => state

/-- Up to its effect on dirty logging, every call is quiet until at most one commit,
its last step. -/
theorem apiStep_cases {call : ApiCall} (result : apiStep listener fuel state call = some next) :
    ∃ inside, Quiet (state.relog call) inside ∧
      (next = inside ∨ transactionCommit listener fuel inside = some next) := by
  cases call with
  | setLog mr log client =>
    simp only [apiStep, memoryRegionSetLog, changeRegion] at result
    refine ⟨_, ?_, .inr result⟩
    exact .of_fields rfl rfl rfl
  | _ =>
    obtain ⟨quiet, -⟩ | ⟨inside, quiet, commit⟩ :=
      apiStep_silent Quiet.silent (fun _ _ _ other => by cases other) result
    · exact ⟨next, quiet, .inl rfl⟩
    · exact ⟨inside, quiet, .inr commit⟩

/-! ### Other address spaces -/

section Filter

variable {regions : Regions} {dev after : δ} {filter space : Nat}

section

variable (filtered : listener.addressSpaceFilter = some filter)
include filtered

theorem updateRegion_other {callback : SectionCallback δ} {fr : FlatRange} (other : filter ≠ space)
    (result : updateRegion listener callback regions space fr dev = some after) :
    after = dev := by
  obtain ⟨sec, sec_eq, result⟩ := Option.bind_eq_some_iff.mp result
  have atSpace : sec.addressSpace = space := by
    obtain ⟨start, -, rfl⟩ := Option.map_eq_some_iff.mp sec_eq
    rfl
  have unmatched : memoryListenerMatch listener sec = false := by
    simpa [memoryListenerMatch, filtered, atSpace] using other
  rw [unmatched] at result
  cases result
  rfl

theorem topologyChange_other {adding : Bool} {change : Change} (other : filter ≠ space)
    (result : topologyChange listener regions space adding dev change = some after) :
    after = dev := by
  cases adding with
  | false =>
    cases change with
    | del old => exact updateRegion_other filtered other result
    | keep | add =>
      cases result
      rfl
  | true =>
    cases change with
    | del old =>
      cases result
      rfl
    | add new => exact updateRegion_other filtered other result
    | keep old new =>
      obtain ⟨noted, nop, logged⟩ := Option.bind_eq_some_iff.mp result
      obtain rfl := updateRegion_other filtered other nop
      split at logged
      · exact updateRegion_other filtered other logged
      split at logged
      · exact updateRegion_other filtered other logged
      · cases logged
        rfl

theorem updateSpaces_other {spaces updated : List AddressSpace} (behind : filter < space)
    (result : updateSpaces listener fuel regions space spaces dev = some (updated, after)) :
    after = dev := by
  have pass {old new : FlatView} {adding : Bool} {space : Nat} {dev after : δ}
      (other : filter ≠ space) (result : addressSpaceUpdateTopologyPass listener regions space
        old new adding dev = some after) : after = dev :=
    foldlM_invariant (· = dev)
      (fun _ _ _ _ same step => (topologyChange_other filtered other step).trans same) rfl result
  induction spaces generalizing space dev updated with
  | nil =>
    cases result
    rfl
  | cons as rest ih =>
    obtain ⟨⟨first, firstDev⟩, firstResult, result⟩ := Option.bind_eq_some_iff.mp result
    obtain ⟨⟨later, laterDev⟩, laterResult, result⟩ := Option.bind_eq_some_iff.mp result
    cases result
    obtain ⟨newView, -, passes⟩ := Option.bind_eq_some_iff.mp firstResult
    obtain ⟨deleted, del, passes⟩ := Option.bind_eq_some_iff.mp passes
    obtain ⟨added, add, passes⟩ := Option.bind_eq_some_iff.mp passes
    cases passes
    have other : filter ≠ space := by omega
    rw [ih (by omega) laterResult, pass other add, pass other del]

end

end Filter

end VhostUser.Qemu
