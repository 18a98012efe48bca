import Mathlib.Data.List.Sort
import VhostUser.Qemu.MemoryApi
import VhostUser.Qemu.Visibility

/-!
Contract: outside transactions, the flat view of every address space is what
`generate_memory_topology` makes of its root (`memory.c`).

Each call decides by the enabled flags of one or two regions whether a view may
have changed. The argument is that rendering does not look at a disabled region
and uses the place of a region only where it is a subregion or a root
(`RendersAlike`).

Owns: the links between containers and subregions in every run, the condition
under which no update is missed, and a run that misses one.
-/

namespace VhostUser.Qemu

open VhostUser.Lib
open MemoryState

/-! ### What rendering depends on -/

def Generates (regions : Regions) (root : Option Nat) (view : FlatView) : Prop :=
  ∃ bound, ∀ fuel, bound ≤ fuel → generateMemoryTopology regions fuel root = some view

/-- The fields that rendering uses, apart from place and subregions. -/
def MemoryRegion.rendering (region : MemoryRegion) :=
  (region.size, region.readonly, region.terminates, region.romdMode, region.aliasOf,
    region.aliasOffset, region.dirtyLogMask)

/-- Every region renders as before in the same place. -/
structure RendersAlike (before after : Regions) : Prop where
  enabled : ∀ mr, (after mr).enabled = (before mr).enabled
  region : ∀ mr, (before mr).enabled = true → (after mr).rendering = (before mr).rendering
  subregions : ∀ mr, (before mr).enabled = true →
    ((after mr).subregions.filter fun subregion => (before subregion).enabled) =
      (before mr).subregions.filter fun subregion => (before subregion).enabled
  placed : ∀ mr, (before mr).enabled = true → ∀ subregion ∈ (before mr).subregions,
    (before subregion).enabled = true → (after subregion).addr = (before subregion).addr

section Alike

variable {regions before after : Regions} {mr fuel : Nat} {base base' : Int} {clip : AddrRange}
  {view out : FlatView} {readonly : Bool} {root : Option Nat}

theorem RendersAlike.refl : RendersAlike regions regions :=
  ⟨fun _ => rfl, fun _ _ => rfl, fun _ _ => rfl, fun _ _ _ _ _ => rfl⟩

theorem renderMemoryRegion_disabled (disabled : (regions mr).enabled = false) :
    renderMemoryRegion regions (fuel + 1) view mr base clip readonly = some view := by
  simp [renderMemoryRegion, disabled]

theorem renderMemoryRegion_disabled_eq (disabled : (regions mr).enabled = false)
    (result : renderMemoryRegion regions fuel view mr base clip readonly = some out) :
    out = view := by
  cases fuel with
  | zero => cases result
  | succ fuel =>
    rw [renderMemoryRegion_disabled disabled] at result
    cases result
    rfl

theorem RendersAlike.visit_eq (alike : RendersAlike before after)
    (enabled : (before mr).enabled = true)
    (place : base' + (after mr).addr.toNat = base + (before mr).addr.toNat) :
    visit after mr base' clip = visit before mr base clip := by
  have size : (after mr).size = (before mr).size := congrArg Prod.fst (alike.region mr enabled)
  rw [visit, visit]
  rw [place, alike.enabled, size]

/-- Regions that render alike render to the same view. The additional level is for disabled
subregions that were added. -/
theorem renderMemoryRegion_alike (alike : RendersAlike before after) :
    ∀ {fuel mr : Nat} {view out : FlatView} {base base' : Int} {clip : AddrRange} {readonly : Bool},
    ((before mr).enabled = true → base' + (after mr).addr.toNat = base + (before mr).addr.toNat) →
    renderMemoryRegion before fuel view mr base clip readonly = some out →
    renderMemoryRegion after (fuel + 1) view mr base' clip readonly = some out
  | fuel + 1, mr, view, out, base, base', clip, readonly, place, result => by
    cases enabled : (before mr).enabled with
    | false =>
      obtain rfl := renderMemoryRegion_disabled_eq enabled result
      exact renderMemoryRegion_disabled ((alike.enabled mr).trans enabled)
    | true =>
      have same := alike.region mr enabled
      simp only [MemoryRegion.rendering, Prod.mk.injEq] at same
      obtain ⟨-, sameReadonly, terminates, romdMode, aliasOf, aliasOffset, mask⟩ := same
      rw [renderMemoryRegion_visit] at result ⊢
      rw [alike.visit_eq enabled (place enabled)]
      cases visited : visit before mr base clip with
      | none => rwa [visited] at result
      | some here =>
        obtain ⟨base, clip⟩ := here
        rw [visited] at result
        dsimp only at result ⊢
        rw [aliasOf, sameReadonly, aliasOffset, terminates]
        cases isAlias : (before mr).aliasOf with
        | some target =>
          rw [isAlias] at result
          exact renderMemoryRegion_alike alike (fun _ => by omega) result
        | none =>
          rw [isAlias] at result
          dsimp only at result ⊢
          obtain ⟨below, subregions, result⟩ := Option.bind_eq_some_iff.mp result
          have rendered : (after mr).subregions.foldlM (fun view subregion =>
              renderMemoryRegion after (fuel + 1) view subregion base clip
                (readonly || (before mr).readonly)) view = some below := by
            -- only the enabled subregions matter, and those are the same
            refine @foldlM_of_filter _ _ _ _ _ (fun subregion => (before subregion).enabled)
              (fun subregion _ disabled view => renderMemoryRegion_disabled
                ((alike.enabled subregion).trans disabled)) _ ?_
            rw [alike.subregions mr enabled]
            refine foldlM_follow (fun subregion member view next step => ?_)
              (foldlM_filter (fun subregion _ disabled view next step =>
                renderMemoryRegion_disabled_eq disabled step) subregions)
            obtain ⟨member, shown⟩ := List.mem_filter.mp member
            refine renderMemoryRegion_alike alike (fun _ => ?_) step
            rw [alike.placed mr enabled subregion member shown]
          rw [rendered, Option.bind_some]
          simpa only [paint, romdMode, mask] using result

theorem generateMemoryTopology_alike (alike : RendersAlike before after)
    (place : ∀ mr ∈ root, (before mr).enabled = true → (after mr).addr = (before mr).addr)
    (result : generateMemoryTopology before fuel root = some view) :
    generateMemoryTopology after (fuel + 1) root = some view := by
  cases root with
  | none => exact result
  | some mr =>
    obtain ⟨raw, rawResult, rfl⟩ := Option.map_eq_some_iff.mp result
    refine Option.map_eq_some_iff.mpr ⟨raw, ?_, rfl⟩
    refine renderMemoryRegion_alike alike (fun enabled => ?_) rawResult
    rw [place mr rfl enabled]

/-- The model's bound on the recursion is no part of what is generated. -/
theorem Generates.of_fuel {root : Option Nat}
    (result : generateMemoryTopology regions fuel root = some view) :
    Generates regions root view := by
  refine ⟨fuel, fun more enough => ?_⟩
  induction more, enough using Nat.le_induction with
  | base => exact result
  | succ more _ ih =>
    exact generateMemoryTopology_alike .refl (fun _ _ _ => rfl) ih

theorem Generates.unique {other : FlatView} (generates : Generates regions root view)
    (again : Generates regions root other) : view = other := by
  obtain ⟨bound, generated⟩ := generates
  obtain ⟨bound', generated'⟩ := again
  have same := generated (max bound bound') (le_max_left _ _)
  rw [generated' _ (le_max_right _ _)] at same
  exact (Option.some.inj same).symm

theorem Generates.alike (generates : Generates before root view) (alike : RendersAlike before after)
    (place : ∀ mr ∈ root, (before mr).enabled = true → (after mr).addr = (before mr).addr) :
    Generates after root view := by
  obtain ⟨bound, generated⟩ := generates
  exact .of_fuel (generateMemoryTopology_alike alike place (generated bound le_rfl))

end Alike

/-! ### Containers and subregions -/

/-- A region is linked in its container only, once, in priority order. -/
structure Linked (regions : Regions) : Prop where
  parent : ∀ mr, ∀ subregion ∈ (regions mr).subregions, (regions subregion).parent = some mr
  nodup : ∀ mr, (regions mr).subregions.Nodup
  sorted : Prioritised regions

section Links

variable {regions before after : Regions} {mr subregion : Nat} {list : List Nat}

theorem insertSubregion_eq (regions : Regions) (subregion : Nat) (list : List Nat) :
    insertSubregion regions subregion list =
      list.orderedInsert (fun left right => (regions right).priority ≤ (regions left).priority)
        subregion := by
  induction list with
  | nil => rfl
  | cons other rest ih =>
    rw [insertSubregion, List.orderedInsert_cons, ih]

theorem insertSubregion_perm :
    (insertSubregion regions subregion list).Perm (subregion :: list) := by
  rw [insertSubregion_eq]
  exact List.perm_orderedInsert _ _ _

theorem insertSubregion_sorted
    (sorted : list.Pairwise fun left right => (regions right).priority ≤ (regions left).priority) :
    (insertSubregion regions subregion list).Pairwise fun left right =>
      (regions right).priority ≤ (regions left).priority := by
  rw [insertSubregion_eq]
  exact sorted.orderedInsert _ _

theorem insertSubregion_filter {keep : Nat → Bool} (dropped : keep subregion = false) :
    (insertSubregion regions subregion list).filter keep = list.filter keep := by
  induction list with
  | nil => simp [insertSubregion, dropped]
  | cons other rest ih =>
    rw [insertSubregion]
    split
    · simp [List.filter_cons, dropped]
    · simp [List.filter_cons, ih]

theorem Linked.of_fields (linked : Linked before)
    (subregions : ∀ mr, (after mr).subregions = (before mr).subregions)
    (parent : ∀ mr, (after mr).parent = (before mr).parent)
    (priority : ∀ mr, (after mr).priority = (before mr).priority) : Linked after := by
  refine ⟨fun mr subregion member => ?_, fun mr => ?_, fun mr => ?_⟩
  · rw [subregions] at member
    rw [parent]
    exact linked.parent mr subregion member
  · rw [subregions]
    exact linked.nodup mr
  · simpa only [subregions, priority] using linked.sorted mr

structure Links (before after : Regions) (mr subregion : Nat) (offset : UInt64) : Prop where
  loose : (before subregion).parent = none
  enabled : ∀ other, (after other).enabled = (before other).enabled
  renders : ∀ other, (after other).rendering = (before other).rendering
  addr : (after subregion).addr = offset
  addr_other : ∀ other, other ≠ subregion → (after other).addr = (before other).addr
  parent : (after subregion).parent = some mr
  parent_other : ∀ other, other ≠ subregion → (after other).parent = (before other).parent
  priority_other : ∀ other, other ≠ subregion → (after other).priority = (before other).priority
  inserted : (after mr).subregions = insertSubregion after subregion (before mr).subregions
  subregions_other : ∀ other, other ≠ mr → (after other).subregions = (before other).subregions

structure Unlinks (before after : Regions) (mr subregion : Nat) : Prop where
  linked : (before subregion).parent = some mr
  enabled : ∀ other, (after other).enabled = (before other).enabled
  renders : ∀ other, (after other).rendering = (before other).rendering
  addr : ∀ other, (after other).addr = (before other).addr
  parent : (after subregion).parent = none
  parent_other : ∀ other, other ≠ subregion → (after other).parent = (before other).parent
  priority : ∀ other, (after other).priority = (before other).priority
  erased : (after mr).subregions = (before mr).subregions.erase subregion
  subregions_other : ∀ other, other ≠ mr → (after other).subregions = (before other).subregions

theorem Linked.loose (linked : Linked regions) (loose : (regions subregion).parent = none) :
    subregion ∉ (regions mr).subregions := by
  intro member
  rw [linked.parent mr subregion member] at loose
  cases loose

theorem Linked.not_mem_of_parent_ne {other : Nat} (linked : Linked regions)
    (parent : (regions subregion).parent = some mr) (different : other ≠ mr) :
    subregion ∉ (regions other).subregions := by
  intro member
  rw [linked.parent other subregion member, Option.some.injEq] at parent
  exact different parent

theorem pairwise_priority_congr
    (same : ∀ other ∈ list, (after other).priority = (before other).priority)
    (sorted : list.Pairwise fun left right => (before right).priority ≤ (before left).priority) :
    list.Pairwise fun left right => (after right).priority ≤ (after left).priority :=
  sorted.imp_of_mem fun left right below => by rwa [same _ left, same _ right]

theorem Links.linked {offset : UInt64} (links : Links before after mr subregion offset)
    (linked : Linked before) : Linked after := by
  have ne_of_mem {container other : Nat} (member : other ∈ (before container).subregions) :
      other ≠ subregion := by
    rintro rfl
    exact linked.loose links.loose member
  have keeps {container other : Nat} (member : other ∈ (before container).subregions) :
      (after other).parent = some container :=
    (links.parent_other other (ne_of_mem member)).trans (linked.parent container other member)
  have sorted (container : Nat) : (before container).subregions.Pairwise fun left right =>
      (after right).priority ≤ (after left).priority :=
    pairwise_priority_congr (fun other member => links.priority_other other (ne_of_mem member))
      (linked.sorted container)
  refine ⟨fun container other member => ?_, fun container => ?_, fun container => ?_⟩
  · by_cases here : container = mr
    · subst here
      rw [links.inserted, insertSubregion_perm.mem_iff, List.mem_cons] at member
      rcases member with rfl | member
      · exact links.parent
      · exact keeps member
    · rw [links.subregions_other container here] at member
      exact keeps member
  · by_cases here : container = mr
    · subst here
      rw [links.inserted, insertSubregion_perm.nodup_iff, List.nodup_cons]
      exact ⟨linked.loose links.loose, linked.nodup container⟩
    · rw [links.subregions_other container here]
      exact linked.nodup container
  · by_cases here : container = mr
    · subst here
      rw [links.inserted]
      exact insertSubregion_sorted (sorted container)
    · rw [links.subregions_other container here]
      exact sorted container

theorem Unlinks.linked_after (unlinks : Unlinks before after mr subregion)
    (linked : Linked before) : Linked after := by
  have sub (container : Nat) :
      (after container).subregions.Sublist (before container).subregions := by
    by_cases here : container = mr
    · subst here
      rw [unlinks.erased]
      exact List.erase_sublist
    · rw [unlinks.subregions_other container here]
  refine ⟨fun container other member => ?_, fun container => (linked.nodup container).sublist
    (sub container), fun container => ?_⟩
  · have different : other ≠ subregion := by
      rintro rfl
      by_cases here : container = mr
      · subst here
        rw [unlinks.erased] at member
        exact (linked.nodup container).not_mem_erase member
      · rw [unlinks.subregions_other container here] at member
        exact linked.not_mem_of_parent_ne unlinks.linked here member
    rw [unlinks.parent_other other different]
    exact linked.parent container other ((sub container).subset member)
  · exact pairwise_priority_congr (fun other _ => unlinks.priority other)
      ((linked.sorted container).sublist (sub container))

/-- Linking a region changes no view if it or its container is disabled, its own
place apart. -/
theorem Links.alike {offset : UInt64} (links : Links before after mr subregion offset)
    (linked : Linked before)
    (hidden : ((before mr).enabled && (before subregion).enabled) = false) :
    RendersAlike before after := by
  refine ⟨links.enabled, fun container _ => links.renders container,
    fun container enabled => ?_, fun container enabled other member shown => ?_⟩
  · by_cases here : container = mr
    · subst here
      rw [links.inserted]
      rw [enabled, Bool.true_and] at hidden
      exact insertSubregion_filter hidden
    · rw [links.subregions_other container here]
  · refine links.addr_other other ?_
    rintro rfl
    exact linked.loose links.loose member

theorem Unlinks.alike (unlinks : Unlinks before after mr subregion)
    (hidden : ((before mr).enabled && (before subregion).enabled) = false) :
    RendersAlike before after := by
  refine ⟨unlinks.enabled, fun container _ => unlinks.renders container,
    fun container enabled => ?_, fun _ _ other _ _ => unlinks.addr other⟩
  by_cases here : container = mr
  · subst here
    rw [enabled, Bool.true_and] at hidden
    rw [unlinks.erased, ← List.erase_filter, List.erase_of_not_mem]
    simp [hidden]
  · rw [unlinks.subregions_other container here]

end Links

/-! ### Transactions -/

section Calls

variable {δ : Type} {listener : MemoryListener δ} {fuel : Nat} {state inside next : MemoryState δ}
  {mr subregion : Nat} {offset addr : UInt64} {mayOverlap : Bool} {priority : Int} {call : ApiCall}

/-- `inside` is `state` in one more transaction, with other regions. -/
structure Opened (state inside : MemoryState δ) (pending : Bool) : Prop where
  spaces : inside.addressSpaces = state.addressSpaces
  depth : inside.transactionDepth = state.transactionDepth + 1
  pending : inside.updatePending = (state.updatePending || pending)

section Edit

variable {change : MemoryRegion → MemoryRegion} {other : Nat}

theorem MemoryState.edit_self : (state.edit mr change).regions mr = change (state.regions mr) :=
  if_pos rfl

theorem MemoryState.edit_other (different : other ≠ mr) :
    (state.edit mr change).regions other = state.regions other := if_neg different

theorem MemoryState.edit_frame {β : Type} (field : MemoryRegion → β)
    (kept : ∀ region, field (change region) = field region) :
    field ((state.edit mr change).regions other) = field (state.regions other) := by
  by_cases here : other = mr
  · rw [here, edit_self, kept]
  · rw [edit_other here]

end Edit

theorem insertSubregion_congr {before after : Regions} {subregion : Nat} {list : List Nat}
    (same : ∀ other, (after other).priority = (before other).priority) :
    insertSubregion after subregion list = insertSubregion before subregion list := by
  induction list with
  | nil => rfl
  | cons other rest ih =>
    rw [insertSubregion, insertSubregion, same, same, ih]

theorem links_of_edits {ranked placed linked : MemoryState δ}
    (loose : (state.regions subregion).parent = none)
    (ranked_eq : ranked = state.edit subregion fun region => { region with mayOverlap, priority })
    (placed_eq : placed = (transactionBegin ranked).edit subregion fun region =>
      { region with parent := some mr, addr := offset })
    (linked_eq : linked = placed.edit mr fun region =>
      { region with subregions := insertSubregion placed.regions subregion region.subregions }) :
    Links state.regions linked.regions mr subregion offset := by
  -- linking changes no priority
  have priority (other : Nat) :
      (linked.regions other).priority = (placed.regions other).priority := by
    rw [linked_eq]
    exact edit_frame (·.priority) fun _ => rfl
  have inserted : (linked.regions mr).subregions =
      insertSubregion linked.regions subregion (state.regions mr).subregions := by
    rw [insertSubregion_congr priority, linked_eq, edit_self]
    simp only [placed_eq, ranked_eq, edit, transactionBegin]
    grind
  constructor
  case loose => exact loose
  case inserted => exact inserted
  case renders =>
    intro other
    simp only [linked_eq, placed_eq, ranked_eq, edit, transactionBegin]
    grind [MemoryRegion.rendering]
  all_goals
    simp only [linked_eq, placed_eq, ranked_eq, edit, transactionBegin]
    grind

theorem memoryRegionAddSubregionCommon_links
    (result : memoryRegionAddSubregionCommon listener fuel mr offset subregion
      (state.edit subregion fun region => { region with mayOverlap, priority }) = some next) :
    ∃ inside, Links state.regions inside.regions mr subregion offset ∧
      Opened state inside ((state.regions mr).enabled && (state.regions subregion).enabled) ∧
      transactionCommit listener fuel inside = some next := by
  simp only [memoryRegionAddSubregionCommon] at result
  generalize ranked_eq : (state.edit subregion fun region =>
    { region with mayOverlap, priority }) = ranked at result
  generalize placed_eq : (transactionBegin ranked).edit subregion (fun region =>
    { region with parent := some mr, addr := offset }) = placed at result
  generalize linked_eq : placed.edit mr (fun region =>
    { region with subregions := insertSubregion placed.regions subregion region.subregions }) =
      linked at result
  split at result
  · cases result
  next linkedAlready =>
    have loose : (state.regions subregion).parent = none := by
      simpa [← ranked_eq, transactionBegin, edit] using linkedAlready
    have links := links_of_edits loose ranked_eq.symm placed_eq.symm linked_eq.symm
    rw [links.enabled, links.enabled] at result
    refine ⟨linked.pend _, links, ⟨?_, ?_, ?_⟩, result⟩
    all_goals
      rw [← linked_eq, ← placed_eq, ← ranked_eq]
      rfl

theorem memoryRegionDelSubregion_unlinks
    (result : memoryRegionDelSubregion listener fuel mr subregion state = some next) :
    ∃ inside, Unlinks state.regions inside.regions mr subregion ∧
      Opened state inside ((state.regions mr).enabled && (state.regions subregion).enabled) ∧
      transactionCommit listener fuel inside = some next := by
  simp only [memoryRegionDelSubregion] at result
  split at result
  · cases result
  next linkedHere =>
    refine ⟨_, ?_, ?_, result⟩
    · constructor
      case renders =>
        intro other
        simp only [pend, edit, transactionBegin]
        grind [MemoryRegion.rendering]
      all_goals
        simp only [pend, edit, transactionBegin] at linkedHere ⊢
        grind
    · refine ⟨rfl, rfl, ?_⟩
      simp only [pend, edit, transactionBegin]
      grind

/-- A commit leaves the regions alone; one that is not the outermost only counts
down. -/
theorem transactionCommit_regions (result : transactionCommit listener fuel state = some next) :
    next.regions = state.regions ∧ (state.transactionDepth ≠ 1 →
      next.addressSpaces = state.addressSpaces ∧ next.updatePending = state.updatePending) := by
  obtain ⟨depth, depth_eq, ⟨rfl, -⟩ | ⟨rfl, flush⟩⟩ := transactionCommit_cases result
  · exact ⟨rfl, fun _ => ⟨rfl, rfl⟩⟩
  obtain ⟨begun, -, flush⟩ := Option.bind_eq_some_iff.mp flush
  obtain ⟨⟨spaces, updated⟩, -, flush⟩ := Option.bind_eq_some_iff.mp flush
  obtain ⟨committed, -, flush⟩ := Option.bind_eq_some_iff.mp flush
  cases flush
  exact ⟨rfl, fun nested => absurd depth_eq nested⟩

theorem Linked.commit (result : transactionCommit listener fuel state = some next)
    (linked : Linked state.regions) : Linked next.regions := by
  rwa [(transactionCommit_regions result).1]

theorem Linked.edit {change : MemoryRegion → MemoryRegion} (linked : Linked state.regions)
    (mr : Nat) (subregions : ∀ region, (change region).subregions = region.subregions)
    (parent : ∀ region, (change region).parent = region.parent)
    (priority : ∀ region, (change region).priority = region.priority) :
    Linked (state.edit mr change).regions :=
  linked.of_fields (fun _ => edit_frame (·.subregions) subregions)
    (fun _ => edit_frame (·.parent) parent)
    (fun _ => edit_frame (·.priority) priority)

/-! ### Every view is current -/

/-- If no update is pending, the views are what their roots generate. -/
def Fresh (state : MemoryState δ) : Prop :=
  state.updatePending = false → ∀ as ∈ state.addressSpaces,
    Generates state.regions as.root as.currentMap

/-- What holds between calls: outside transactions no update is pending. -/
structure Settled (state : MemoryState δ) : Prop where
  fresh : Fresh state
  idle : state.transactionDepth = 0 → state.updatePending = false

theorem updateSpaces_generates {regions : Regions} : ∀ {space : Nat}
    {spaces updated : List AddressSpace} {dev after : δ},
    updateSpaces listener fuel regions space spaces dev = some (updated, after) →
    ∀ as ∈ updated, Generates regions as.root as.currentMap
  | _, [], updated, _, _, result => by
    cases result
    simp
  | space, as :: rest, updated, dev, after, result => by
    obtain ⟨⟨first, middle⟩, firstResult, result⟩ := Option.bind_eq_some_iff.mp result
    obtain ⟨⟨later, last⟩, laterResult, result⟩ := Option.bind_eq_some_iff.mp result
    cases result
    obtain ⟨newView, generated, passes⟩ := Option.bind_eq_some_iff.mp firstResult
    obtain ⟨_, -, passes⟩ := Option.bind_eq_some_iff.mp passes
    obtain ⟨_, -, passes⟩ := Option.bind_eq_some_iff.mp passes
    cases passes
    exact List.forall_mem_cons.mpr ⟨.of_fuel generated, updateSpaces_generates laterResult⟩

/-- The outermost commit brings the views up to date if an update is pending. -/
theorem Fresh.commit (fresh : Fresh state)
    (result : transactionCommit listener fuel state = some next) : Settled next := by
  obtain ⟨depth, -, ⟨rfl, idle⟩ | ⟨-, flush⟩⟩ := transactionCommit_cases result
  · exact ⟨fresh, idle⟩
  obtain ⟨begun, -, flush⟩ := Option.bind_eq_some_iff.mp flush
  obtain ⟨⟨spaces, updated⟩, update, flush⟩ := Option.bind_eq_some_iff.mp flush
  obtain ⟨committed, -, flush⟩ := Option.bind_eq_some_iff.mp flush
  cases flush
  exact ⟨fun _ => updateSpaces_generates update, fun _ => rfl⟩

/-- The roots of the address spaces that are enabled stay in their places. -/
def RootsStay (state : MemoryState δ) (after : Regions) : Prop :=
  ∀ as ∈ state.addressSpaces, ∀ mr ∈ as.root, (state.regions mr).enabled = true →
    (after mr).addr = (state.regions mr).addr

theorem Fresh.change {pending : Bool} (fresh : Fresh state) (opened : Opened state inside pending)
    (unseen : state.updatePending = false → pending = false →
      RendersAlike state.regions inside.regions ∧ RootsStay state inside.regions) :
    Fresh inside := by
  intro idle as member
  rw [opened.pending, Bool.or_eq_false_iff] at idle
  rw [opened.spaces] at member
  obtain ⟨alike, stay⟩ := unseen idle.1 idle.2
  exact (fresh idle.1 as member).alike alike (stay as member)

/-- The region is the root of an address space and comes to another place. -/
def MovesRoot (state : MemoryState δ) (mr : Nat) (addr : UInt64) : Prop :=
  (∃ as ∈ state.addressSpaces, as.root = some mr) ∧ (state.regions mr).enabled = true ∧
    (state.regions mr).addr ≠ addr

theorem Settled.begin (settled : Settled state) : Settled (transactionBegin state) :=
  ⟨settled.fresh, fun outermost => absurd outermost (Nat.succ_ne_zero _)⟩

/-- A call leaves a region linked in its container only, and the views current if it is seen. -/
structure Kept (state next : MemoryState δ) (seen : Prop) : Prop where
  linked : Linked next.regions
  settled : Settled state → seen → Settled next

section

variable (linked : Linked state.regions)
include linked

theorem kept_addSubregion
    (result : memoryRegionAddSubregionCommon listener fuel mr offset subregion
      (state.edit subregion fun region => { region with mayOverlap, priority }) = some next) :
    Kept state next (MovesRoot state subregion offset →
      state.updatePending = true ∨ (state.regions mr).enabled = true) := by
  obtain ⟨inside, links, opened, commit⟩ := memoryRegionAddSubregionCommon_links result
  refine ⟨.commit commit (links.linked linked), fun settled seen =>
    (settled.fresh.change opened fun idle hidden =>
      ⟨links.alike linked hidden, fun as member root isRoot enabled => ?_⟩).commit commit⟩
  by_cases here : root = subregion
  · subst here
    by_contra moved
    rw [links.addr] at moved
    rcases seen ⟨⟨as, member, isRoot⟩, enabled, Ne.symm moved⟩ with pending | shown
    · rw [idle] at pending
      cases pending
    · rw [shown, enabled] at hidden
      cases hidden
  · exact links.addr_other root here

theorem kept_delSubregion
    (result : memoryRegionDelSubregion listener fuel mr subregion state = some next) :
    Kept state next True := by
  obtain ⟨inside, unlinks, opened, commit⟩ := memoryRegionDelSubregion_unlinks result
  exact ⟨.commit commit (unlinks.linked_after linked), fun settled _ =>
    (settled.fresh.change opened fun _ hidden =>
      ⟨unlinks.alike hidden, fun _ _ root _ _ => unlinks.addr root⟩).commit commit⟩

/-- While a region is disabled, a field that only rendering uses can be seen in no
view. -/
theorem kept_setter (setter : call.isSetter = true)
    (result : apiStep listener fuel state call = some next) : Kept state next True := by
  obtain rfl | ⟨mr, change, result, keeps, -⟩ := apiStep_setter setter result
  · exact ⟨linked, fun settled _ => settled⟩
  have opened : Opened state (((transactionBegin state).edit mr change).pend
      (state.regions mr).enabled) (state.regions mr).enabled := ⟨rfl, rfl, rfl⟩
  refine ⟨?_, fun settled _ => (settled.fresh.change opened fun _ disabled =>
    ⟨?_, fun _ _ other _ _ => edit_frame (·.addr) keeps.addr⟩).commit result⟩
  · exact .commit result (linked.edit mr keeps.subregions keeps.parent keeps.priority)
  constructor
  case region =>
    intro other shown
    simp only [pend, edit, transactionBegin]
    grind
  all_goals
    simp only [pend, edit, transactionBegin]
    grind [KeepsPlace]

theorem kept_setEnabled {enabled : Bool}
    (result : memoryRegionSetEnabled listener fuel mr enabled state = some next) :
    Kept state next True := by
  rw [memoryRegionSetEnabled] at result
  split at result
  · cases result
    exact ⟨linked, fun settled _ => settled⟩
  refine ⟨?_, fun _ _ => Fresh.commit (fun idle => ?_) result⟩
  · have edited : Linked (state.edit mr fun region => { region with enabled }).regions :=
      linked.edit mr (fun _ => rfl) (fun _ => rfl) fun _ => rfl
    exact .commit result edited
  · simp [pend] at idle

end

/-- Giving a place to a region that is no subregion can be seen only in the views of which it is
the root. -/
theorem Settled.readdress (settled : Settled state) (linked : Linked state.regions)
    (stays : ¬ MovesRoot state mr addr)
    (loose : (state.regions mr).parent = none ∨ (state.regions mr).addr = addr) :
    Settled (state.edit mr fun region => { region with addr }) := by
  have placed (other : Nat) (same : other = mr → (state.regions mr).addr = addr) :
      ((state.edit mr fun region => { region with addr }).regions other).addr =
        (state.regions other).addr := by
    simp only [edit]
    grind
  have alike : RendersAlike state.regions
      (state.edit mr fun region => { region with addr }).regions := by
    constructor
    case region =>
      intro other _
      exact edit_frame (·.rendering) fun _ => rfl
    case placed =>
      intro container _ other member _
      apply placed
      rintro rfl
      exact loose.resolve_left fun loose => linked.loose loose member
    all_goals
      simp only [edit]
      grind
  refine ⟨fun idle as member => ?_, settled.idle⟩
  refine (settled.fresh idle as member).alike alike fun root isRoot enabled =>
    placed root fun here => ?_
  subst here
  by_contra moved
  exact stays ⟨⟨as, member, isRoot⟩, enabled, moved⟩

/-- The condition under which moving a region misses no update: if it is a root, an update is
pending or the move is seen in an enabled container. -/
def StaysSeen (state : MemoryState δ) (container : Option Nat) (mr : Nat) (addr : UInt64) : Prop :=
  MovesRoot state mr addr →
    ∃ parent ∈ container, state.updatePending = true ∨ (state.regions parent).enabled = true

theorem StaysSeen.container {container mr : Nat} (seen : StaysSeen state (some container) mr addr)
    (moves : MovesRoot state mr addr) :
    state.updatePending = true ∨ (state.regions container).enabled = true := by
  obtain ⟨parent, isParent, seen⟩ := seen moves
  rw [Option.mem_some_iff] at isParent
  rwa [isParent]

theorem kept_setAddress (linked : Linked state.regions)
    (result : memoryRegionSetAddress listener fuel mr addr state = some next) :
    Kept state next (StaysSeen state (state.regions mr).parent mr addr) := by
  have edited : Linked (state.edit mr fun region => { region with addr }).regions :=
    linked.edit mr (fun _ => rfl) (fun _ => rfl) fun _ => rfl
  simp only [memoryRegionSetAddress] at result
  split at result
  next loose =>
    cases result
    refine ⟨edited, fun settled seen => settled.readdress linked (fun moves => ?_) (.inl loose)⟩
    obtain ⟨parent, isParent, -⟩ := seen moves
    rw [loose] at isParent
    cases isParent
  next parent parent_eq =>
    rw [parent_eq]
    split at result
    next same =>
      cases result
      exact ⟨edited, fun settled _ =>
        settled.readdress linked (fun moves => moves.2.2 same.symm) (.inr same.symm)⟩
    · obtain ⟨removed, remove, result⟩ := Option.bind_eq_some_iff.mp result
      obtain ⟨added, add, commit⟩ := Option.bind_eq_some_iff.mp result
      have first := @kept_delSubregion δ _ _ (transactionBegin state) _ _ _ linked remove
      have second : Kept removed added (MovesRoot removed mr addr →
          removed.updatePending = true ∨ (removed.regions parent).enabled = true) := by
        split at add
        · exact kept_addSubregion first.linked add
        · exact kept_addSubregion first.linked add
      refine ⟨.commit commit second.linked, fun settled seen => ?_⟩
      refine (second.settled (first.settled settled.begin trivial) ?_).fresh.commit commit
      -- the inner commit updates nothing, so roots and flags are as before the call
      obtain ⟨inside, unlinks, opened, inner⟩ := memoryRegionDelSubregion_unlinks remove
      have nested : inside.transactionDepth ≠ 1 := by simp [opened.depth, transactionBegin]
      obtain ⟨regions, unchanged⟩ := transactionCommit_regions inner
      obtain ⟨spaces, pending⟩ := unchanged nested
      rintro ⟨isRoot, enabled, moved⟩
      rw [spaces, opened.spaces] at isRoot
      rw [regions, unlinks.enabled] at enabled
      rw [regions, unlinks.addr] at moved
      rw [pending, opened.pending, regions, unlinks.enabled]
      rcases seen.container ⟨isRoot, enabled, moved⟩ with shown | shown
      · exact .inl (by simp [transactionBegin, shown])
      · exact .inr shown

theorem Generates.disabled {regions : Regions} {root : Nat}
    (disabled : (regions root).enabled = false) : Generates regions (some root) [] := by
  refine @Generates.of_fuel _ 1 _ _ ?_
  rw [generateMemoryTopology, renderMemoryRegion_disabled disabled]
  rfl

theorem kept_addressSpaceInit {root : Nat} (linked : Linked state.regions)
    (result : addressSpaceInit listener fuel root state = some next) : Kept state next True := by
  simp only [Qemu.addressSpaceInit] at result
  refine ⟨.commit result linked, fun settled _ => Fresh.commit (fun idle as member => ?_) result⟩
  simp only [pend, transactionBegin, Bool.or_eq_false_iff] at idle
  rcases List.mem_append.mp member with old | new
  · exact settled.fresh idle.1 as old
  · obtain rfl := List.mem_singleton.mp new
    exact .disabled idle.2

/-- No call puts the root of an address space where only a disabled container would
see it. -/
def RootsSeen (state : MemoryState δ) : ApiCall → Prop
  | .addSubregion mr offset subregion | .addSubregionOverlap mr offset subregion _ =>
    StaysSeen state (some mr) subregion offset
  | .setAddress mr addr => StaysSeen state (state.regions mr).parent mr addr
  | _ => True

theorem kept_step {call : ApiCall} (linked : Linked state.regions)
    (result : apiStep listener fuel state call = some next) :
    Kept state next (RootsSeen state call) := by
  have added {mr subregion : Nat} {offset : UInt64} (kept : Kept state next
      (MovesRoot state subregion offset →
        state.updatePending = true ∨ (state.regions mr).enabled = true)) :
      Kept state next (StaysSeen state (some mr) subregion offset) :=
    ⟨kept.linked, fun settled seen => kept.settled settled seen.container⟩
  cases call with
  | transactionBegin =>
    cases result
    exact ⟨linked, fun settled _ => settled.begin⟩
  | transactionCommit =>
    exact ⟨.commit result linked, fun settled _ => settled.fresh.commit result⟩
  | setLog | setReadonly | romDeviceSetRomd | setAliasOffset => exact kept_setter linked rfl result
  | setEnabled mr enabled => exact kept_setEnabled linked result
  | addSubregion mr offset subregion => exact added (kept_addSubregion linked result)
  | addSubregionOverlap mr offset subregion priority =>
    exact added (kept_addSubregion linked result)
  | delSubregion mr subregion => exact kept_delSubregion linked result
  | setAddress mr addr => exact kept_setAddress linked result
  | addressSpaceInit root => exact kept_addressSpaceInit linked result

/-! ### Runs -/

def memoryMachine (listener : MemoryListener δ) (fuel : Nat) :
    Machine (MemoryState δ) ApiCall where
  start state := state.transactionDepth = 0 ∧ state.updatePending = false ∧
    state.addressSpaces = [] ∧
    ∀ mr, (state.regions mr).parent = none ∧ (state.regions mr).subregions = []
  step := apiStep listener fuel

/-- In every run a region is linked in its container only, and subregions are in descending
priority. -/
theorem Linked.reached {allowed : MemoryState δ → ApiCall → Prop}
    (reached : (memoryMachine listener fuel).Reached allowed state) : Linked state.regions := by
  induction reached with
  | start initial =>
    obtain ⟨-, -, -, loose⟩ := initial
    refine ⟨fun mr subregion member => ?_, fun mr => ?_, fun mr => ?_⟩
    · rw [(loose mr).2] at member
      cases member
    · simp [(loose mr).2]
    · simp [(loose mr).2]
  | step before permitted taken ih => exact (kept_step ih taken).linked

theorem Settled.reached (reached : (memoryMachine listener fuel).Reached RootsSeen state) :
    Settled state := by
  induction reached with
  | start initial =>
    obtain ⟨-, idle, spaces, -⟩ := initial
    refine ⟨fun _ as member => ?_, fun _ => idle⟩
    rw [spaces] at member
    cases member
  | step before permitted taken ih =>
    exact (kept_step (.reached before) taken).settled ih permitted

/-- In every run in which no root is moved out of sight, every view is what its root generates
whenever no transaction is open. -/
theorem currentMap_generated (reached : (memoryMachine listener fuel).Reached RootsSeen state)
    (outside : state.transactionDepth = 0) :
    ∀ as ∈ state.addressSpaces, Generates state.regions as.root as.currentMap := by
  have settled := Settled.reached reached
  exact settled.fresh (settled.idle outside)

/-- In such a run the view of a finite tree shows at every address what the search finds. -/
theorem currentMap_visible (reached : (memoryMachine listener fuel).Reached RootsSeen state)
    (outside : state.transactionDepth = 0) {as : AddressSpace} (member : as ∈ state.addressSpaces)
    {root levels : Nat} (rooted : as.root = some root)
    (finite : Levels state.regions levels root) :
    ShowsVisible state.regions root as.currentMap := by
  have settled := Settled.reached reached
  obtain ⟨bound, generates⟩ := settled.fresh (settled.idle outside) as member
  have view := generates (bound + levels) (by omega)
  rw [rooted] at view
  exact generateMemoryTopology_shows (Linked.reached reached).sorted (finite.mono (by omega)) view

end Calls

/-! ### Two runs -/

def idleListener : MemoryListener Unit where
  begin := some
  commit := some
  regionAdd := fun _ _ => some
  regionDel := fun _ _ => some
  regionNop := fun _ _ => some
  logStart := fun _ _ => some
  logStop := fun _ _ => some
  addressSpaceFilter := none

def looseState : MemoryState Unit where
  regions mr :=
    { memoryRegionInit (if mr = 0 then 0x1000 else 0x2000) with
      enabled := mr ≠ 2, terminates := mr = 0, ram := mr = 0 }
  transactionDepth := 0
  updatePending := false
  addressSpaces := []
  dev := ()

theorem looseState_start {fuel : Nat} : (memoryMachine idleListener fuel).start looseState :=
  ⟨rfl, rfl, rfl, fun _ => ⟨rfl, rfl⟩⟩

theorem currentMap_generated_nested : ∃ state : MemoryState Unit,
    (memoryMachine idleListener 2).Reached RootsSeen state ∧ state.transactionDepth = 0 ∧
      (state.regions 0).addr = 0x1000 ∧ state.addressSpaces.length = 2 ∧
      ∀ as ∈ state.addressSpaces, Generates state.regions as.root as.currentMap := by
  let calls : List ApiCall := [.addressSpaceInit 0, .addressSpaceInit 1, .addSubregion 1 0x1000 0]
  have ran : ((memoryMachine idleListener 2).run calls looseState).map (fun state =>
      (state.transactionDepth, (state.regions 0).addr, state.addressSpaces.length)) =
        some (0, 0x1000, 2) := by decide +kernel
  have permitted : (memoryMachine idleListener 2).RunAllowed RootsSeen calls looseState :=
    ⟨trivial, trivial, fun _ => ⟨1, rfl, .inr rfl⟩, trivial⟩
  obtain ⟨state, reached, fields⟩ := (Machine.Reached.start looseState_start).evaluate permitted ran
  simp only [Prod.mk.injEq] at fields
  obtain ⟨outside, addr, spaces⟩ := fields
  exact ⟨state, reached, outside, addr, spaces, currentMap_generated reached outside⟩

def stackedState : MemoryState Unit where
  regions mr :=
    { memoryRegionInit (if mr = 0 then 0x4000 else if mr = 1 then 0x2000 else 0x1000) with
      terminates := mr ≠ 0, ram := mr ≠ 0 }
  transactionDepth := 0
  updatePending := false
  addressSpaces := []
  dev := ()

/-- The page lies over the first of the two pages. -/
theorem currentMap_visible_stacked : ∃ (state : MemoryState Unit) (as : AddressSpace),
    (memoryMachine idleListener 3).Reached RootsSeen state ∧ as ∈ state.addressSpaces ∧
      as.root = some 0 ∧
      as.currentMap = [⟨2, 0, ⟨0x1000, 0x1000⟩, 0, true, false⟩,
        ⟨1, 0x1000, ⟨0x2000, 0x1000⟩, 0, true, false⟩] ∧
      ShowsVisible state.regions 0 as.currentMap := by
  let calls : List ApiCall := [.addressSpaceInit 0, .addSubregionOverlap 0 0x1000 1 0,
    .addSubregionOverlap 0 0x1000 2 1]
  have ran : ((memoryMachine idleListener 3).run calls stackedState).map (fun state =>
      (state.transactionDepth, state.addressSpaces.map fun as => (as.root, as.currentMap),
        [0, 1, 2].map fun mr => (state.regions mr).below)) =
      some (0, [(some 0, [⟨2, 0, ⟨0x1000, 0x1000⟩, 0, true, false⟩,
        ⟨1, 0x1000, ⟨0x2000, 0x1000⟩, 0, true, false⟩])], [[2, 1], [], []]) := by decide +kernel
  have permitted : (memoryMachine idleListener 3).RunAllowed RootsSeen calls stackedState := by
    exact ⟨trivial, fun _ => ⟨0, rfl, .inr rfl⟩, fun _ => ⟨0, rfl, .inr rfl⟩, trivial⟩
  have start : (memoryMachine idleListener 3).start stackedState :=
    ⟨rfl, rfl, rfl, fun _ => ⟨rfl, rfl⟩⟩
  obtain ⟨state, reached, fields⟩ := (Machine.Reached.start start).evaluate permitted ran
  simp only [Prod.mk.injEq, List.map_eq_cons_iff, List.map_eq_nil_iff, List.map_cons, List.map_nil,
    List.cons.injEq] at fields
  obtain ⟨outside, ⟨as, rest, spaces, ⟨rooted, view⟩, -⟩, container, lower, upper, -⟩ := fields
  have member : as ∈ state.addressSpaces := spaces ▸ List.mem_cons_self
  have finite : Levels state.regions 2 0 := by
    intro subregion below leaf inside
    rw [container] at below
    obtain rfl | rfl : subregion = 2 ∨ subregion = 1 := by simpa using below
    · exact absurd inside (upper ▸ List.not_mem_nil)
    · exact absurd inside (lower ▸ List.not_mem_nil)
  exact ⟨state, as, reached, member, rooted, view,
    currentMap_visible reached outside member rooted finite⟩

/-- `set_address` is used for regions only that are not the root of an address space. -/
def NonRootMoves {δ : Type} (state : MemoryState δ) : ApiCall → Prop
  | .setAddress mr _ => ∀ as ∈ state.addressSpaces, as.root ≠ some mr
  | _ => True

/-- Once a root is put into a disabled container, its view is not what it generates. -/
theorem currentMap_stale : ∃ state : MemoryState Unit,
    (memoryMachine idleListener 2).Reached NonRootMoves state ∧ state.transactionDepth = 0 ∧
      ∃ as ∈ state.addressSpaces, ¬ Generates state.regions as.root as.currentMap := by
  let calls : List ApiCall := [.addressSpaceInit 0, .addSubregion 2 0x1000 0]
  have ran : ((memoryMachine idleListener 2).run calls looseState).map (fun state =>
      (state.transactionDepth, state.addressSpaces.map fun as =>
        (as.currentMap, generateMemoryTopology state.regions 2 as.root))) =
      some (0, [([⟨0, 0, ⟨0, 0x1000⟩, 0, true, false⟩],
        some [⟨0, 0, ⟨0x1000, 0x1000⟩, 0, true, false⟩])]) := by decide +kernel
  have permitted : (memoryMachine idleListener 2).RunAllowed NonRootMoves calls looseState :=
    ⟨trivial, trivial, trivial⟩
  obtain ⟨state, reached, fields⟩ := (Machine.Reached.start looseState_start).evaluate permitted ran
  simp only [Prod.mk.injEq, List.map_eq_cons_iff, List.map_eq_nil_iff] at fields
  obtain ⟨outside, as, rest, spaces, ⟨held, generated⟩, -⟩ := fields
  refine ⟨state, reached, outside, as, spaces ▸ List.mem_cons_self, fun generates => ?_⟩
  have same := generates.unique (.of_fuel generated)
  rw [held] at same
  exact absurd same (by decide)

end VhostUser.Qemu
