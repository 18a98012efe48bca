import Mathlib.Algebra.Order.Ring.Nat
import Mathlib.Data.List.Basic
import Mathlib.Tactic.Ring

/-!
Contract: the radix tree that maps guest pages to section numbers (`exec.c`:
`phys_page_set_level`, `phys_page_compact` and the walk of `phys_page_find`).

The array of nodes is a tree here, since a node is reached from one entry only;
the counters of the array are kept, for the assertions of `phys_map_node_alloc`.
A failed assertion is `none`, and so is a section number used as a node.

Owns: setting pages that are not assigned sets just those (`physPageSet_ok`), and
compacting leads an address to its own section or, where it has none, to some
section of the tree (`physPageCompact_find`).
-/

namespace VhostUser.Qemu

def physMapNodeNil : Nat := 2 ^ 26 - 1

/-- `P_L2_LEVELS`, for pages of 4096 bytes. A node has `P_L2_SIZE` = 512 entries. -/
def pL2Levels : Nat := 6

/-- `PhysPageEntry`, with what it leads to: `PHYS_MAP_NODE_NIL`, a section, or a
node. -/
inductive PhysPageEntry where
  | nil
  | leaf (ptr : Nat)
  | node (skip : Nat) (entries : Nat → PhysPageEntry)

namespace PhysPageEntry

def skip : PhysPageEntry → Nat
  | .nil => 1
  | .leaf _ => 0
  | .node skip _ => skip

def isNil : PhysPageEntry → Bool
  | .nil => true
  | _ => false

end PhysPageEntry

def setEntry (entries : Nat → PhysPageEntry) (i : Nat) (entry : PhysPageEntry) :
    Nat → PhysPageEntry :=
  fun j => if j = i then entry else entries j

/-! ### Allocation -/

/-- `nodes_nb` and `nodes_nb_alloc`. -/
structure NodeCount where
  nb : Nat
  alloc : Nat
deriving DecidableEq, Repr

def physMapNodeReserve (count : NodeCount) (nodes : Nat) : NodeCount :=
  if count.alloc < count.nb + nodes then
    { count with alloc := max (max (count.alloc * 2) 16) (count.nb + nodes) }
  else count

/-- `phys_map_node_alloc`, up to the entries of the node. -/
def physMapNodeAlloc (count : NodeCount) : Option NodeCount :=
  if count.nb ≠ physMapNodeNil && count.nb ≠ count.alloc then
    some { count with nb := count.nb + 1 }
  else none

/-! ### Setting pages -/

/-- The variables that `phys_page_set_level` shares between its calls. -/
structure SetState where
  count : NodeCount
  index : Nat
  nb : Nat
deriving DecidableEq, Repr

def openNode (count : NodeCount) (level : Nat) :
    PhysPageEntry → Option (NodeCount × Nat × (Nat → PhysPageEntry))
  | .nil => (physMapNodeAlloc count).map fun count =>
    (count, 1, fun _ => if level = 0 then .leaf 0 else .nil)
  | .leaf _ => none
  | .node skip entries => some (count, skip, entries)

/-- The loop of `phys_page_set_level` over the entries of a node from `i` on, with the call for an
entry that is set in part. -/
def setEntries (below : PhysPageEntry → SetState → Option (PhysPageEntry × SetState))
    (step leaf : Nat) :
    Nat → Nat → (Nat → PhysPageEntry) → SetState → Option ((Nat → PhysPageEntry) × SetState)
  | 0, _, entries, state => some (entries, state)
  | left + 1, i, entries, state =>
    if state.nb = 0 then some (entries, state)
    else if state.index % step = 0 ∧ step ≤ state.nb then
      setEntries below step leaf left (i + 1) (setEntry entries i (.leaf leaf))
        { state with index := state.index + step, nb := state.nb - step }
    else
      (below (entries i) state).bind fun (entry, state) =>
        setEntries below step leaf left (i + 1) (setEntry entries i entry) state

def setNode (below : PhysPageEntry → SetState → Option (PhysPageEntry × SetState))
    (leaf level : Nat) (lp : PhysPageEntry) (state : SetState) :
    Option (PhysPageEntry × SetState) :=
  (openNode state.count level lp).bind fun (count, skip, entries) =>
    let first := state.index / 512 ^ level % 512
    (setEntries below (512 ^ level) leaf (512 - first) first entries { state with count }).map
      fun (entries, state) => (.node skip entries, state)

/-- `phys_page_set_level`. Level 0 has single pages, which are never set in part. -/
def physPageSetLevel (leaf : Nat) :
    Nat → PhysPageEntry → SetState → Option (PhysPageEntry × SetState)
  | 0 => setNode (fun _ _ => none) leaf 0
  | level + 1 => setNode (physPageSetLevel leaf level) leaf (level + 1)

def physPageSet (count : NodeCount) (physMap : PhysPageEntry) (index nb leaf : Nat) :
    Option (NodeCount × PhysPageEntry) :=
  let count := physMapNodeReserve count (3 * pL2Levels)
  (physPageSetLevel leaf (pL2Levels - 1) physMap ⟨count, index, nb⟩).map fun (entry, state) =>
    (state.count, entry)

/-! ### Compacting and finding -/

/-- The entries of a node that lead somewhere. -/
def validEntries (entries : Nat → PhysPageEntry) : List Nat :=
  (List.range 512).filter fun i => !(entries i).isNil

/-- The end of `phys_page_compact`: an entry with a single child that fits takes its
place. -/
def compactNode (skip : Nat) (compacted : Nat → PhysPageEntry) : List Nat → PhysPageEntry
  | [only] =>
    if 8 ≤ skip + (compacted only).skip then .node skip compacted
    else
      match compacted only with
      | .nil => .nil
      | .leaf ptr => .leaf ptr
      | .node below entries => .node (skip + below) entries
  | _ => .node skip compacted

def physPageCompact : PhysPageEntry → PhysPageEntry
  | .nil => .nil
  | .leaf ptr => .leaf ptr
  | .node skip entries =>
    compactNode skip (fun i => physPageCompact (entries i)) (validEntries entries)

/-- The section number to which `phys_page_find` comes from `i` levels above the
pages. -/
def physPageWalk : PhysPageEntry → Nat → Nat → Option Nat
  | .nil, i, _ => if 1 ≤ i then some 0 else none
  | .leaf ptr, _, _ => some ptr
  | .node skip entries, i, index =>
    if skip ≤ i then physPageWalk (entries (index / 512 ^ (i - skip) % 512)) (i - skip) index
    else none

/-! ### Trees before compacting -/

/-- A tree over `512 ^ levels` pages, as `phys_page_set_level` builds it. -/
def Shaped : Nat → PhysPageEntry → Prop
  | 0, entry => ∃ ptr, entry = .leaf ptr
  | levels + 1, entry =>
    match entry with
    | .nil => True
    | .leaf ptr => ptr ≠ 0
    | .node skip entries => skip = 1 ∧ ∀ i, Shaped levels (entries i)

def pageAt : Nat → PhysPageEntry → Nat → Nat
  | _, .nil, _ => 0
  | _, .leaf ptr, _ => ptr
  | 0, .node _ _, _ => 0
  | levels + 1, .node _ entries, page => pageAt levels (entries (page / 512 ^ levels % 512)) page

variable {levels page skip : Nat} {entries : Nat → PhysPageEntry}

@[simp] theorem pageAt_nil : pageAt levels .nil page = 0 := by
  cases levels <;> rfl

@[simp] theorem pageAt_leaf {ptr : Nat} : pageAt levels (.leaf ptr) page = ptr := by
  cases levels <;> rfl

theorem pageAt_node :
    pageAt (levels + 1) (.node skip entries) page =
      pageAt levels (entries (page / 512 ^ levels % 512)) page := rfl

theorem physPageWalk_shaped : ∀ {levels : Nat} {entry : PhysPageEntry} (page : Nat),
    Shaped levels entry → physPageWalk entry levels page = some (pageAt levels entry page)
  | 0, entry, page, shaped => by
    obtain ⟨ptr, rfl⟩ := shaped
    rfl
  | levels + 1, .nil, page, _ => rfl
  | levels + 1, .leaf ptr, page, _ => rfl
  | levels + 1, .node skip entries, page, shaped => by
    obtain ⟨rfl, below⟩ := shaped
    rw [physPageWalk, if_pos (by omega), Nat.add_sub_cancel, pageAt_node]
    exact physPageWalk_shaped page (below _)

/-! ### What compacting keeps -/

theorem pageAt_congr : ∀ {levels : Nat} {entry : PhysPageEntry} {page other : Nat},
    page % 512 ^ levels = other % 512 ^ levels →
      pageAt levels entry page = pageAt levels entry other
  | 0, .nil, _, _, _ | 0, .leaf _, _, _, _ | 0, .node _ _, _, _, _ => rfl
  | levels + 1, .nil, _, _, _ | levels + 1, .leaf _, _, _, _ => rfl
  | levels + 1, .node skip entries, page, other, same => by
    have digit : page / 512 ^ levels % 512 = other / 512 ^ levels % 512 := by
      rw [← Nat.mod_mul_right_div_self, ← Nat.mod_mul_right_div_self, ← Nat.pow_succ, same]
    have low : page % 512 ^ levels = other % 512 ^ levels := by
      have divides : 512 ^ levels ∣ 512 ^ (levels + 1) := Nat.pow_dvd_pow 512 (Nat.le_succ levels)
      rw [← Nat.mod_mod_of_dvd page divides, same, Nat.mod_mod_of_dvd other divides]
    rw [pageAt_node, pageAt_node, digit]
    exact pageAt_congr low

/-- The page with the digit `i` at a level and the lower digits of `page`. -/
def withDigit (levels i page : Nat) : Nat := i * 512 ^ levels + page % 512 ^ levels

theorem pageAt_withDigit {i : Nat} (small : i < 512) :
    pageAt (levels + 1) (.node skip entries) (withDigit levels i page) =
      pageAt levels (entries i) page := by
  have positive : 0 < 512 ^ levels := Nat.pow_pos (by decide)
  have digit : withDigit levels i page / 512 ^ levels % 512 = i := by
    rw [withDigit, Nat.add_comm, Nat.add_mul_div_right _ _ positive,
      Nat.div_eq_of_lt (Nat.mod_lt _ positive), Nat.zero_add, Nat.mod_eq_of_lt small]
  rw [pageAt_node, digit]
  refine pageAt_congr ?_
  rw [withDigit, Nat.add_comm, Nat.add_mul_mod_self_right, Nat.mod_mod]

theorem mem_validEntries {i : Nat} :
    i ∈ validEntries entries ↔ i < 512 ∧ (entries i).isNil = false := by
  simp only [validEntries, List.mem_filter, List.mem_range, Bool.not_eq_true']

theorem compactNode_isNil {compacted : Nat → PhysPageEntry} {children : List Nat}
    (shown : ∀ i ∈ children, (compacted i).isNil = false) :
    (compactNode skip compacted children).isNil = false := by
  rw [compactNode.eq_def]
  split
  next only =>
    have notNil := shown only List.mem_cons_self
    split
    · rfl
    split
    next empty =>
      rw [empty] at notNil
      cases notNil
    · rfl
    · rfl
  · rfl

theorem physPageCompact_isNil : ∀ entry : PhysPageEntry,
    (physPageCompact entry).isNil = entry.isNil
  | .nil | .leaf _ => rfl
  | .node skip entries => by
    rw [physPageCompact]
    refine compactNode_isNil fun i member => ?_
    rw [physPageCompact_isNil (entries i)]
    exact (mem_validEntries.mp member).2

theorem compactNode_walk {levels : Nat} {compacted : Nat → PhysPageEntry} {children : List Nat}
    (shown : ∀ i ∈ children, (compacted i).isNil = false) :
    compactNode 1 compacted children = .node 1 compacted ∨
    ∃ only, children = [only] ∧ ∀ page,
      physPageWalk (compactNode 1 compacted children) (levels + 1) page =
        physPageWalk (compacted only) levels page := by
  rw [compactNode.eq_def]
  split
  next only =>
    have notNil := shown only List.mem_cons_self
    split
    · exact .inl rfl
    refine .inr ⟨only, rfl, fun page => ?_⟩
    cases child : compacted only with
    | nil =>
      rw [child] at notNil
      cases notNil
    | leaf ptr => rfl
    | node below entries =>
      have level : levels + 1 - (1 + below) = levels - below := by omega
      simp only [physPageWalk, level]
      congr 1
      exact propext (by omega)
  · exact .inl rfl

/-- After compacting, the walk ends at the page's section, or, if it has none, at a section of
some other page. -/
theorem physPageCompact_find : ∀ {levels : Nat} {entry : PhysPageEntry} (page : Nat),
    Shaped levels entry →
    ∃ ptr, physPageWalk (physPageCompact entry) levels page = some ptr ∧
      (ptr = pageAt levels entry page ∨
        pageAt levels entry page = 0 ∧ ∃ other, pageAt levels entry other = ptr)
  | 0, entry, page, shaped => by
    obtain ⟨ptr, rfl⟩ := shaped
    exact ⟨ptr, rfl, .inl rfl⟩
  | levels + 1, .nil, page, _ => ⟨0, rfl, .inl rfl⟩
  | levels + 1, .leaf ptr, page, _ => ⟨ptr, rfl, .inl rfl⟩
  | levels + 1, .node skip entries, page, shaped => by
    obtain ⟨rfl, below⟩ := shaped
    have lift {i other : Nat} (small : i < 512) :
        ∃ page, pageAt (levels + 1) (.node 1 entries) page = pageAt levels (entries i) other :=
      ⟨withDigit levels i other, pageAt_withDigit small⟩
    have digit : page / 512 ^ levels % 512 < 512 := Nat.mod_lt _ (by decide)
    have shown : ∀ i ∈ validEntries entries, (physPageCompact (entries i)).isNil = false :=
      fun i member => by
        rw [physPageCompact_isNil]
        exact (mem_validEntries.mp member).2
    rw [physPageCompact]
    rcases @compactNode_walk levels _ _ shown with same | ⟨only, sole, walk⟩
    · obtain ⟨ptr, found, rightful⟩ :=
        physPageCompact_find page (below (page / 512 ^ levels % 512))
      rw [same, physPageWalk, if_pos (by omega), Nat.add_sub_cancel]
      refine ⟨ptr, found, ?_⟩
      rw [pageAt_node]
      rcases rightful with own | ⟨none, other, foreign⟩
      · exact .inl own
      · obtain ⟨elsewhere, there⟩ := @lift _ other digit
        exact .inr ⟨none, elsewhere, there.trans foreign⟩
    have valid {i : Nat} : i = only ↔ i < 512 ∧ (entries i).isNil = false := by
      rw [← mem_validEntries, sole, List.mem_singleton]
    have small : only < 512 := (valid.mp rfl).1
    obtain ⟨ptr, found, rightful⟩ := physPageCompact_find page (below only)
    rw [walk]
    refine ⟨ptr, found, ?_⟩
    rw [pageAt_node]
    by_cases here : page / 512 ^ levels % 512 = only
    · rw [here]
      rcases rightful with own | ⟨none, other, foreign⟩
      · exact .inl own
      · obtain ⟨elsewhere, there⟩ := @lift _ other small
        exact .inr ⟨none, elsewhere, there.trans foreign⟩
    have empty : entries (page / 512 ^ levels % 512) = .nil := by
      by_contra notNil
      refine here (valid.mpr ⟨digit, ?_⟩)
      cases entry : entries (page / 512 ^ levels % 512) with
      | nil => exact absurd entry notNil
      | leaf | node => rfl
    rw [empty, pageAt_nil]
    right
    rcases rightful with rfl | ⟨-, other, rfl⟩
    · exact ⟨rfl, @lift only page small⟩
    · exact ⟨rfl, @lift only other small⟩

/-! ### What setting pages does -/

/-- The nodes that an edge of a range needs below a level. -/
def edge (level page : Nat) : Nat := if page % 512 ^ level = 0 then 0 else level

def NodeCount.Room (count : NodeCount) (nodes : Nat) : Prop :=
  count.nb + nodes ≤ count.alloc ∧ count.nb + nodes ≤ physMapNodeNil

/-- The pages from `state.index` on, up to `stop`, are set, with at most `nodes` new nodes. -/
structure Advances (stop nodes : Nat) (state next : SetState) : Prop where
  index : next.index = min (state.index + state.nb) stop
  rest : next.index + next.nb = state.index + state.nb
  alloc : next.count.alloc = state.count.alloc
  grows : state.count.nb ≤ next.count.nb
  used : next.count.nb ≤ state.count.nb + nodes

def paintPages (first last leaf : Nat) (before : Nat → Nat) (page : Nat) : Nat :=
  if first ≤ page ∧ page < last then leaf else before page

/-- What a call for an entry over `512 ^ levels` pages from `base` on has to do. -/
def SetsEntry (leaf levels : Nat)
    (set : PhysPageEntry → SetState → Option (PhysPageEntry × SetState)) : Prop :=
  ∀ (base : Nat) (lp : PhysPageEntry) (state : SetState), 512 ^ levels ∣ base →
    Shaped levels lp → base ≤ state.index → state.index < base + 512 ^ levels → 0 < state.nb →
    (∀ page, state.index ≤ page → page < state.index + state.nb → page < base + 512 ^ levels →
      pageAt levels lp page = 0) →
    state.count.Room (1 + edge (levels - 1) state.index + (levels - 1)) →
    ∃ entry next, set lp state = some (entry, next) ∧ Shaped levels entry ∧
      Advances (base + 512 ^ levels)
        (1 + edge (levels - 1) state.index + edge (levels - 1) next.index) state next ∧
      ∀ page, base ≤ page → page < base + 512 ^ levels →
        pageAt levels entry page = paintPages state.index next.index leaf (pageAt levels lp) page

section Digits

variable {step base i page : Nat}

theorem digit_eq (aligned : 512 * step ∣ base) (small : i < 512)
    (low : base + i * step ≤ page) (high : page < base + (i + 1) * step) :
    page / step % 512 = i := by
  obtain ⟨turns, rfl⟩ := aligned
  have quotient : page / step = 512 * turns + i := by
    refine Nat.div_eq_of_lt_le ?_ ?_
    · calc (512 * turns + i) * step = 512 * step * turns + i * step := by ring
        _ ≤ page := low
    · calc page < 512 * step * turns + (i + 1) * step := high
        _ = (512 * turns + i + 1) * step := by ring
  omega

theorem exists_digit (positive : 0 < step) (low : base ≤ page) (high : page < base + 512 * step) :
    ∃ i < 512, base + i * step ≤ page ∧ page < base + (i + 1) * step := by
  refine ⟨(page - base) / step, ?_, ?_, ?_⟩
  · rw [Nat.div_lt_iff_lt_mul positive]
    omega
  · have := Nat.div_mul_le_self (page - base) step
    omega
  · have := @Nat.lt_div_mul_add (page - base) step positive
    rw [Nat.add_mul, Nat.one_mul]
    omega

end Digits

theorem Advances.refl {stop nodes : Nat} {state : SetState} (inside : state.index ≤ stop)
    (done : state.nb = 0 ∨ state.index = stop) : Advances stop nodes state state :=
  ⟨by omega, rfl, rfl, le_rfl, by omega⟩

section Edge

variable {level page : Nat}

theorem edge_le : edge level page ≤ level := by
  rw [edge]
  split <;> omega

theorem edge_aligned (aligned : page % 512 ^ level = 0) : edge level page = 0 := if_pos aligned

theorem edge_inside (inside : page % 512 ^ level ≠ 0) : edge level page = level := if_neg inside

theorem aligned_below (aligned : page % 512 ^ (level + 1) = 0) : page % 512 ^ level = 0 :=
  Nat.mod_eq_zero_of_dvd ((Nat.pow_dvd_pow 512 (Nat.le_succ level)).trans
    (Nat.dvd_of_mod_eq_zero aligned))

/-- An edge needs a node more on the next level, unless it is aligned there. -/
theorem edge_succ : edge level page ≤ edge (level + 1) page := by
  by_cases aligned : page % 512 ^ (level + 1) = 0
  · rw [edge_aligned (aligned_below aligned)]
    exact Nat.zero_le _
  · rw [edge_inside aligned]
    exact edge_le.trans (Nat.le_succ level)

end Edge

section Loop

variable {leaf level base i : Nat}
  {below : PhysPageEntry → SetState → Option (PhysPageEntry × SetState)}
  {entries : Nat → PhysPageEntry} {entry : PhysPageEntry}

theorem setEntry_self : setEntry entries i entry i = entry := if_pos rfl

theorem setEntry_other {j : Nat} (different : j ≠ i) :
    setEntry entries i entry j = entries j := if_neg different

theorem setEntries_done {step left : Nat} {state : SetState} (done : state.nb = 0) :
    setEntries below step leaf left i entries state = some (entries, state) := by
  cases left with
  | zero => rfl
  | succ left => rw [setEntries, if_pos done]

theorem paintPages_turn {step : Nat} {rest : Nat → PhysPageEntry} {first mid last page : Nat}
    (aligned : 512 * step ∣ base) (positive : 0 < step) (small : i < 512)
    (low : base + i * step ≤ first) (upTo : mid ≤ base + (i + 1) * step) (forward : first ≤ mid)
    (onward : mid ≤ last) (inEntry : base + i * step ≤ page → page < base + (i + 1) * step →
      pageAt level entry page = paintPages first mid leaf (pageAt level (entries i)) page)
    (inRest : pageAt level (rest (page / step % 512)) page = paintPages mid last leaf
      (fun page => pageAt level (setEntry entries i entry (page / step % 512)) page) page)
    (inNode : base ≤ page) (inNode' : page < base + 512 * step) :
    pageAt level (rest (page / step % 512)) page = paintPages first last leaf
      (fun page => pageAt level (entries (page / step % 512)) page) page := by
  obtain ⟨j, smallJ, lowJ, highJ⟩ := exists_digit positive inNode inNode'
  have digit := digit_eq aligned smallJ lowJ highJ
  rw [inRest]
  simp only [paintPages, digit]
  by_cases here : j = i
  · subst here
    rw [setEntry_self, inEntry lowJ highJ, paintPages]
    split_ifs <;> first | rfl | omega
  rw [setEntry_other here]
  -- the part set in this turn lies under the entry
  have outside : ¬ (first ≤ page ∧ page < mid) := by
    rintro ⟨after, before⟩
    refine here ?_
    rw [← digit, digit_eq aligned small (by omega) (by omega)]
  split_ifs <;> first | rfl | omega

/-- What the loop needs at the entry `i` of a node over the pages from `base` on. -/
structure LoopReady (level base i : Nat) (entries : Nat → PhysPageEntry) (state : SetState) :
    Prop where
  shaped : ∀ j, Shaped level (entries j)
  inside : state.index ≤ base + 512 * 512 ^ level
  here : state.nb ≠ 0 → base + i * 512 ^ level ≤ state.index ∧
    state.index < base + (i + 1) * 512 ^ level
  free : ∀ page, state.index ≤ page → page < state.index + state.nb →
    page < base + 512 * 512 ^ level → pageAt level (entries (page / 512 ^ level % 512)) page = 0
  room : state.count.Room (edge level state.index + level)

structure SetsNode (leaf level base : Nat) (entries entries' : Nat → PhysPageEntry)
    (state next : SetState) : Prop where
  shaped : ∀ j, Shaped level (entries' j)
  advances : Advances (base + 512 * 512 ^ level)
    (edge level state.index + edge level next.index) state next
  pages : ∀ page, base ≤ page → page < base + 512 * 512 ^ level →
    pageAt level (entries' (page / 512 ^ level % 512)) page =
      paintPages state.index next.index leaf
        (fun page => pageAt level (entries (page / 512 ^ level % 512)) page) page

structure SetsOne (leaf level base i nodes : Nat) (before entry : PhysPageEntry)
    (state mid : SetState) : Prop where
  shaped : Shaped level entry
  advances : Advances (base + (i + 1) * 512 ^ level) nodes state mid
  onward : mid.nb ≠ 0 → nodes ≤ edge level state.index
  total : nodes ≤ edge level state.index + edge level mid.index
  pages : ∀ page, base + i * 512 ^ level ≤ page → page < base + (i + 1) * 512 ^ level →
    pageAt level entry page = paintPages state.index mid.index leaf (pageAt level before) page

theorem SetsNode.refl {state : SetState} (shaped : ∀ j, Shaped level (entries j))
    (inside : state.index ≤ base + 512 * 512 ^ level)
    (done : state.nb = 0 ∨ state.index = base + 512 * 512 ^ level) :
    SetsNode leaf level base entries entries state state := by
  refine ⟨shaped, .refl inside done, fun page _ _ => ?_⟩
  rw [paintPages, if_neg (by omega)]

section Turn

variable {i nodes : Nat} {entries rest : Nat → PhysPageEntry} {entry : PhysPageEntry}
  {state mid next : SetState}

theorem child_end_le (small : i < 512) :
    base + (i + 1) * 512 ^ level ≤ base + 512 * 512 ^ level := by
  have := Nat.mul_le_mul_right (512 ^ level) (show i + 1 ≤ 512 by omega)
  omega

theorem child_next : base + (i + 1) * 512 ^ level = base + i * 512 ^ level + 512 ^ level := by
  ring

theorem child_aligned (aligned : 512 * 512 ^ level ∣ base) : 512 ^ level ∣ base + i * 512 ^ level :=
  Nat.dvd_add (dvd_trans (Dvd.intro_left _ rfl) aligned) (Dvd.intro_left _ rfl)

theorem SetsOne.stop (sets : SetsOne leaf level base i nodes (entries i) entry state mid)
    (more : mid.nb ≠ 0) : mid.index = base + (i + 1) * 512 ^ level := by
  have := sets.advances.index
  have := sets.advances.rest
  omega

theorem SetsOne.shapes (sets : SetsOne leaf level base i nodes (entries i) entry state mid)
    (ready : LoopReady level base i entries state) (j : Nat) :
    Shaped level (setEntry entries i entry j) := by
  by_cases here : j = i
  · subst here
    rw [setEntry_self]
    exact sets.shaped
  · rw [setEntry_other here]
    exact ready.shaped j

/-- Behind a turn that did not finish, the loop is ready for the next entry. -/
theorem LoopReady.turn (ready : LoopReady level base i entries state)
    (aligned : 512 * 512 ^ level ∣ base) (small : i < 512) (more : state.nb ≠ 0)
    (sets : SetsOne leaf level base i nodes (entries i) entry state mid) (again : mid.nb ≠ 0) :
    LoopReady level base (i + 1) (setEntry entries i entry) mid := by
  have positive : 0 < 512 ^ level := Nat.pow_pos (by decide)
  have atEnd := sets.stop again
  obtain ⟨low, high⟩ := ready.here more
  obtain ⟨index, rest, alloc, grows, used⟩ := sets.advances
  have next_eq := @child_next level base (i + 1)
  have midEdge : edge level mid.index = 0 :=
    edge_aligned (atEnd ▸ Nat.mod_eq_zero_of_dvd (child_aligned aligned))
  have within := sets.onward again
  refine ⟨sets.shapes ready, atEnd ▸ child_end_le small, fun _ => ⟨atEnd.ge, by omega⟩,
    fun page after before inNode => ?_, ?_⟩
  · obtain ⟨j, smallJ, lowJ, highJ⟩ := @exists_digit (512 ^ level) base page positive
      (by omega) inNode
    have different : j ≠ i := by
      rintro rfl
      omega
    have unset := ready.free page (by omega) (by omega) inNode
    rw [digit_eq aligned smallJ lowJ highJ] at unset ⊢
    rwa [setEntry_other different]
  · obtain ⟨allocRoom, nilRoom⟩ := ready.room
    exact ⟨by omega, by omega⟩

theorem SetsOne.andThen (sets : SetsOne leaf level base i nodes (entries i) entry state mid)
    (ready : LoopReady level base i entries state) (aligned : 512 * 512 ^ level ∣ base)
    (small : i < 512) (more : state.nb ≠ 0) (finished : mid.nb = 0 → next = mid)
    (later : SetsNode leaf level base (setEntry entries i entry) rest mid next) :
    SetsNode leaf level base entries rest state next := by
  have positive : 0 < 512 ^ level := Nat.pow_pos (by decide)
  obtain ⟨low, high⟩ := ready.here more
  have childEnd := @child_end_le level base i small
  obtain ⟨index, rest_eq, alloc, grows, used⟩ := sets.advances
  obtain ⟨laterIndex, laterRest, laterAlloc, laterGrows, laterUsed⟩ := later.advances
  refine ⟨later.shaped, ⟨by omega, by omega, by omega, by omega, ?_⟩, fun page inNode inNode' => ?_⟩
  · have total := sets.total
    by_cases again : mid.nb = 0
    · rw [finished again]
      omega
    · have midEdge : edge level mid.index = 0 :=
        edge_aligned (sets.stop again ▸ Nat.mod_eq_zero_of_dvd (child_aligned aligned))
      omega
  · exact paintPages_turn aligned positive small low (by omega) (by omega) (by omega)
      (sets.pages page) (later.pages page inNode inNode') inNode inNode'

theorem LoopReady.start_eq (ready : LoopReady level base i entries state)
    (aligned : 512 * 512 ^ level ∣ base) (more : state.nb ≠ 0)
    (start : state.index % 512 ^ level = 0) : state.index = base + i * 512 ^ level := by
  obtain ⟨low, high⟩ := ready.here more
  have next_eq := @child_next level base i
  have inEntry := Nat.dvd_sub (Nat.dvd_of_mod_eq_zero start) (@child_aligned level base i aligned)
  have := Nat.eq_zero_of_dvd_of_lt inEntry (by omega)
  omega

theorem setsOne_leaf (assigned : leaf ≠ 0) (ready : LoopReady level base i entries state)
    (aligned : 512 * 512 ^ level ∣ base) (more : state.nb ≠ 0)
    (whole : state.index % 512 ^ level = 0 ∧ 512 ^ level ≤ state.nb) :
    SetsOne leaf level base i 0 (entries i) (.leaf leaf) state
      { state with index := state.index + 512 ^ level, nb := state.nb - 512 ^ level } := by
  have next_eq := @child_next level base i
  have start := ready.start_eq aligned more whole.1
  refine ⟨?_, ⟨?_, ?_, rfl, le_rfl, le_rfl⟩, fun _ => Nat.zero_le _, Nat.zero_le _,
    fun page after before => ?_⟩
  · cases level with
    | zero => exact ⟨leaf, rfl⟩
    | succ => exact assigned
  · dsimp only
    omega
  · dsimp only
    omega
  · rw [pageAt_leaf, paintPages, if_pos (by dsimp only; omega)]

theorem setsOne_below {lower : Nat} (callee : SetsEntry leaf (lower + 1) below)
    (ready : LoopReady (lower + 1) base i entries state)
    (aligned : 512 * 512 ^ (lower + 1) ∣ base) (small : i < 512) (more : state.nb ≠ 0)
    (part : ¬ (state.index % 512 ^ (lower + 1) = 0 ∧ 512 ^ (lower + 1) ≤ state.nb)) :
    ∃ entry mid nodes, below (entries i) state = some (entry, mid) ∧
      SetsOne leaf (lower + 1) base i nodes (entries i) entry state mid := by
  obtain ⟨low, high⟩ := ready.here more
  have next_eq := @child_next (lower + 1) base i
  have childEnd := @child_end_le (lower + 1) base i small
  have childAligned := @child_aligned (lower + 1) base i aligned
  have free : ∀ page, state.index ≤ page → page < state.index + state.nb →
      page < base + i * 512 ^ (lower + 1) + 512 ^ (lower + 1) →
      pageAt (lower + 1) (entries i) page = 0 := by
    intro page after before inChild
    have unset := ready.free page after before (by omega)
    rwa [digit_eq aligned small (by omega) (by omega)] at unset
  have lowerEdge : edge lower state.index ≤ lower := edge_le
  have room : state.count.Room (1 + edge lower state.index + lower) := by
    obtain ⟨allocRoom, nilRoom⟩ := ready.room
    by_cases start : state.index % 512 ^ (lower + 1) = 0
    · have := edge_aligned (aligned_below start)
      exact ⟨by omega, by omega⟩
    · rw [edge_inside start] at allocRoom nilRoom
      exact ⟨by omega, by omega⟩
  obtain ⟨entry, mid, called, shaped, advances, pages⟩ := callee (base + i * 512 ^ (lower + 1))
    (entries i) state childAligned (ready.shaped i) low (by omega) (by omega) free room
  have ⟨index, rest, alloc, grows, used⟩ := advances
  have midEdge : edge lower mid.index ≤ lower := edge_le
  refine ⟨entry, mid, 1 + edge lower state.index + edge lower mid.index, called, shaped,
    ⟨by omega, rest, alloc, grows, used⟩, fun again => ?_, ?_, fun page after before =>
    pages page after (by omega)⟩
  · -- the entry was set to its end, so it was not set from its start
    have atEnd : mid.index = base + i * 512 ^ (lower + 1) + 512 ^ (lower + 1) := by omega
    have endAligned : mid.index % 512 ^ (lower + 1) = 0 := by
      rw [atEnd, Nat.add_mod_right]
      exact Nat.mod_eq_zero_of_dvd childAligned
    have start : state.index % 512 ^ (lower + 1) ≠ 0 := fun start =>
      part ⟨start, by have := ready.start_eq aligned more start; omega⟩
    rw [edge_inside start, edge_aligned (aligned_below endAligned)]
    omega
  · by_cases start : state.index % 512 ^ (lower + 1) = 0
    · have short : state.nb < 512 ^ (lower + 1) := by
        by_contra long
        exact part ⟨start, by omega⟩
      have midInside : mid.index % 512 ^ (lower + 1) ≠ 0 := by
        have first := ready.start_eq aligned more start
        have last : mid.index = state.index + state.nb := by omega
        rw [last, Nat.add_mod, start, Nat.zero_add, Nat.mod_mod, Nat.mod_eq_of_lt short]
        exact more
      rw [edge_aligned (aligned_below start), edge_inside midInside]
      omega
    · have := @edge_succ lower mid.index
      rw [edge_inside start]
      omega

end Turn

theorem setEntries_ok (assigned : leaf ≠ 0) (aligned : 512 * 512 ^ level ∣ base)
    (callee : ∀ lower, level = lower + 1 → SetsEntry leaf (lower + 1) below) :
    ∀ {left i : Nat} {entries : Nat → PhysPageEntry} {state : SetState}, i + left = 512 →
      LoopReady level base i entries state →
      ∃ entries' next, setEntries below (512 ^ level) leaf left i entries state =
        some (entries', next) ∧ SetsNode leaf level base entries entries' state next
  | 0, i, entries, state, count, ready => by
    obtain rfl : i = 512 := by omega
    refine ⟨entries, state, rfl, .refl ready.shaped ready.inside ?_⟩
    by_cases done : state.nb = 0
    · exact .inl done
    · have low := (ready.here done).1
      have inside := ready.inside
      exact .inr (by omega)
  | left + 1, i, entries, state, count, ready => by
    have small : i < 512 := by omega
    -- whatever the turn set, the rest of the loop follows it
    have turn {entry : PhysPageEntry} {mid : SetState} {nodes : Nat} (more : state.nb ≠ 0)
        (sets : SetsOne leaf level base i nodes (entries i) entry state mid) :
        ∃ entries' next, setEntries below (512 ^ level) leaf left (i + 1)
          (setEntry entries i entry) mid = some (entries', next) ∧
            SetsNode leaf level base entries entries' state next := by
      by_cases again : mid.nb = 0
      · refine ⟨_, mid, setEntries_done again, ?_⟩
        refine sets.andThen ready aligned small more (fun _ => rfl)
          (.refl (sets.shapes ready) ?_ (.inl again))
        have := sets.advances.index
        have := @child_end_le level base i small
        omega
      · obtain ⟨entries', next, result, later⟩ :=
          @setEntries_ok assigned aligned callee left (i + 1) (setEntry entries i entry) mid
            (by omega) (ready.turn aligned small more sets again)
        exact ⟨entries', next, result, sets.andThen ready aligned small more
          (fun done => absurd done again) later⟩
    rw [setEntries]
    split
    next done => exact ⟨entries, state, rfl, .refl ready.shaped ready.inside (.inl done)⟩
    next more =>
      split
      next whole => exact turn more (setsOne_leaf assigned ready aligned more whole)
      next part =>
        cases level with
        | zero => exact absurd ⟨Nat.mod_one _, Nat.one_le_iff_ne_zero.mpr more⟩ part
        | succ lower =>
          obtain ⟨entry, mid, nodes, called, sets⟩ :=
            setsOne_below (callee lower rfl) ready aligned small more part
          rw [called]
          exact turn more sets

theorem openNode_ok {lp : PhysPageEntry} {page : Nat} {count : NodeCount}
    (shaped : Shaped (level + 1) lp) (unset : pageAt (level + 1) lp page = 0)
    (room : count.Room 1) :
    ∃ opened entries, openNode count level lp = some (opened, 1, entries) ∧
      (∀ j, Shaped level (entries j)) ∧ opened.alloc = count.alloc ∧ count.nb ≤ opened.nb ∧
      opened.nb ≤ count.nb + 1 ∧
      ∀ page, pageAt (level + 1) lp page = pageAt level (entries (page / 512 ^ level % 512))
        page := by
  cases lp with
  | nil =>
    obtain ⟨allocRoom, nilRoom⟩ := room
    have allocated : physMapNodeAlloc count = some { count with nb := count.nb + 1 } := by
      rw [physMapNodeAlloc, if_pos]
      simp only [ne_eq, decide_not, Bool.and_eq_true, Bool.not_eq_eq_eq_not, Bool.not_true,
        decide_eq_false_iff_not]
      exact ⟨by omega, by omega⟩
    refine ⟨{ count with nb := count.nb + 1 }, _, by rw [openNode, allocated]; rfl, fun j => ?_,
      rfl, Nat.le_succ _, le_rfl, fun page => ?_⟩
    · cases level with
      | zero => exact ⟨0, rfl⟩
      | succ => exact trivial
    · split <;> simp
  | leaf ptr => exact absurd (pageAt_leaf.symm.trans unset) shaped
  | node skip entries =>
    obtain ⟨rfl, below⟩ := shaped
    exact ⟨count, entries, rfl, below, rfl, le_rfl, Nat.le_succ _, fun _ => rfl⟩

theorem setNode_ok (assigned : leaf ≠ 0)
    (callee : ∀ lower, level = lower + 1 → SetsEntry leaf (lower + 1) below) :
    SetsEntry leaf (level + 1) (setNode below leaf level) := by
  intro base lp state aligned shaped low high more free room
  rw [Nat.add_sub_cancel] at room ⊢
  rw [Nat.pow_succ'] at aligned high free ⊢
  obtain ⟨allocRoom, nilRoom⟩ := room
  obtain ⟨opened, entries, openedNode, belowShaped, alloc, grows, used, pages⟩ :=
    openNode_ok shaped (free state.index le_rfl (by omega) high)
      (show state.count.Room 1 from ⟨by omega, by omega⟩)
  have positive : 0 < 512 ^ level := Nat.pow_pos (by decide)
  obtain ⟨i, small, lowI, highI⟩ := exists_digit positive low high
  have first := digit_eq aligned small lowI highI
  have ready : LoopReady level base i entries { state with count := opened } :=
    ⟨belowShaped, high.le, fun _ => ⟨lowI, highI⟩,
      fun page after before inNode => (pages page).symm.trans (free page after before inNode),
      ⟨by dsimp only; omega, by dsimp only; omega⟩⟩
  obtain ⟨entries', next, result, sets⟩ :=
    setEntries_ok assigned aligned callee (show i + (512 - i) = 512 by omega) ready
  refine ⟨.node 1 entries', next, ?_, ⟨rfl, sets.shaped⟩, ?_, fun page after before => ?_⟩
  · rw [setNode, openedNode]
    simp only [Option.bind_some, first, result, Option.map_some]
  · obtain ⟨index, rest, nextAlloc, nextGrows, nextUsed⟩ := sets.advances
    dsimp only at index rest nextAlloc nextGrows nextUsed
    exact ⟨index, rest, nextAlloc.trans alloc, grows.trans nextGrows, by omega⟩
  · rw [pageAt_node, sets.pages page after before]
    simp only [paintPages, pages]

end Loop

/-- A call sets the pages that are not assigned, on every level. -/
theorem physPageSetLevel_ok {leaf : Nat} (assigned : leaf ≠ 0) :
    ∀ level, SetsEntry leaf (level + 1) (physPageSetLevel leaf level)
  | 0 => setNode_ok assigned (fun lower impossible => absurd impossible (by omega))
  | level + 1 => setNode_ok assigned (fun lower same => by
    obtain rfl : lower = level := by omega
    exact physPageSetLevel_ok assigned lower)

/-- The pages that a dispatch tree covers. -/
def physPages : Nat := 512 ^ pL2Levels

theorem physPageSet_ok {count : NodeCount} {physMap : PhysPageEntry} {index nb leaf : Nat}
    (assigned : leaf ≠ 0) (shaped : Shaped pL2Levels physMap) (more : 0 < nb)
    (inside : index + nb ≤ physPages)
    (free : ∀ page, index ≤ page → page < index + nb → pageAt pL2Levels physMap page = 0)
    (room : count.nb + 11 ≤ physMapNodeNil) :
    ∃ count' physMap', physPageSet count physMap index nb leaf = some (count', physMap') ∧
      Shaped pL2Levels physMap' ∧ count'.nb ≤ count.nb + 11 ∧
      ∀ page, page < physPages → pageAt pL2Levels physMap' page =
        paintPages index (index + nb) leaf (pageAt pL2Levels physMap) page := by
  have edgeLe : ∀ page, edge (pL2Levels - 1) page ≤ 5 := fun page => edge_le
  have reserved : (physMapNodeReserve count (3 * pL2Levels)).nb = count.nb ∧
      count.nb + 18 ≤ (physMapNodeReserve count (3 * pL2Levels)).alloc := by
    rw [physMapNodeReserve]
    split
    · exact ⟨rfl, by simp only [pL2Levels]; omega⟩
    · exact ⟨rfl, by simp only [pL2Levels] at *; omega⟩
  have sets : SetsEntry leaf pL2Levels (physPageSetLevel leaf (pL2Levels - 1)) :=
    physPageSetLevel_ok assigned 5
  have levels : pL2Levels - 1 = 5 := rfl
  have room' : (physMapNodeReserve count (3 * pL2Levels)).Room
      (1 + edge (pL2Levels - 1) index + (pL2Levels - 1)) := by
    have := edgeLe index
    exact ⟨by omega, by omega⟩
  obtain ⟨entry, next, result, shaped', advances, pages⟩ := sets 0 physMap
    ⟨physMapNodeReserve count (3 * pL2Levels), index, nb⟩ (Nat.dvd_zero _) shaped (Nat.zero_le _)
    (by rw [physPages] at inside; dsimp only; omega) more
    (fun page after before _ => free page after before) room'
  have atEnd : next.index = index + nb := by
    rw [advances.index, Nat.zero_add]
    exact Nat.min_eq_left inside
  refine ⟨next.count, entry, by rw [physPageSet, result]; rfl, shaped', ?_, fun page before => ?_⟩
  · have := edgeLe index
    have := edgeLe next.index
    have used := advances.used
    dsimp only at used
    omega
  · rw [← atEnd]
    exact pages page (Nat.zero_le _) (by rwa [Nat.zero_add])

end VhostUser.Qemu
