import VhostUser.Qemu.Topology

/-!
Contract: the flat view that `generate_memory_topology` makes shows at every
address what the visibility rules of `docs/memory.txt` select.

`Search` states the rules. The proof goes through `renderOrder`, the parts of
regions that rendering reaches: rendering paints them one after the other into
what is still free, so an address shows the first part that contains it.

Owns: the visibility rules, which trees the renderer finishes on, and that what
it makes of them agrees with the rules.
-/

namespace VhostUser.Qemu

open VhostUser.Lib
open AddrRange
open FlatView

/-! ### The rules -/

structure Hit where
  mr : Nat
  offset : Int
  readonly : Bool
deriving DecidableEq, Repr

def FlatRange.hitAt (fr : FlatRange) (addr : Int) : Hit :=
  ⟨fr.mr, fr.offsetInRegion.toNat + (addr - fr.addr.start), fr.readonly⟩

def FlatView.hitAt (view : FlatView) (addr : Int) : Option Hit :=
  (view.find? fun fr => fr.addr.contains addr).map fun fr => fr.hitAt addr

/-- The subregions in descending priority; those of one priority as they are linked, the last one
first. -/
def priorityOrder (regions : Regions) (mr : Nat) : List Nat :=
  (regions mr).subregions.mergeSort fun left right =>
    (regions right).priority ≤ (regions left).priority

/-- The region itself, if it is backed by RAM or MMIO. -/
def MemoryRegion.own (region : MemoryRegion) (mr : Nat) (offset : Int) (readonly : Bool) :
    Option Hit :=
  if region.terminates then some ⟨mr, offset, readonly⟩ else none

/-- An address, given relative to the container of the region, is in the region. -/
def Inside (regions : Regions) (mr : Nat) (addr : Int) : Prop :=
  0 ≤ addr - (regions mr).addr.toNat ∧ addr - (regions mr).addr.toNat < (regions mr).size

/-- The search of `docs/memory.txt` for an address, relative to the container of the region. -/
inductive Search (regions : Regions) : Nat → Int → Bool → Option Hit → Prop where
  | discarded {mr : Nat} {addr : Int} {readonly : Bool}
      (outside : (regions mr).enabled = true → ¬ Inside regions mr addr) :
      Search regions mr addr readonly none
  | redirected {mr target : Nat} {addr : Int} {readonly : Bool} {found : Option Hit}
      (enabled : (regions mr).enabled = true)
      (inside : Inside regions mr addr)
      (isAlias : (regions mr).aliasOf = some target)
      (continued : Search regions target
        (addr - (regions mr).addr.toNat + (regions mr).aliasOffset.toNat +
          (regions target).addr.toNat)
        (readonly || (regions mr).readonly) found) :
      Search regions mr addr readonly found
  | descended {mr : Nat} {addr : Int} {readonly : Bool} (found : Nat → Option Hit)
      (enabled : (regions mr).enabled = true)
      (inside : Inside regions mr addr)
      (noAlias : (regions mr).aliasOf = none)
      (below : ∀ subregion ∈ (regions mr).subregions,
        Search regions subregion (addr - (regions mr).addr.toNat)
          (readonly || (regions mr).readonly) (found subregion)) :
      Search regions mr addr readonly
        (((priorityOrder regions mr).findSome? found).or
          ((regions mr).own mr (addr - (regions mr).addr.toNat)
            (readonly || (regions mr).readonly)))

structure ShowsVisible (regions : Regions) (root : Nat) (view : FlatView) : Prop where
  ordered : OrderedFrom 0 view
  shown : ∀ (addr : Int) (found : Option Hit), 0 ≤ addr → addr < 2 ^ 64 →
    (view.hitAt addr = found ↔ Search regions root addr false found)

/-! ### The trees -/

/-- The regions that rendering goes on to from a region. -/
def MemoryRegion.below (region : MemoryRegion) : List Nat :=
  match region.aliasOf with
  | some target => [target]
  | none => region.subregions

/-- The tree under a region, aliases followed, is finite: no path in it has more
than `levels` regions. -/
def Levels (regions : Regions) : Nat → Nat → Prop
  | 0, _ => False
  | levels + 1, mr => ∀ subregion ∈ (regions mr).below, Levels regions levels subregion

/-- Every list of subregions is in descending priority. -/
def Prioritised (regions : Regions) : Prop :=
  ∀ mr, (regions mr).subregions.Pairwise fun left right =>
    (regions right).priority ≤ (regions left).priority

/-- A part of a terminating region that rendering reaches: its place and what its ancestors leave of
it. -/
structure Paint where
  mr : Nat
  base : Int
  clip : AddrRange
  readonly : Bool
deriving DecidableEq, Repr

/-- The place of a region and its part inside `clip`, unless it is skipped. -/
def visit (regions : Regions) (mr : Nat) (base : Int) (clip : AddrRange) :
    Option (Int × AddrRange) :=
  let region := regions mr
  let tmp : AddrRange := ⟨base + region.addr.toNat, region.size⟩
  if region.enabled && tmp.intersects clip then some (tmp.start, tmp.intersection clip) else none

def renderOrder (regions : Regions) : Nat → Nat → Int → AddrRange → Bool → List Paint
  | 0, _, _, _, _ => []
  | fuel + 1, mr, base, clip, readonly =>
    match visit regions mr base clip with
    | none => []
    | some (base, clip) =>
      let region := regions mr
      let readonly := readonly || region.readonly
      match region.aliasOf with
      | some target =>
        renderOrder regions fuel target
          (base - (regions target).addr.toNat - region.aliasOffset.toNat) clip readonly
      | none =>
        (region.subregions.flatMap fun subregion =>
          renderOrder regions fuel subregion base clip readonly) ++
          if region.terminates then [⟨mr, base, clip, readonly⟩] else []

def wholeSpace : AddrRange := ⟨0, 2 ^ 64⟩

/-- The first part that is not empty takes the whole space, and a later one
would take it again. -/
def FillsTwice (parts : List Paint) : Prop :=
  let shown := parts.filter fun part => 0 < part.clip.size
  (∃ first ∈ shown.head?, first.clip = wholeSpace) ∧ ∃ again ∈ shown.tail, again.clip = wholeSpace

instance (parts : List Paint) : Decidable (FillsTwice parts) :=
  inferInstanceAs (Decidable (_ ∧ _))

section Shows

variable {view rest : FlatView} {fr : FlatRange} {lower addr : Int}

theorem FlatView.hitAt_cons (fr : FlatRange) (view : FlatView) (addr : Int) :
    hitAt (fr :: view) addr =
      if fr.addr.contains addr then some (fr.hitAt addr) else view.hitAt addr := by
  split <;> simp_all [hitAt]

theorem OrderedFrom.hitAt_below (ordered : OrderedFrom lower view) (below : addr < lower) :
    view.hitAt addr = none := by
  rw [hitAt, Option.map_eq_none_iff, List.find?_eq_none]
  intro fr member
  have := (ordered.bounds fr member).1
  rw [contains_iff]
  omega

def Cursor.hitAt (fr : FlatRange) (cursor : Cursor) (addr : Int) : Option Hit :=
  if cursor.base ≤ addr ∧ addr < cursor.base + cursor.remain then
    some ⟨fr.mr, cursor.offset.toNat + (addr - cursor.base), fr.readonly⟩
  else none

namespace Cursor

variable {cursor next : Cursor} {stop now : Int} {size : Nat} {range : FlatRange}

theorem hitAt_done (nothing : cursor.remain = 0) : cursor.hitAt fr addr = none := by
  rw [hitAt, if_neg (by omega)]

theorem Within.advance_hitAt (within : cursor.Within stop size) (size_le : size ≤ 2 ^ 64)
    (nonneg : 0 ≤ now) (result : cursor.advance now = some next)
    (behind : addr < cursor.base ∨ cursor.base + now ≤ addr) :
    next.hitAt fr addr = cursor.hitAt fr addr := by
  obtain ⟨word, word_eq, rfl⟩ := Option.map_eq_some_iff.mp result
  have value := int128Get64_some word_eq
  simp only [hitAt, UInt64.toNat_add]
  by_cases shown : cursor.base ≤ addr ∧ addr < cursor.base + cursor.remain
  · have room := within.room (by omega)
    rw [if_pos (by omega), if_pos shown]
    congr 2
    omega
  · rw [if_neg (by omega), if_neg shown]

theorem Within.skip_hitAt (within : cursor.Within stop size) (size_le : size ≤ 2 ^ 64)
    (result : cursor.skip range = some next)
    (reached : cursor.remain = 0 ∨ range.addr.start ≤ cursor.base)
    (ahead : cursor.base ≤ range.addr.last)
    (outside : range.addr.contains addr = false) :
    next.hitAt fr addr = cursor.hitAt fr addr := by
  have remaining := within.remain
  rw [Bool.eq_false_iff, ne_eq, contains_iff] at outside
  simp only [AddrRange.last] at ahead
  by_cases behind : addr < cursor.base ∨
      cursor.base + (min (cursor.base + cursor.remain) range.addr.last - cursor.base) ≤ addr
  · exact within.advance_hitAt size_le (by simp only [AddrRange.last]; omega) result behind
  · simp only [AddrRange.last] at behind
    omega

theorem piece_hitAt (shown : (cursor.piece fr now).addr.contains addr = true)
    (fits : now ≤ cursor.remain) :
    cursor.hitAt fr addr = some ((cursor.piece fr now).hitAt addr) := by
  simp only [contains_iff, piece] at shown
  rw [hitAt, if_pos (by omega)]
  rfl

end Cursor

/-- Filling the gaps shows the new range wherever nothing was shown. -/
theorem fillGaps_hitAt {stop : Int} {size : Nat} (size_le : size ≤ 2 ^ 64) :
    ∀ {view out : FlatView} {lower : Int} {cursor : Cursor}, OrderedFrom lower view →
      cursor.Within stop size → fillGaps fr view cursor = some out →
      out.hitAt addr = (view.hitAt addr).or (cursor.hitAt fr addr)
  | [], out, lower, cursor, _, within, result => by
    simp only [fillGaps, Option.some.injEq] at result
    subst result
    split
    next nothing => simp [hitAt, Cursor.hitAt_done nothing]
    next left =>
      rw [hitAt_cons]
      split
      next shown => simp [hitAt, Cursor.piece_hitAt shown le_rfl]
      next outside =>
        simp only [Cursor.piece, contains_iff] at outside
        simp [hitAt, Cursor.hitAt, outside]
  | range :: rest, out, lower, cursor, ordered, within, result => by
    obtain ⟨low, nonempty, tail⟩ := ordered
    have remaining := within.remain
    rw [fillGaps] at result
    split at result
    next nothing =>
      cases result
      rw [Cursor.hitAt_done nothing, Option.or_none]
    split at result
    next passed =>
      obtain ⟨out, outResult, rfl⟩ := Option.map_eq_some_iff.mp result
      rw [hitAt_cons, hitAt_cons, fillGaps_hitAt size_le tail within outResult]
      split <;> simp
    next ahead =>
    split at result
    next gap =>
      obtain ⟨inside, advanced, result⟩ := Option.bind_eq_some_iff.mp result
      obtain ⟨behind, skipped, result⟩ := Option.bind_eq_some_iff.mp result
      obtain ⟨out, outResult, rfl⟩ := Option.map_eq_some_iff.mp result
      have insideWithin := within.advance size_le (by omega) advanced
      have later := fillGaps_hitAt size_le tail (insideWithin.skip size_le skipped) outResult
      have insideBase := Cursor.advance_base advanced
      have insideRemain := Cursor.advance_remain advanced
      rw [hitAt_cons, hitAt_cons, hitAt_cons, later]
      split
      next shown =>
        have inPiece := shown
        simp only [contains_iff, Cursor.piece] at inPiece
        have notInRange : range.addr.contains addr = false := by
          rw [Bool.eq_false_iff, ne_eq, contains_iff]
          omega
        have nothingLater : hitAt rest addr = none :=
          tail.hitAt_below (by simp only [AddrRange.last]; omega)
        rw [notInRange, nothingLater, Cursor.piece_hitAt shown (by omega)]
        rfl
      next outside =>
        simp only [contains_iff, Cursor.piece] at outside
        split
        · simp
        next notInRange =>
          rw [insideWithin.skip_hitAt size_le skipped (by omega)
              (by rw [insideBase]; simp only [AddrRange.last] at *; omega)
              (by simpa using notInRange),
            within.advance_hitAt size_le (by omega) advanced (by omega)]
    next noGap =>
      obtain ⟨behind, skipped, result⟩ := Option.bind_eq_some_iff.mp result
      obtain ⟨out, outResult, rfl⟩ := Option.map_eq_some_iff.mp result
      have later := fillGaps_hitAt size_le tail (within.skip size_le skipped) outResult
      rw [hitAt_cons, hitAt_cons, later]
      split
      · simp
      next notInRange =>
        rw [within.skip_hitAt size_le skipped (by omega) (by omega) (by simpa using notInRange)]

end Shows

/-! ### Painting -/

def paint (regions : Regions) (view : FlatView) (part : Paint) : Option FlatView :=
  (int128Get64 (part.clip.start - part.base)).bind fun offset =>
    fillGaps ⟨part.mr, 0, part.clip, (regions part.mr).dirtyLogMask, (regions part.mr).romdMode,
      part.readonly⟩ view ⟨offset, part.clip.start, part.clip.size⟩

def Paint.hitAt (part : Paint) (addr : Int) : Option Hit :=
  if part.clip.contains addr then some ⟨part.mr, addr - part.base, part.readonly⟩ else none

structure Paint.Sound (regions : Regions) (part : Paint) : Prop where
  space : part.clip.InSpace
  low : part.base ≤ part.clip.start
  offset : part.clip.start - part.base < 2 ^ 64
  high : part.clip.last ≤ part.base + (regions part.mr).size

section Render

variable {regions : Regions} {fuel mr : Nat} {base : Int} {clip : AddrRange} {readonly : Bool}
  {view out : FlatView} {part : Paint} {parts : List Paint} {addr : Int}

theorem renderMemoryRegion_visit :
    renderMemoryRegion regions (fuel + 1) view mr base clip readonly =
    match visit regions mr base clip with
    | none => some view
    | some (base, clip) =>
      match (regions mr).aliasOf with
      | some target =>
        renderMemoryRegion regions fuel view target
          (base - (regions target).addr.toNat - (regions mr).aliasOffset.toNat) clip
          (readonly || (regions mr).readonly)
      | none =>
        ((regions mr).subregions.foldlM (fun view subregion =>
          renderMemoryRegion regions fuel view subregion base clip
            (readonly || (regions mr).readonly)) view).bind fun view =>
          if (regions mr).terminates then
            paint regions view ⟨mr, base, clip, readonly || (regions mr).readonly⟩
          else some view := by
  rw [renderMemoryRegion, visit]
  cases (regions mr).enabled with
  | false => rfl
  | true =>
    simp only [Bool.not_true, Bool.false_eq_true, if_false, Bool.true_and]
    cases (⟨base + (regions mr).addr.toNat, (regions mr).size⟩ : AddrRange).intersects clip with
    | false => rfl
    | true =>
      cases (regions mr).aliasOf with
      | some target => rfl
      | none =>
        cases (regions mr).terminates <;> rfl

theorem Levels.target {target : Nat} (levels : Levels regions (fuel + 1) mr)
    (isAlias : (regions mr).aliasOf = some target) : Levels regions fuel target :=
  levels target (by simp [MemoryRegion.below, isAlias])

theorem Levels.subregions (levels : Levels regions (fuel + 1) mr)
    (noAlias : (regions mr).aliasOf = none) :
    ∀ subregion ∈ (regions mr).subregions, Levels regions fuel subregion :=
  fun subregion member => levels subregion (by simpa [MemoryRegion.below, noAlias] using member)

theorem Levels.mono {more : Nat} (levels : Levels regions fuel mr) (le : fuel ≤ more) :
    Levels regions more mr := by
  induction fuel generalizing more mr with
  | zero => exact levels.elim
  | succ fuel ih =>
    obtain ⟨more, rfl⟩ := Nat.exists_eq_add_of_lt le
    exact fun subregion member => ih (levels subregion member) (by omega)

/-- On a finite tree, rendering is painting what it reaches. -/
theorem renderMemoryRegion_eq_paint : ∀ {fuel mr : Nat} {base : Int} {clip : AddrRange}
    {readonly : Bool} {view : FlatView}, Levels regions fuel mr →
    renderMemoryRegion regions fuel view mr base clip readonly =
      (renderOrder regions fuel mr base clip readonly).foldlM (paint regions) view
  | fuel + 1, mr, base, clip, readonly, view, levels => by
    rw [renderMemoryRegion_visit, renderOrder]
    cases visit regions mr base clip with
    | none => rfl
    | some place =>
      obtain ⟨base, clip⟩ := place
      dsimp only
      cases isAlias : (regions mr).aliasOf with
      | some target => exact renderMemoryRegion_eq_paint (levels.target isAlias)
      | none =>
        have each : ∀ subregion ∈ (regions mr).subregions, ∀ view,
            renderMemoryRegion regions fuel view subregion base clip
              (readonly || (regions mr).readonly) = _ := fun subregion member view =>
          renderMemoryRegion_eq_paint (levels.subregions isAlias subregion member)
        dsimp only
        rw [List.foldlM_append, foldlM_flatMap each]
        congr 1
        funext view
        split
        · simp
        · rfl

theorem visit_some {place : Int × AddrRange} (space : clip.InSpace)
    (visited : visit regions mr base clip = some place) :
    place.1 = base + (regions mr).addr.toNat ∧ place.2.InSpace ∧ place.1 ≤ place.2.start ∧
      place.2.start - place.1 < 2 ^ 64 ∧ place.2.last ≤ place.1 + (regions mr).size := by
  rw [visit] at visited
  split at visited
  next reached =>
    cases visited
    have meets := (Bool.and_eq_true_iff.mp reached).2
    have inSpace := space.intersection meets
    have size_le := (regions mr).size_le
    simp only [intersects, contains_iff, Bool.or_eq_true] at meets
    refine ⟨rfl, inSpace, ?_, ?_, ?_⟩ <;>
      simp only [intersection, AddrRange.last] <;> omega
  · cases visited

theorem renderOrder_sound : ∀ {fuel mr : Nat} {base : Int} {clip : AddrRange} {readonly : Bool},
    clip.InSpace → ∀ part ∈ renderOrder regions fuel mr base clip readonly, part.Sound regions
  | fuel + 1, mr, base, clip, readonly, space, part, member => by
    rw [renderOrder] at member
    split at member
    · cases member
    next base clip visited =>
      obtain ⟨-, inSpace, low, offset, high⟩ := visit_some space visited
      dsimp only at member
      split at member
      · exact renderOrder_sound inSpace part member
      rcases List.mem_append.mp member with below | own
      · obtain ⟨subregion, -, below⟩ := List.mem_flatMap.mp below
        exact renderOrder_sound inSpace part below
      split at own
      · obtain rfl := List.mem_singleton.mp own
        exact ⟨inSpace, low, offset, high⟩
      · cases own

theorem int128Get64_eq_some {value : Int} (nonneg : 0 ≤ value) (small : value < 2 ^ 64) :
    ∃ word, int128Get64 value = some word ∧ (word.toNat : Int) = value := by
  refine ⟨.ofNat value.toNat, if_pos ⟨nonneg, small⟩, ?_⟩
  exact int128Get64_some (if_pos ⟨nonneg, small⟩)

theorem Paint.Sound.within (sound : part.Sound regions) {offset : UInt64}
    (offset_eq : (offset.toNat : Int) = part.clip.start - part.base) :
    (⟨offset, part.clip.start, part.clip.size⟩ : Cursor).Within part.clip.last
      (regions part.mr).size := by
  refine ⟨sound.space.size, rfl, fun _ => ?_⟩
  have := sound.high
  simp only [AddrRange.last] at this ⊢
  omega

theorem paint_shows (rendered : Rendered regions view) (sound : part.Sound regions)
    (result : paint regions view part = some out) :
    Rendered regions out ∧ ∀ addr, out.hitAt addr = (view.hitAt addr).or (part.hitAt addr) := by
  obtain ⟨offset, offset_eq, result⟩ := Option.bind_eq_some_iff.mp result
  have value := int128Get64_some offset_eq
  refine ⟨rendered.fill sound.space offset_eq sound.high result, fun addr => ?_⟩
  rw [fillGaps_hitAt (regions part.mr).size_le rendered.ordered (sound.within value) result,
    Cursor.hitAt, Paint.hitAt]
  simp only [contains_iff, value]
  simp

theorem foldlM_paint_shows : ∀ {parts : List Paint} {view : FlatView},
    Rendered regions view → (∀ part ∈ parts, part.Sound regions) →
    parts.foldlM (paint regions) view = some out →
    Rendered regions out ∧ ∀ addr, out.hitAt addr =
      (view.hitAt addr).or (parts.findSome? fun part => part.hitAt addr)
  | [], view, rendered, _, result => by
    cases result
    exact ⟨rendered, fun addr => by simp⟩
  | part :: rest, view, rendered, sound, result => by
    rw [List.foldlM_cons] at result
    obtain ⟨painted, first, later⟩ := Option.bind_eq_some_iff.mp result
    obtain ⟨partSound, restSound⟩ := List.forall_mem_cons.mp sound
    obtain ⟨paintedRendered, paintedShows⟩ := paint_shows rendered partSound first
    obtain ⟨outRendered, outShows⟩ := foldlM_paint_shows paintedRendered restSound later
    refine ⟨outRendered, fun addr => ?_⟩
    rw [outShows, paintedShows, List.findSome?_cons, Option.or_assoc]
    cases part.hitAt addr <;> simp

/-! ### The search -/

theorem findSome?_flatMap {ι α β : Type} {items : List ι} {parts : ι → List α}
    {find : α → Option β} {found : ι → Option β}
    (each : ∀ item ∈ items, (parts item).findSome? find = found item) :
    (items.flatMap parts).findSome? find = items.findSome? found := by
  induction items with
  | nil => rfl
  | cons item rest ih =>
    obtain ⟨first, later⟩ := List.forall_mem_cons.mp each
    rw [List.flatMap_cons, List.findSome?_append, List.findSome?_cons, first, ih later]
    cases found item <;> rfl

theorem Prioritised.order (sorted : Prioritised regions) (mr : Nat) :
    priorityOrder regions mr = (regions mr).subregions := by
  refine List.mergeSort_of_pairwise ((sorted mr).imp fun below => ?_)
  exact decide_eq_true below

theorem AddrRange.intersection_contains {left right : AddrRange} :
    (left.intersection right).contains addr = true ↔
      left.contains addr = true ∧ right.contains addr = true := by
  simp only [contains_iff, intersection, AddrRange.last]
  omega

theorem AddrRange.intersects_of_contains {left right : AddrRange}
    (inLeft : left.contains addr = true) (inRight : right.contains addr = true) :
    left.intersects right = true := by
  rw [contains_iff] at inLeft inRight
  rw [intersects, Bool.or_eq_true, contains_iff, contains_iff]
  omega

theorem inside_iff : Inside regions mr (addr - base) ↔
    (⟨base + (regions mr).addr.toNat, (regions mr).size⟩ : AddrRange).contains addr = true := by
  rw [Inside, contains_iff]
  dsimp only
  omega

theorem visit_inside (enabled : (regions mr).enabled = true)
    (inside : Inside regions mr (addr - base)) (inClip : clip.contains addr = true) :
    ∃ part, visit regions mr base clip = some (base + (regions mr).addr.toNat, part) ∧
      part.contains addr = true := by
  have inRegion := inside_iff.mp inside
  refine ⟨_, ?_, intersection_contains.mpr ⟨inRegion, inClip⟩⟩
  rw [visit]
  rw [enabled, intersects_of_contains inRegion inClip]
  rfl

theorem visit_contains {place : Int × AddrRange}
    (visited : visit regions mr base clip = some place) (inPart : place.2.contains addr = true) :
    (regions mr).enabled = true ∧ clip.contains addr = true ∧ Inside regions mr (addr - base) := by
  rw [visit] at visited
  split at visited
  next reached =>
    cases visited
    obtain ⟨inRegion, inClip⟩ := intersection_contains.mp inPart
    exact ⟨(Bool.and_eq_true_iff.mp reached).1, inClip, inside_iff.mpr inRegion⟩
  · cases visited

theorem renderOrder_clip : ∀ {fuel mr : Nat} {base : Int} {clip : AddrRange} {readonly : Bool},
    ∀ part ∈ renderOrder regions fuel mr base clip readonly,
      part.clip.contains addr = true →
        ∃ place, visit regions mr base clip = some place ∧ place.2.contains addr = true
  | fuel + 1, mr, base, clip, readonly, part, member, inPart => by
    rw [renderOrder] at member
    split at member
    · cases member
    next base clip visited =>
      refine ⟨_, visited, ?_⟩
      dsimp only at member
      split at member
      · obtain ⟨place, visited, inPlace⟩ := renderOrder_clip part member inPart
        exact (visit_contains visited inPlace).2.1
      rcases List.mem_append.mp member with below | own
      · obtain ⟨subregion, -, below⟩ := List.mem_flatMap.mp below
        obtain ⟨place, visited, inPlace⟩ := renderOrder_clip part below inPart
        exact (visit_contains visited inPlace).2.1
      · split at own
        · obtain rfl := List.mem_singleton.mp own
          exact inPart
        · cases own

/-- The first reached part that contains an address is what the search finds. -/
theorem renderOrder_search (sorted : Prioritised regions) : ∀ {fuel mr : Nat} {base : Int}
    {clip : AddrRange} {readonly : Bool} {found : Option Hit}, Levels regions fuel mr →
    clip.contains addr = true → Search regions mr (addr - base) readonly found →
    (renderOrder regions fuel mr base clip readonly).findSome? (fun part => part.hitAt addr) = found
  | fuel + 1, mr, base, clip, readonly, found, levels, inClip, search => by
    cases search with
    | discarded outside =>
      rw [List.findSome?_eq_none_iff]
      intro part member
      rw [Paint.hitAt]
      split
      next inPart =>
        obtain ⟨place, visited, inPlace⟩ := renderOrder_clip part member inPart
        obtain ⟨enabled, -, inside⟩ := visit_contains visited inPlace
        exact absurd inside (outside enabled)
      · rfl
    | redirected enabled inside isAlias continued =>
      obtain ⟨part, visited, inPart⟩ := visit_inside enabled inside inClip
      rw [renderOrder, visited]
      dsimp only
      rw [isAlias]
      refine renderOrder_search sorted (levels.target isAlias) inPart ?_
      convert continued using 1
      omega
    | descended found enabled inside noAlias below =>
      obtain ⟨part, visited, inPart⟩ := visit_inside enabled inside inClip
      have rebase : addr - (base + (regions mr).addr.toNat) =
          addr - base - (regions mr).addr.toNat := by omega
      rw [renderOrder, visited]
      dsimp only
      rw [noAlias]
      dsimp only
      rw [List.findSome?_append, sorted.order]
      congr 1
      · refine findSome?_flatMap fun subregion member => ?_
        refine renderOrder_search sorted (levels.subregions noAlias subregion member) inPart ?_
        rw [rebase]
        exact below subregion member
      · rw [MemoryRegion.own]
        split
        · simp [Paint.hitAt, inPart, rebase]
        · rfl

theorem Search.total : ∀ {levels mr : Nat} (addr : Int) (readonly : Bool),
    Levels regions levels mr →
    ∃ found, Search regions mr addr readonly found
  | levels + 1, mr, addr, readonly, finite => by
    by_cases reached : (regions mr).enabled = true ∧ Inside regions mr addr
    · obtain ⟨enabled, inside⟩ := reached
      cases isAlias : (regions mr).aliasOf with
      | some target =>
        obtain ⟨found, continued⟩ := Search.total _ _ (finite.target isAlias)
        exact ⟨found, .redirected enabled inside isAlias continued⟩
      | none =>
        have below := fun subregion member => Search.total
          (addr - (regions mr).addr.toNat) (readonly || (regions mr).readonly)
          (finite.subregions isAlias subregion member)
        choose! found below using below
        exact ⟨_, .descended found enabled inside isAlias below⟩
    · exact ⟨none, .discarded fun enabled inside => reached ⟨enabled, inside⟩⟩

/-! ### Merging -/

theorem simplifyFrom_hitAt : ∀ {view : FlatView} {acc prev : FlatRange}, Grown acc prev →
    acc.readonly = prev.readonly → 0 < acc.addr.size → OrderedFrom prev.addr.last view →
    (simplifyFrom acc prev view).hitAt addr = hitAt (acc :: view) addr
  | [], _, _, _, _, _, _ => rfl
  | next :: rest, acc, prev, grown, readonly, nonempty, ordered => by
    obtain ⟨above, nextNonempty, tail⟩ := ordered
    rw [simplifyFrom]
    split
    next mergeable =>
      have merged := grown.merge mergeable
      obtain ⟨mr, -, last, offset⟩ := grown
      simp only [canMerge, Bool.and_eq_true, decide_eq_true_eq] at mergeable
      obtain ⟨⟨⟨⟨⟨adjacent, sameMr⟩, continues⟩, -⟩, -⟩, sameReadonly⟩ := mergeable
      rw [simplifyFrom_hitAt merged (readonly.trans sameReadonly) (by simp only; omega) tail]
      simp only [hitAt_cons, contains_iff]
      simp only [AddrRange.last] at last adjacent
      by_cases inAcc : acc.addr.start ≤ addr ∧ addr < acc.addr.start + acc.addr.size
      · rw [if_pos inAcc, if_pos (by omega)]
        rfl
      rw [if_neg inAcc]
      by_cases inNext : next.addr.start ≤ addr ∧ addr < next.addr.start + next.addr.size
      · rw [if_pos inNext, if_pos (by omega)]
        simp only [FlatRange.hitAt, mr.trans sameMr, readonly.trans sameReadonly]
        congr 2
        omega
      · rw [if_neg inNext, if_neg (by omega)]
    · rw [hitAt_cons, hitAt_cons, simplifyFrom_hitAt .refl rfl nextNonempty tail]

theorem flatviewSimplify_hitAt (ordered : OrderedFrom 0 view) :
    (flatviewSimplify view).hitAt addr = view.hitAt addr := by
  cases view with
  | nil => rfl
  | cons fr rest => exact simplifyFrom_hitAt .refl rfl ordered.2.1 ordered.2.2

theorem wholeSpace_inSpace : wholeSpace.InSpace := .whole

theorem wholeSpace_contains (low : 0 ≤ addr) (high : addr < 2 ^ 64) :
    wholeSpace.contains addr = true :=
  contains_iff.mpr ⟨low, by simpa [wholeSpace] using high⟩

/-- If rendering a finite tree ends without a failed assertion, the view shows
what the search finds. -/
theorem generateMemoryTopology_shows {root : Nat} (sorted : Prioritised regions)
    (finite : Levels regions fuel root)
    (result : generateMemoryTopology regions fuel (some root) = some view) :
    ShowsVisible regions root view := by
  refine ⟨(generateMemoryTopology_rendered result).ordered, fun addr found low high => ?_⟩
  obtain ⟨raw, rawResult, rfl⟩ := Option.map_eq_some_iff.mp result
  have empty : Rendered regions [] := ⟨trivial, by simp, by simp⟩
  rw [renderMemoryRegion_eq_paint finite] at rawResult
  obtain ⟨rendered, shows⟩ :=
    foldlM_paint_shows empty (renderOrder_sound wholeSpace_inSpace) rawResult
  have searched {found : Option Hit} (search : Search regions root addr false found) :
      (flatviewSimplify raw).hitAt addr = found := by
    rw [flatviewSimplify_hitAt rendered.ordered, shows]
    refine renderOrder_search sorted finite (wholeSpace_contains low high) ?_
    rwa [Int.sub_zero]
  constructor
  · rintro rfl
    obtain ⟨found, search⟩ := Search.total addr false finite
    rwa [searched search]
  · exact searched

/-! ### Where the assertions hold -/

structure Cursor.InSpace (cursor : Cursor) : Prop where
  base : 0 ≤ cursor.base
  remain : 0 ≤ cursor.remain
  stop : cursor.base + cursor.remain ≤ 2 ^ 64

theorem Cursor.InSpace.advance {cursor : Cursor} {now : Int} (space : cursor.InSpace)
    (nonneg : 0 ≤ now) (fits : now ≤ cursor.remain) (small : now < 2 ^ 64) :
    ∃ next, cursor.advance now = some next ∧ next.InSpace ∧ next.base = cursor.base + now ∧
      next.remain = cursor.remain - now := by
  obtain ⟨base, remain, stop⟩ := space
  obtain ⟨word, word_eq, -⟩ := int128Get64_eq_some nonneg small
  refine ⟨_, Option.map_eq_some_iff.mpr ⟨word, word_eq, rfl⟩, ⟨?_, ?_, ?_⟩, rfl, rfl⟩ <;>
    dsimp only <;> omega

theorem Cursor.InSpace.skip {cursor : Cursor} {range : FlatRange} (space : cursor.InSpace)
    (ahead : cursor.base ≤ range.addr.last)
    (short : cursor.remain < 2 ^ 64 ∨ range.addr.last < 2 ^ 64) :
    ∃ next, cursor.skip range = some next ∧ next.InSpace ∧
      (0 < next.remain → next.base = range.addr.last) := by
  have base := space.base
  have remain := space.remain
  obtain ⟨next, skipped, nextSpace, nextBase, nextRemain⟩ := space.advance
    (show 0 ≤ min (cursor.base + cursor.remain) range.addr.last - cursor.base by omega)
    (by omega) (by omega)
  exact ⟨next, skipped, nextSpace, by omega⟩

/-- The assertions hold unless a range that takes the whole space is passed in one
go. -/
theorem fillGaps_defined {fr : FlatRange} : ∀ {view : FlatView} {lower : Int} {cursor : Cursor},
    0 ≤ lower → OrderedFrom lower view → (∀ range ∈ view, range.addr.last ≤ 2 ^ 64) →
    cursor.InSpace →
    (cursor.remain = 2 ^ 64 → ∀ range ∈ view.head?, range.addr ≠ wholeSpace) →
    ∃ out, fillGaps fr view cursor = some out
  | [], _, cursor, _, _, _, _, _ => ⟨_, rfl⟩
  | range :: rest, lower, cursor, nonneg, ordered, high, space, free => by
    obtain ⟨low, nonempty, tail⟩ := ordered
    obtain ⟨rangeHigh, restHigh⟩ := List.forall_mem_cons.mp high
    have ⟨base, remain, stop⟩ := space
    have positive : 0 < range.addr.last := by simp only [AddrRange.last]; omega
    have aboveStart : range.addr.start < range.addr.last := by simp only [AddrRange.last]; omega
    -- behind this range the cursor is not at the start of the space any more
    have later {behind : Cursor} (behindSpace : behind.InSpace)
        (past : 0 < behind.remain → 0 < behind.base) :
        ∃ out, fillGaps fr rest behind = some out := by
      have behindStop := behindSpace.stop
      exact fillGaps_defined positive.le tail restHigh behindSpace (by omega)
    rw [fillGaps]
    split
    · exact ⟨_, rfl⟩
    split
    next passed =>
      obtain ⟨out, result⟩ := later space (by omega)
      exact ⟨_, Option.map_eq_some_iff.mpr ⟨out, result, rfl⟩⟩
    split
    next gap =>
      obtain ⟨inside, advanced, insideSpace, insideBase, insideRemain⟩ := space.advance
        (show 0 ≤ min cursor.remain (range.addr.start - cursor.base) by omega)
        (by omega) (by omega)
      obtain ⟨behind, skipped, behindSpace, atLast⟩ :=
        @Cursor.InSpace.skip inside range insideSpace (by omega) (by omega)
      obtain ⟨out, result⟩ := later behindSpace (by omega)
      dsimp only
      rw [advanced, Option.bind_some, skipped, Option.bind_some, result]
      exact ⟨_, rfl⟩
    next noGap =>
      have short : cursor.remain < 2 ^ 64 ∨ range.addr.last < 2 ^ 64 := by
        by_contra whole
        refine free (by omega) range rfl ?_
        have start : range.addr.start = 0 := by omega
        have size : range.addr.size = 2 ^ 64 := by simp only [AddrRange.last] at *; omega
        rw [wholeSpace, ← start, ← size]
      obtain ⟨behind, skipped, behindSpace, atLast⟩ :=
        @Cursor.InSpace.skip cursor range space (by omega) short
      obtain ⟨out, result⟩ := later behindSpace (by omega)
      rw [skipped, Option.bind_some, result]
      exact ⟨_, rfl⟩

def Full (view : FlatView) : Prop :=
  ∃ fr, view = [fr] ∧ fr.addr = wholeSpace

theorem Rendered.full (rendered : Rendered regions view) {range : FlatRange}
    (first : range ∈ view.head?) (whole : range.addr = wholeSpace) : Full view := by
  obtain ⟨rest, rfl⟩ := List.head?_eq_some_iff.mp first
  cases rest with
  | nil => exact ⟨range, rfl, whole⟩
  | cons next later =>
    obtain ⟨-, -, above, nonempty, -⟩ := rendered.ordered
    have high := (rendered.placed next (by simp)).high
    simp only [whole, wholeSpace, AddrRange.last] at above high
    omega

section

variable (sound : part.Sound regions)
include sound

theorem Paint.Sound.paint_eq : ∃ offset : UInt64,
    paint regions view part = fillGaps ⟨part.mr, 0, part.clip, (regions part.mr).dirtyLogMask,
      (regions part.mr).romdMode, part.readonly⟩ view
        ⟨offset, part.clip.start, part.clip.size⟩ := by
  have low := sound.low
  obtain ⟨offset, offset_eq, -⟩ :=
    int128Get64_eq_some (show 0 ≤ part.clip.start - part.base by omega) sound.offset
  exact ⟨offset, by rw [paint, offset_eq, Option.bind_some]⟩

theorem Paint.Sound.cursor_inSpace (offset : UInt64) :
    (⟨offset, part.clip.start, part.clip.size⟩ : Cursor).InSpace :=
  ⟨sound.space.low, sound.space.size, sound.space.high⟩

theorem paint_empty (nothing : part.clip.size = 0) : paint regions view part = some view := by
  obtain ⟨offset, painted⟩ := @Paint.Sound.paint_eq _ view _ sound
  rw [painted]
  cases view <;> simp [fillGaps, nothing]

theorem paint_first (nonempty : 0 < part.clip.size) :
    ∃ fr, paint regions [] part = some [fr] ∧ fr.addr = part.clip := by
  obtain ⟨offset, painted⟩ := @Paint.Sound.paint_eq _ [] _ sound
  rw [painted, fillGaps, if_neg (by simpa using nonempty.ne')]
  exact ⟨_, rfl, rfl⟩

end

/-- Into a full view everything is painted that does not take the whole space. -/
theorem paint_full (full : Full view) (sound : part.Sound regions) (nonempty : 0 < part.clip.size) :
    paint regions view part = if part.clip = wholeSpace then none else some view := by
  obtain ⟨fr, rfl, whole⟩ := full
  obtain ⟨offset, painted⟩ := @Paint.Sound.paint_eq _ [fr] _ sound
  have space := sound.cursor_inSpace offset
  have ⟨base, remain, stop⟩ := space
  have last : fr.addr.last = 2 ^ 64 := by simp [whole, wholeSpace, AddrRange.last]
  have start : fr.addr.start = 0 := by rw [whole, wholeSpace]
  have skip_eq : (⟨offset, part.clip.start, part.clip.size⟩ : Cursor).skip fr =
      (⟨offset, part.clip.start, part.clip.size⟩ : Cursor).advance part.clip.size := by
    rw [Cursor.skip]
    congr 1
    simp only at stop ⊢
    omega
  simp only at base remain stop
  rw [painted, fillGaps, if_neg (by simpa using nonempty.ne'), last, if_neg (by simp only; omega),
    start, if_neg (by simp only; omega), skip_eq]
  split
  next all =>
    have tooLarge : ¬ part.clip.size < 2 ^ 64 := by simp [all, wholeSpace]
    rw [Cursor.advance, int128Get64, if_neg (fun bounds => tooLarge bounds.2)]
    rfl
  next notAll =>
    have short : part.clip.size < 2 ^ 64 := by
      by_contra long
      refine notAll ?_
      rw [wholeSpace, ← show part.clip.start = 0 by omega, ← show part.clip.size = 2 ^ 64 by omega]
    obtain ⟨next, advanced, -, -, nextRemain⟩ := space.advance remain le_rfl short
    rw [advanced, Option.bind_some, fillGaps, if_pos (by simp [nextRemain])]
    rfl

/-- Once something is shown that does not take the whole space, painting goes on. -/
theorem paint_open (rendered : Rendered regions view) (shown : view ≠ []) (notFull : ¬ Full view)
    (sound : part.Sound regions) :
    ∃ out, paint regions view part = some out ∧ Rendered regions out ∧ out ≠ [] ∧ ¬ Full out := by
  obtain ⟨offset, painted⟩ := @Paint.Sound.paint_eq _ view _ sound
  have high : ∀ range ∈ view, range.addr.last ≤ 2 ^ 64 := fun range member =>
    (rendered.placed range member).high
  obtain ⟨out, result⟩ := fillGaps_defined le_rfl rendered.ordered high
    (sound.cursor_inSpace offset) fun _ range first whole => notFull (rendered.full first whole)
  have stays := (@fillGaps_extends (fun _ _ => True) _ trivial _ _ _ (fun _ _ => trivial) result).1
  rw [← painted] at result
  refine ⟨out, result, (paint_shows rendered sound result).1, ?_, ?_⟩
  · rintro rfl
    exact shown (List.sublist_nil.mp stays)
  rintro ⟨fr, rfl, whole⟩
  rcases List.sublist_singleton.mp stays with rfl | rfl
  · exact shown rfl
  · exact notFull ⟨fr, rfl, whole⟩

theorem foldlM_paint_full (full : Full view) : ∀ {parts : List Paint},
    (∀ part ∈ parts, part.Sound regions ∧ 0 < part.clip.size) →
    ((∃ out, parts.foldlM (paint regions) view = some out) ↔ ∀ part ∈ parts, part.clip ≠ wholeSpace)
  | [], _ => by simp
  | part :: rest, sound => by
    obtain ⟨⟨partSound, nonempty⟩, restSound⟩ := List.forall_mem_cons.mp sound
    rw [List.foldlM_cons, paint_full full partSound nonempty, List.forall_mem_cons,
      ← foldlM_paint_full full restSound]
    split
    next whole => simp [whole]
    next notWhole => simp [notWhole]

theorem foldlM_paint_open : ∀ {parts : List Paint} {view : FlatView}, Rendered regions view →
    view ≠ [] → ¬ Full view → (∀ part ∈ parts, part.Sound regions) →
    ∃ out, parts.foldlM (paint regions) view = some out
  | [], view, _, _, _, _ => ⟨view, rfl⟩
  | part :: rest, view, rendered, shown, notFull, sound => by
    obtain ⟨partSound, restSound⟩ := List.forall_mem_cons.mp sound
    obtain ⟨out, painted, outRendered, outShown, outNotFull⟩ :=
      paint_open rendered shown notFull partSound
    rw [List.foldlM_cons, painted]
    exact foldlM_paint_open outRendered outShown outNotFull restSound

theorem foldlM_paint_filter : ∀ {parts : List Paint} {view : FlatView},
    (∀ part ∈ parts, part.Sound regions) →
    parts.foldlM (paint regions) view =
      (parts.filter fun part => 0 < part.clip.size).foldlM (paint regions) view
  | [], _, _ => rfl
  | part :: rest, view, sound => by
    obtain ⟨partSound, restSound⟩ := List.forall_mem_cons.mp sound
    have size := partSound.space.size
    rw [List.foldlM_cons, List.filter_cons]
    split
    next nonempty =>
      rw [List.foldlM_cons]
      congr 1
      funext painted
      exact foldlM_paint_filter restSound
    next empty =>
      rw [decide_eq_true_eq] at empty
      rw [paint_empty partSound (by omega)]
      exact foldlM_paint_filter restSound

/-- Painting fails exactly when the whole space is painted twice, the first time
as the first part. -/
theorem foldlM_paint_defined (sound : ∀ part ∈ parts, part.Sound regions) :
    (∃ out, parts.foldlM (paint regions) [] = some out) ↔ ¬ FillsTwice parts := by
  have nonempty : ∀ part ∈ parts.filter fun part => 0 < part.clip.size,
      part.Sound regions ∧ 0 < part.clip.size := fun part member => by
    obtain ⟨member, size⟩ := List.mem_filter.mp member
    exact ⟨sound part member, by simpa using size⟩
  rw [foldlM_paint_filter sound, FillsTwice]
  generalize parts.filter (fun part => 0 < part.clip.size) = shown at nonempty
  cases shown with
  | nil => simp
  | cons first later =>
    obtain ⟨⟨firstSound, firstNonempty⟩, laterSound⟩ := List.forall_mem_cons.mp nonempty
    obtain ⟨fr, painted, addr_eq⟩ := paint_first firstSound firstNonempty
    have empty : Rendered regions [] := ⟨trivial, by simp, by simp⟩
    have rendered := (paint_shows empty firstSound painted).1
    rw [List.foldlM_cons, painted]
    simp only [List.head?_cons, Option.mem_def, Option.some.injEq, exists_eq_left', List.tail_cons]
    by_cases whole : first.clip = wholeSpace
    · have full : Full [fr] := ⟨fr, rfl, addr_eq.trans whole⟩
      simpa [whole] using foldlM_paint_full full laterSound
    have notFull : ¬ Full [fr] := by
      rintro ⟨range, same, range_eq⟩
      cases same
      exact whole (addr_eq.symm.trans range_eq)
    obtain ⟨out, result⟩ := foldlM_paint_open rendered (by simp) notFull fun part member =>
      (laterSound part member).1
    simp only [whole, false_and, not_false_eq_true, iff_true]
    exact ⟨out, result⟩

/-- On a finite tree with subregions in priority order, a view is made that shows at every address
what the search finds, unless the whole space is painted twice. -/
theorem generateMemoryTopology_visible_iff {root : Nat} (sorted : Prioritised regions)
    (finite : Levels regions fuel root) :
    (∃ view, generateMemoryTopology regions fuel (some root) = some view ∧
      ShowsVisible regions root view) ↔
    ¬ FillsTwice (renderOrder regions fuel root 0 wholeSpace false) := by
  rw [← foldlM_paint_defined (renderOrder_sound wholeSpace_inSpace),
    ← renderMemoryRegion_eq_paint finite]
  constructor
  · rintro ⟨view, result, -⟩
    obtain ⟨raw, rawResult, -⟩ := Option.map_eq_some_iff.mp result
    exact ⟨raw, rawResult⟩
  · rintro ⟨raw, rawResult⟩
    have result : generateMemoryTopology regions fuel (some root) = some (flatviewSimplify raw) :=
      Option.map_eq_some_iff.mpr ⟨raw, rawResult, rfl⟩
    exact ⟨_, result, generateMemoryTopology_shows sorted finite result⟩

def layered : Regions
  | 0 => { memoryRegionInit 0xffffffffffffffff with mayOverlap := true, subregions := [1, 2] }
  | 1 => { memoryRegionInitRam 0x1000 0 with
      parent := some 0, addr := 0x1000, priority := 1, mayOverlap := true }
  | 2 => { memoryRegionInit 0x10000 with
      parent := some 0, terminates := true, mayOverlap := true }
  | _ => { memoryRegionInit 0x1000 with parent := some 0, terminates := true, mayOverlap := true }

theorem generateMemoryTopology_visible_layered :
    Prioritised layered ∧ Levels layered 2 0 ∧
      ∃ view, generateMemoryTopology layered 2 (some 0) = some view ∧
        ShowsVisible layered 0 view := by
  have sorted : Prioritised layered := fun mr => by
    rcases mr with _ | _ | _ | mr
    · decide
    all_goals exact .nil
  have finite : Levels layered 2 0 := by
    intro subregion member
    rcases List.mem_pair.mp member with rfl | rfl <;> exact nofun
  exact ⟨sorted, finite, (generateMemoryTopology_visible_iff sorted finite).mpr (by decide +kernel)⟩

def overlaid : Regions := fun mr =>
  { memoryRegionInit 0xffffffffffffffff with
    terminates := mr ≠ 0, mayOverlap := true, subregions := if mr = 0 then [1, 2] else [] }

theorem generateMemoryTopology_aborts : Prioritised overlaid ∧ Levels overlaid 2 0 ∧
    ∀ fuel, generateMemoryTopology overlaid fuel (some 0) = none := by
  refine ⟨fun mr => ?_, ?_, fun fuel => ?_⟩
  · by_cases root : mr = 0
    · subst root
      decide
    · simp [overlaid, root]
  · simp [Levels, overlaid, memoryRegionInit, MemoryRegion.below]
  · rcases fuel with _ | _ | fuel <;> rfl

end Render

end VhostUser.Qemu
