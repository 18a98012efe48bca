import VhostUser.Lib.Machine
import VhostUser.Qemu.FlatView

/-!
Contract: how a tree of memory regions becomes a flat view
(`render_memory_region`, `flatview_simplify` and `generate_memory_topology` in
`memory.c`).

A failed assertion is `none`, and so is running out of `fuel`: the C recursion
over aliases and subregions need not end.

Owns: the model, and that a generated view is in order, inside the 64-bit space
and inside its regions, with the dirty-log masks the regions have.
-/

namespace VhostUser.Qemu

open VhostUser.Lib

def int128Get64 (value : Int) : Option UInt64 :=
  if 0 ≤ value ∧ value < 2 ^ 64 then some (.ofNat value.toNat) else none

theorem int128Get64_some {value : Int} {word : UInt64} (result : int128Get64 value = some word) :
    (word.toNat : Int) = value := by
  simp only [int128Get64] at result
  split at result
  next bounds =>
    cases result
    rw [UInt64.toNat_ofNat']
    omega
  · cases result

/-! ### Rendering -/

/-- The loop variables `offset_in_region`, `base` and `remain` of
`render_memory_region`. -/
structure Cursor where
  offset : UInt64
  base : Int
  remain : Int

namespace Cursor

def advance (cursor : Cursor) (now : Int) : Option Cursor :=
  (int128Get64 now).map fun word =>
    ⟨cursor.offset + word, cursor.base + now, cursor.remain - now⟩

def skip (cursor : Cursor) (range : FlatRange) : Option Cursor :=
  cursor.advance (min (cursor.base + cursor.remain) range.addr.last - cursor.base)

def piece (cursor : Cursor) (fr : FlatRange) (now : Int) : FlatRange :=
  { fr with offsetInRegion := cursor.offset, addr := ⟨cursor.base, now⟩ }

end Cursor

/-- Render `fr` into the gaps left by the current view. -/
def fillGaps (fr : FlatRange) : FlatView → Cursor → Option FlatView
  | [], cursor =>
    some (if cursor.remain = 0 then [] else [cursor.piece fr cursor.remain])
  | range :: rest, cursor =>
    if cursor.remain = 0 then some (range :: rest)
    else if range.addr.last ≤ cursor.base then
      (fillGaps fr rest cursor).map (range :: ·)
    else if cursor.base < range.addr.start then
      let now := min cursor.remain (range.addr.start - cursor.base)
      (cursor.advance now).bind fun inside =>
        (inside.skip range).bind fun behind =>
          (fillGaps fr rest behind).map fun out => cursor.piece fr now :: range :: out
    else
      (cursor.skip range).bind fun behind =>
        (fillGaps fr rest behind).map (range :: ·)

def renderMemoryRegion (regions : Regions) :
    Nat → FlatView → Nat → Int → AddrRange → Bool → Option FlatView
  | 0, _, _, _, _, _ => none
  | fuel + 1, view, mr, base, clip, readonly =>
    let region := regions mr
    if !region.enabled then some view
    else
      let base := base + region.addr.toNat
      let readonly := readonly || region.readonly
      let tmp : AddrRange := ⟨base, region.size⟩
      if !tmp.intersects clip then some view
      else
        let clip := tmp.intersection clip
        match region.aliasOf with
        | some target =>
          renderMemoryRegion regions fuel view target
            (base - (regions target).addr.toNat - region.aliasOffset.toNat) clip readonly
        | none =>
          (region.subregions.foldlM (fun view subregion =>
            renderMemoryRegion regions fuel view subregion base clip readonly) view).bind
            fun view =>
              if !region.terminates then some view
              else
                (int128Get64 (clip.start - base)).bind fun offset =>
                  fillGaps ⟨mr, 0, clip, region.dirtyLogMask, region.romdMode, readonly⟩ view
                    ⟨offset, clip.start, clip.size⟩

def canMerge (r1 r2 : FlatRange) : Bool :=
  r1.addr.last = r2.addr.start && r1.mr = r2.mr &&
    r1.offsetInRegion.toNat + r1.addr.size = r2.offsetInRegion.toNat &&
    r1.dirtyLogMask = r2.dirtyLogMask && r1.romdMode = r2.romdMode && r1.readonly = r2.readonly

/-- The inner loop of `flatview_simplify`: `acc` is the range that grows, `prev` the last one merged
into it. -/
def simplifyFrom (acc prev : FlatRange) : FlatView → FlatView
  | [] => [acc]
  | next :: rest =>
    if canMerge prev next then
      simplifyFrom { acc with addr := ⟨acc.addr.start, acc.addr.size + next.addr.size⟩ } next rest
    else acc :: simplifyFrom next next rest

def flatviewSimplify : FlatView → FlatView
  | [] => []
  | fr :: rest => simplifyFrom fr fr rest

def generateMemoryTopology (regions : Regions) (fuel : Nat) (root : Option Nat) : Option FlatView :=
  match root with
  | none => some []
  | some mr =>
    (renderMemoryRegion regions fuel [] mr 0 ⟨0, 2 ^ 64⟩ false).map flatviewSimplify

/-! ### Views in order -/

/-- The ranges are not empty, in increasing order and from `lower` on. -/
def OrderedFrom : Int → FlatView → Prop
  | _, [] => True
  | lower, fr :: rest =>
    lower ≤ fr.addr.start ∧ 0 < fr.addr.size ∧ OrderedFrom fr.addr.last rest

namespace OrderedFrom

variable {lower other : Int} {view : FlatView} {fr : FlatRange}

theorem bounds : ∀ {view : FlatView} {lower : Int}, OrderedFrom lower view → ∀ fr ∈ view,
    lower ≤ fr.addr.start ∧ 0 < fr.addr.size
  | head :: rest, lower, ⟨low, nonempty, tail⟩, fr, member => by
    rcases List.mem_cons.mp member with rfl | later
    · exact ⟨low, nonempty⟩
    · obtain ⟨above, positive⟩ := tail.bounds fr later
      simp only [AddrRange.last] at above
      exact ⟨by omega, positive⟩

theorem pairwise : ∀ {view : FlatView} {lower : Int}, OrderedFrom lower view →
    view.Pairwise fun left right => left.addr.last ≤ right.addr.start
  | [], _, _ => .nil
  | _ :: _, _, ⟨_, _, tail⟩ => .cons (fun fr member => (tail.bounds fr member).1) tail.pairwise

end OrderedFrom

/-- A range of a view lies in the 64-bit space and inside its region. -/
structure FlatRange.Placed (region : MemoryRegion) (fr : FlatRange) : Prop where
  high : fr.addr.last ≤ 2 ^ 64
  inside : fr.offsetInRegion.toNat + fr.addr.size ≤ region.size

structure Rendered (regions : Regions) (view : FlatView) : Prop where
  ordered : OrderedFrom 0 view
  placed : ∀ fr ∈ view, fr.Placed (regions fr.mr)
  masked : ∀ fr ∈ view, fr.dirtyLogMask = (regions fr.mr).dirtyLogMask

/-! ### Filling the gaps -/

/-- What is left to render ends at `stop` and fits in a region of `size` bytes. -/
structure Cursor.Within (stop : Int) (size : Nat) (cursor : Cursor) : Prop where
  remain : 0 ≤ cursor.remain
  stop : cursor.base + cursor.remain = stop
  room : 0 < cursor.remain → cursor.offset.toNat + cursor.remain ≤ size

namespace Cursor

variable {cursor next : Cursor} {stop now : Int} {size : Nat} {range : FlatRange}

theorem advance_base (result : cursor.advance now = some next) : next.base = cursor.base + now := by
  obtain ⟨word, -, rfl⟩ := Option.map_eq_some_iff.mp result
  rfl

theorem advance_remain (result : cursor.advance now = some next) :
    next.remain = cursor.remain - now := by
  obtain ⟨word, -, rfl⟩ := Option.map_eq_some_iff.mp result
  rfl

theorem Within.advance (within : cursor.Within stop size) (size_le : size ≤ 2 ^ 64)
    (fits : now ≤ cursor.remain) (result : cursor.advance now = some next) :
    next.Within stop size := by
  obtain ⟨remain, atStop, room⟩ := within
  obtain ⟨word, word_eq, rfl⟩ := Option.map_eq_some_iff.mp result
  have value := int128Get64_some word_eq
  refine ⟨by simpa using fits, by simp only; omega, fun left => ?_⟩
  simp only [UInt64.toNat_add] at left ⊢
  omega

theorem Within.skip (within : cursor.Within stop size) (size_le : size ≤ 2 ^ 64)
    (result : cursor.skip range = some next) : next.Within stop size :=
  within.advance size_le (by omega) result

theorem skip_past (result : cursor.skip range = some next) :
    0 < next.remain → range.addr.last ≤ next.base := by
  rw [advance_base result, advance_remain result]
  omega

end Cursor

/-- `out` is `view` with ranges inserted for parts of what a cursor had left. -/
structure Filled (fr : FlatRange) (stop : Int) (size : Nat) (lower : Int)
    (view out : FlatView) : Prop where
  ordered : OrderedFrom lower out
  members : ∀ range ∈ out, range ∈ view ∨ ∃ (cursor : Cursor) (now : Int),
    cursor.Within stop size ∧ 0 < now ∧ now ≤ cursor.remain ∧ range = cursor.piece fr now

section Fill

variable {fr : FlatRange} {stop lower : Int} {size : Nat} {range : FlatRange}
  {view rest out : FlatView} {cursor : Cursor} {now : Int}

theorem Filled.refl (ordered : OrderedFrom lower view) : Filled fr stop size lower view view :=
  ⟨ordered, fun _ member => .inl member⟩

theorem Filled.cons (low : lower ≤ range.addr.start) (nonempty : 0 < range.addr.size)
    (filled : Filled fr stop size range.addr.last rest out) :
    Filled fr stop size lower (range :: rest) (range :: out) := by
  refine ⟨⟨low, nonempty, filled.ordered⟩, fun entry member => ?_⟩
  rcases List.mem_cons.mp member with rfl | later
  · exact .inl List.mem_cons_self
  · exact (filled.members entry later).imp_left (List.mem_cons_of_mem range)

theorem Filled.insert (within : cursor.Within stop size) (positive : 0 < now)
    (fits : now ≤ cursor.remain) (low : lower ≤ cursor.base)
    (filled : Filled fr stop size (cursor.base + now) view out) :
    Filled fr stop size lower view (cursor.piece fr now :: out) := by
  refine ⟨⟨low, positive, filled.ordered⟩, fun entry member => ?_⟩
  rcases List.mem_cons.mp member with rfl | later
  · exact .inr ⟨cursor, now, within, positive, fits, rfl⟩
  · exact filled.members entry later

theorem fillGaps_filled (size_le : size ≤ 2 ^ 64) :
    ∀ {view out : FlatView} {lower : Int} {cursor : Cursor}, OrderedFrom lower view →
      (0 < cursor.remain → lower ≤ cursor.base) → cursor.Within stop size →
      fillGaps fr view cursor = some out → Filled fr stop size lower view out
  | [], out, lower, cursor, _, above, within, result => by
    simp only [fillGaps, Option.some.injEq] at result
    subst result
    have remaining := within.remain
    split
    · exact .refl trivial
    next left =>
      have positive : 0 < cursor.remain := by omega
      exact .insert within positive le_rfl (above positive) (.refl trivial)
  | range :: rest, out, lower, cursor, ordered, above, within, result => by
    have whole := ordered
    obtain ⟨low, nonempty, tail⟩ := ordered
    have remaining := within.remain
    rw [fillGaps] at result
    split at result
    · cases result
      exact .refl whole
    split at result
    next passed =>
      obtain ⟨out, outResult, rfl⟩ := Option.map_eq_some_iff.mp result
      exact .cons low nonempty (fillGaps_filled size_le tail (fun _ => passed) within outResult)
    split at result
    next gap =>
      obtain ⟨inside, advanced, result⟩ := Option.bind_eq_some_iff.mp result
      obtain ⟨behind, skipped, result⟩ := Option.bind_eq_some_iff.mp result
      obtain ⟨out, outResult, rfl⟩ := Option.map_eq_some_iff.mp result
      have insideWithin := within.advance size_le (by omega) advanced
      have filled := fillGaps_filled size_le tail (Cursor.skip_past skipped)
        (insideWithin.skip size_le skipped) outResult
      exact .insert within (by omega) (by omega) (above (by omega))
        (.cons (by omega) nonempty filled)
    next noGap =>
      obtain ⟨behind, skipped, result⟩ := Option.bind_eq_some_iff.mp result
      obtain ⟨out, outResult, rfl⟩ := Option.map_eq_some_iff.mp result
      exact .cons low nonempty (fillGaps_filled size_le tail (Cursor.skip_past skipped)
        (within.skip size_le skipped) outResult)

end Fill

section Render

variable {regions : Regions} {mr : Nat} {clip : AddrRange} {view out : FlatView}

structure AddrRange.InSpace (clip : AddrRange) : Prop where
  low : 0 ≤ clip.start
  size : 0 ≤ clip.size
  high : clip.last ≤ 2 ^ 64

theorem AddrRange.InSpace.intersection {base : Int} {size : Nat} (space : clip.InSpace)
    (meets : (⟨base, size⟩ : AddrRange).intersects clip = true) :
    ((⟨base, size⟩ : AddrRange).intersection clip).InSpace := by
  obtain ⟨low, nonneg, high⟩ := space
  simp only [AddrRange.intersects, AddrRange.contains_iff, Bool.or_eq_true] at meets
  simp only [AddrRange.last] at high
  constructor <;> simp only [AddrRange.intersection, AddrRange.last] <;> omega

theorem Rendered.fill {romdMode readonly : Bool} {base : Int} {offset : UInt64}
    (rendered : Rendered regions view) (space : clip.InSpace)
    (offset_eq : int128Get64 (clip.start - base) = some offset)
    (inside : clip.last ≤ base + (regions mr).size)
    (result : fillGaps ⟨mr, 0, clip, (regions mr).dirtyLogMask, romdMode, readonly⟩ view
      ⟨offset, clip.start, clip.size⟩ = some out) : Rendered regions out := by
  have start := int128Get64_some offset_eq
  have within : (⟨offset, clip.start, clip.size⟩ : Cursor).Within clip.last (regions mr).size := by
    refine ⟨space.size, rfl, fun _ => ?_⟩
    simp only [AddrRange.last] at inside ⊢
    omega
  have filled := fillGaps_filled (regions mr).size_le rendered.ordered (fun _ => space.low) within
    result
  refine ⟨filled.ordered, fun fr member => ?_, fun fr member => ?_⟩
  · rcases filled.members fr member with old | ⟨cursor, now, cursorWithin, positive, fits, rfl⟩
    · exact rendered.placed fr old
    · obtain ⟨-, atStop, room⟩ := cursorWithin
      have := space.high
      refine ⟨?_, ?_⟩ <;> simp only [Cursor.piece, AddrRange.last] at * <;> omega
  · rcases filled.members fr member with old | ⟨cursor, now, -, -, -, rfl⟩
    · exact rendered.masked fr old
    · rfl

theorem AddrRange.InSpace.whole : (⟨0, 2 ^ 64⟩ : AddrRange).InSpace :=
  ⟨by decide, by decide, by decide⟩

/-- What holds of a view after every range that is filled in holds after rendering. -/
theorem renderMemoryRegion_invariant {inv : FlatView → Prop}
    (fill : ∀ {mr view out base clip readonly offset}, (regions mr).enabled = true →
      clip.InSpace → int128Get64 (clip.start - base) = some offset →
      clip.last ≤ base + (regions mr).size →
      fillGaps ⟨mr, 0, clip, (regions mr).dirtyLogMask, (regions mr).romdMode,
        readonly || (regions mr).readonly⟩ view ⟨offset, clip.start, clip.size⟩ = some out →
      inv view → inv out) :
    ∀ {fuel : Nat} {view out : FlatView} {mr : Nat} {base : Int} {clip : AddrRange}
      {readonly : Bool}, clip.InSpace → inv view →
      renderMemoryRegion regions fuel view mr base clip readonly = some out → inv out
  | fuel + 1, view, out, mr, base, clip, readonly, space, holds, result => by
    rw [renderMemoryRegion] at result
    dsimp only at result
    split at result
    · cases result
      exact holds
    next enabled =>
    rw [Bool.not_eq_true', Bool.not_eq_false] at enabled
    split at result
    · cases result
      exact holds
    next meets =>
    rw [Bool.not_eq_true', Bool.not_eq_false] at meets
    have clipped := space.intersection meets
    split at result
    · exact renderMemoryRegion_invariant fill clipped holds result
    obtain ⟨below, subregions, result⟩ := Option.bind_eq_some_iff.mp result
    have belowHolds := foldlM_invariant inv
      (fun _ _ _ _ kept step => renderMemoryRegion_invariant fill clipped kept step)
      holds subregions
    split at result
    · cases result
      exact belowHolds
    obtain ⟨offset, offset_eq, result⟩ := Option.bind_eq_some_iff.mp result
    refine fill enabled clipped offset_eq ?_ result belowHolds
    simp only [AddrRange.intersection, AddrRange.last]
    omega

end Render

/-! ### Merging adjacent ranges -/

/-- `acc` grew from ranges of which `prev` is the last. -/
structure Grown (acc prev : FlatRange) : Prop where
  mr : acc.mr = prev.mr
  mask : acc.dirtyLogMask = prev.dirtyLogMask
  last : acc.addr.last = prev.addr.last
  offset : (acc.offsetInRegion.toNat : Int) + acc.addr.size =
    prev.offsetInRegion.toNat + prev.addr.size

section Simplify

variable {acc prev next : FlatRange} {regions : Regions} {view : FlatView}

theorem Grown.refl : Grown acc acc := ⟨rfl, rfl, rfl, rfl⟩

theorem Grown.merge (grown : Grown acc prev) (mergeable : canMerge prev next = true) :
    Grown { acc with addr := ⟨acc.addr.start, acc.addr.size + next.addr.size⟩ } next := by
  obtain ⟨mr, mask, last, offset⟩ := grown
  simp only [canMerge, Bool.and_eq_true, decide_eq_true_eq] at mergeable
  obtain ⟨⟨⟨⟨⟨adjacent, sameMr⟩, continues⟩, sameMask⟩, -⟩, -⟩ := mergeable
  simp only [AddrRange.last] at last adjacent
  refine ⟨mr.trans sameMr, mask.trans sameMask, ?_, ?_⟩ <;> simp only [AddrRange.last] <;> omega

theorem Grown.placed (grown : Grown acc prev) (placed : prev.Placed (regions prev.mr)) :
    acc.Placed (regions acc.mr) := by
  obtain ⟨mr, -, last, offset⟩ := grown
  exact ⟨last ▸ placed.high, by rw [offset, mr]; exact placed.inside⟩

theorem simplifyFrom_rendered : ∀ {view : FlatView} {acc prev : FlatRange} {lower : Int},
    Grown acc prev → lower ≤ acc.addr.start → 0 < acc.addr.size →
    OrderedFrom prev.addr.last view →
    (∀ fr ∈ prev :: view, fr.Placed (regions fr.mr) ∧
      fr.dirtyLogMask = (regions fr.mr).dirtyLogMask) →
    OrderedFrom lower (simplifyFrom acc prev view) ∧
      ∀ fr ∈ simplifyFrom acc prev view, fr.Placed (regions fr.mr) ∧
        fr.dirtyLogMask = (regions fr.mr).dirtyLogMask
  | [], acc, prev, lower, grown, low, nonempty, _, sound => by
    obtain ⟨placed, masked⟩ := sound prev List.mem_cons_self
    refine ⟨⟨low, nonempty, trivial⟩, fun fr member => ?_⟩
    obtain rfl := List.mem_singleton.mp member
    exact ⟨grown.placed placed, by rw [grown.mask, masked, grown.mr]⟩
  | next :: rest, acc, prev, lower, grown, low, nonempty, ordered, sound => by
    obtain ⟨⟨placed, masked⟩, later⟩ := List.forall_mem_cons.mp sound
    obtain ⟨above, nextNonempty, tail⟩ := ordered
    rw [simplifyFrom]
    split
    next mergeable =>
      exact simplifyFrom_rendered (grown.merge mergeable) low (by simp only; omega) tail later
    · obtain ⟨restOrdered, restSound⟩ :=
        @simplifyFrom_rendered rest next next _ .refl above nextNonempty tail later
      rw [← grown.last] at restOrdered
      refine ⟨⟨low, nonempty, restOrdered⟩, List.forall_mem_cons.mpr ⟨?_, restSound⟩⟩
      exact ⟨grown.placed placed, by rw [grown.mask, masked, grown.mr]⟩

theorem flatviewSimplify_rendered (rendered : Rendered regions view) :
    Rendered regions (flatviewSimplify view) := by
  cases view with
  | nil => exact rendered
  | cons fr rest =>
    obtain ⟨⟨low, nonempty, tail⟩, placed, masked⟩ := rendered
    obtain ⟨ordered, sound⟩ := simplifyFrom_rendered .refl low nonempty tail
      fun range member => ⟨placed range member, masked range member⟩
    exact ⟨ordered, fun range member => (sound range member).1,
      fun range member => (sound range member).2⟩

theorem generateMemoryTopology_rendered {fuel : Nat} {root : Option Nat}
    (result : generateMemoryTopology regions fuel root = some view) : Rendered regions view := by
  have empty : Rendered regions [] := ⟨trivial, by simp, by simp⟩
  cases root with
  | none =>
    cases result
    exact empty
  | some mr =>
    obtain ⟨raw, rawResult, rfl⟩ := Option.map_eq_some_iff.mp result
    exact flatviewSimplify_rendered (renderMemoryRegion_invariant
      (fun _ space offset_eq inside result rendered =>
        Rendered.fill rendered space offset_eq inside result) .whole empty rawResult)

end Simplify

/-! ### Regions of the ranges -/

section Forall

variable {regions : Regions} {property : Nat → Bool → Prop}

/-- The ranges of a view stay, and what holds of them and of the range that is filled in holds
of all. -/
theorem fillGaps_extends {fr : FlatRange} (holds : property fr.mr fr.readonly) :
    ∀ {view out : FlatView} {cursor : Cursor}, (∀ range ∈ view, property range.mr range.readonly) →
      fillGaps fr view cursor = some out →
      view.Sublist out ∧ ∀ range ∈ out, property range.mr range.readonly
  | [], out, cursor, _, result => by
    cases result
    refine ⟨List.nil_sublist _, fun range member => ?_⟩
    split at member
    · cases member
    · cases List.mem_singleton.mp member
      exact holds
  | range :: rest, out, cursor, sound, result => by
    obtain ⟨first, later⟩ := List.forall_mem_cons.mp sound
    have behind {out : FlatView} {cursor : Cursor} (result : fillGaps fr rest cursor = some out) :
        (range :: rest).Sublist (range :: out) ∧
          ∀ kept ∈ range :: out, property kept.mr kept.readonly := by
      obtain ⟨kept, filled⟩ := fillGaps_extends holds later result
      exact ⟨kept.cons_cons _, List.forall_mem_cons.mpr ⟨first, filled⟩⟩
    rw [fillGaps] at result
    split at result
    · cases result
      exact ⟨.refl _, sound⟩
    split at result
    · obtain ⟨out, outResult, rfl⟩ := Option.map_eq_some_iff.mp result
      exact behind outResult
    split at result
    · obtain ⟨inside, -, result⟩ := Option.bind_eq_some_iff.mp result
      obtain ⟨next, -, result⟩ := Option.bind_eq_some_iff.mp result
      obtain ⟨out, outResult, rfl⟩ := Option.map_eq_some_iff.mp result
      obtain ⟨kept, filled⟩ := behind outResult
      exact ⟨kept.cons _, List.forall_mem_cons.mpr ⟨holds, filled⟩⟩
    · obtain ⟨next, -, result⟩ := Option.bind_eq_some_iff.mp result
      obtain ⟨out, outResult, rfl⟩ := Option.map_eq_some_iff.mp result
      exact behind outResult

theorem simplifyFrom_forall : ∀ {view : FlatView} {acc prev : FlatRange},
    property acc.mr acc.readonly → (∀ range ∈ view, property range.mr range.readonly) →
    ∀ range ∈ simplifyFrom acc prev view, property range.mr range.readonly
  | [], _, _, first, _ => List.forall_mem_singleton.mpr first
  | next :: rest, acc, prev, first, sound => by
    obtain ⟨nextHolds, later⟩ := List.forall_mem_cons.mp sound
    rw [simplifyFrom]
    split
    · exact simplifyFrom_forall first later
    · exact List.forall_mem_cons.mpr ⟨first, simplifyFrom_forall nextHolds later⟩

variable (property) in
theorem generateMemoryTopology_forall {fuel : Nat} {root : Option Nat} {view : FlatView}
    (holds : ∀ mr readonly, (regions mr).enabled = true →
      property mr (readonly || (regions mr).readonly))
    (result : generateMemoryTopology regions fuel root = some view) :
    ∀ fr ∈ view, property fr.mr fr.readonly := by
  cases root with
  | none =>
    cases result
    simp
  | some mr =>
    obtain ⟨raw, rawResult, rfl⟩ := Option.map_eq_some_iff.mp result
    have sound : ∀ range ∈ raw, property range.mr range.readonly :=
      renderMemoryRegion_invariant (fun enabled _ _ _ filled sound =>
        (@fillGaps_extends property _ (holds _ _ enabled) _ _ _ sound filled).2)
        .whole (by simp) rawResult
    cases raw with
    | nil => exact sound
    | cons fr rest =>
      obtain ⟨first, later⟩ := List.forall_mem_cons.mp sound
      exact simplifyFrom_forall first later

end Forall

end VhostUser.Qemu
