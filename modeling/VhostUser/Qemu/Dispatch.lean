import VhostUser.Lib.BitWord
import VhostUser.Lib.Fallible
import VhostUser.Qemu.PhysMap
import VhostUser.Qemu.ViewUpdate
import VhostUser.Qemu.VhostMemory

/-!
Contract: the dispatch table that `mem_begin`, `mem_add` and `mem_commit` build of a
flat view, and `address_space_lookup_region` on it (`exec.c`).

A range is cut at page boundaries: whole pages go into the radix tree, the rest into
the tables of subpages. `Holds` says which bytes a table has; each registration keeps it
or finds the table of sections full.

Owns: the table of a flat view is exact at every address.
Does not own: the radix tree itself (`PhysMap`).
-/

namespace VhostUser.Qemu

open VhostUser.Lib

/-! ### The table -/

def targetPageSize : UInt64 := 4096

def targetPageMask : UInt64 := ~~~(targetPageSize - 1)

def targetPageAlign (addr : UInt64) : UInt64 := (addr + targetPageSize - 1) &&& targetPageMask

/-- A region of the guest, one of those that `io_mem_init` makes, or a subpage. -/
inductive PhysRegion where
  | memory (mr : Nat)
  | unassigned
  | notdirty
  | rom
  | watch
  | subpage (id : Nat)
deriving DecidableEq, Repr

/-- The part of a `MemoryRegionSection` that the dispatch table reads. -/
structure PhysSection where
  mr : PhysRegion
  offsetWithinAddressSpace : UInt64
  offsetWithinRegion : UInt64
  size : Int
deriving DecidableEq, Repr

def MemoryRegionSection.phys (sec : MemoryRegionSection) : PhysSection :=
  ⟨.memory sec.mr, sec.offsetWithinAddressSpace, sec.offsetWithinRegion, sec.size⟩

structure Subpage where
  base : UInt64
  subSection : Nat → Nat

/-- `AddressSpaceDispatch` with its `PhysPageMap`. -/
structure AddressSpaceDispatch where
  physMap : PhysPageEntry
  nodes : NodeCount
  sections : List PhysSection
  subpages : List Subpage

/-- The assertion of `phys_section_add`, another assertion, an access out of bounds, or a loop
that takes too many turns. -/
inductive DispatchError where
  | sectionsFull
  | assertion
  | badIndex
  | unfinished
deriving DecidableEq, Repr

def assert64 (value : Int) : Except DispatchError UInt64 :=
  match int128Get64 value with
  | some word => .ok word
  | none => .error .assertion

def rangeCoversByte (offset len byte : UInt64) : Bool :=
  offset ≤ byte && byte ≤ rangeGetLast offset len

namespace AddressSpaceDispatch

def sectionAt (d : AddressSpaceDispatch) (n : Nat) : Except DispatchError PhysSection :=
  match d.sections[n]? with
  | some sec => .ok sec
  | none => .error .badIndex

def physSectionAdd (d : AddressSpaceDispatch) (sec : PhysSection) :
    Except DispatchError (Nat × AddressSpaceDispatch) :=
  if d.sections.length < targetPageSize.toNat then
    .ok (d.sections.length, { d with sections := d.sections ++ [sec] })
  else .error .sectionsFull

def setPages (d : AddressSpaceDispatch) (index nb : UInt64) (leaf : Nat) :
    Except DispatchError AddressSpaceDispatch :=
  match physPageSet d.nodes d.physMap index.toNat nb.toNat leaf with
  | some (nodes, physMap) => .ok { d with nodes, physMap }
  | none => .error .assertion

def physPageFind (d : AddressSpaceDispatch) (addr : UInt64) : Except DispatchError PhysSection :=
  match physPageWalk d.physMap pL2Levels (addr >>> 12).toNat with
  | none => .error .badIndex
  | some ptr => do
      let sec ← d.sectionAt ptr
      if sec.size / 2 ^ 64 ≠ 0 || rangeCoversByte sec.offsetWithinAddressSpace
          (.ofNat (sec.size % 2 ^ 64).toNat) addr then
        return sec
      else d.sectionAt 0

def addressSpaceLookupRegion (d : AddressSpaceDispatch) (addr : UInt64) (resolveSubpage : Bool) :
    Except DispatchError PhysSection := do
  let sec ← d.physPageFind addr
  match resolveSubpage, sec.mr with
  | true, .subpage id =>
    match d.subpages[id]? with
    | some subpage => d.sectionAt (subpage.subSection (addr &&& ~~~targetPageMask).toNat)
    | none => .error .badIndex
  | _, _ => return sec

end AddressSpaceDispatch

/-! ### Registration -/

def subpageRegister (subpage : Subpage) (start stop : UInt32) (leaf : Nat) : Subpage :=
  if targetPageSize.toUInt32 ≤ start || targetPageSize.toUInt32 ≤ stop then subpage
  else
    { subpage with
      subSection := fun i =>
        if start.toNat ≤ i ∧ i ≤ stop.toNat then leaf else subpage.subSection i }

def subpageInit (base : UInt64) : Subpage :=
  subpageRegister ⟨base, fun _ => 0⟩ 0 (targetPageSize.toUInt32 - 1) 0

def fillSubpage (d : AddressSpaceDispatch) (id : Nat) (sec : PhysSection) :
    Except DispatchError AddressSpaceDispatch := do
  let start := sec.offsetWithinAddressSpace &&& ~~~targetPageMask
  let size ← assert64 sec.size
  let stop := start + size - 1
  let (n, d) ← d.physSectionAdd sec
  return { d with
    subpages := d.subpages.modify id fun subpage =>
      subpageRegister subpage start.toUInt32 stop.toUInt32 n }

def subsection (id : Nat) (base : UInt64) : PhysSection :=
  ⟨.subpage id, base, 0, targetPageSize.toNat⟩

def registerSubpage (d : AddressSpaceDispatch) (sec : PhysSection) :
    Except DispatchError AddressSpaceDispatch := do
  let base := sec.offsetWithinAddressSpace &&& targetPageMask
  let existing ← d.physPageFind base
  match existing.mr with
  | .subpage id => fillSubpage d id sec
  | .unassigned =>
    let id := d.subpages.length
    let (n, d) ← d.physSectionAdd (subsection id base)
    let d ← d.setPages (base >>> 12) 1 n
    fillSubpage { d with subpages := d.subpages ++ [subpageInit base] } id sec
  | _ => .error .assertion

def registerMultipage (d : AddressSpaceDispatch) (sec : PhysSection) :
    Except DispatchError AddressSpaceDispatch := do
  let startAddr := sec.offsetWithinAddressSpace
  let (n, d) ← d.physSectionAdd sec
  let numPages ← assert64 (sec.size / targetPageSize.toNat)
  if numPages = 0 then .error .assertion
  else d.setPages (startAddr >>> 12) numPages n

/-- The loop of `mem_add`: `nowSize` bytes of `remain` are registered. -/
def memAddLoop : Nat → AddressSpaceDispatch → PhysSection → Int →
    Except DispatchError AddressSpaceDispatch
  | 0, _, _, _ => .error .unfinished
  | turns + 1, d, remain, nowSize =>
    if remain.size = nowSize then .ok d
    else do
      let done ← assert64 nowSize
      let remain := { remain with
        size := remain.size - nowSize
        offsetWithinAddressSpace := remain.offsetWithinAddressSpace + done
        offsetWithinRegion := remain.offsetWithinRegion + done }
      if remain.size < (targetPageSize.toNat : Int) then
        let d ← registerSubpage d remain
        memAddLoop turns d remain remain.size
      else if remain.offsetWithinAddressSpace &&& ~~~targetPageMask ≠ 0 then
        let d ← registerSubpage d { remain with size := targetPageSize.toNat }
        memAddLoop turns d remain targetPageSize.toNat
      else
        -- `int128_and(now.size, int128_neg(page_size))`
        let size := remain.size - remain.size % targetPageSize.toNat
        let d ← registerMultipage d { remain with size }
        memAddLoop turns d remain size

/-- `mem_add`. The loop registers the whole pages and the tail, so it needs three turns. -/
def memAdd (d : AddressSpaceDispatch) (sec : PhysSection) :
    Except DispatchError AddressSpaceDispatch :=
  if sec.offsetWithinAddressSpace &&& ~~~targetPageMask ≠ 0 then do
    let left := targetPageAlign sec.offsetWithinAddressSpace - sec.offsetWithinAddressSpace
    let now := { sec with size := min (left.toNat : Int) sec.size }
    let d ← registerSubpage d now
    memAddLoop 3 d sec now.size
  else memAddLoop 3 d sec 0

def dummySection (mr : PhysRegion) : PhysSection := ⟨mr, 0, 0, 2 ^ 64⟩

def memBegin : AddressSpaceDispatch where
  physMap := .nil
  nodes := ⟨0, 0⟩
  sections := [.unassigned, .notdirty, .rom, .watch].map dummySection
  subpages := []

def memCommit (d : AddressSpaceDispatch) : AddressSpaceDispatch :=
  { d with physMap := physPageCompact d.physMap }

/-- The table that the listener of an address space makes of a flat view. -/
def buildDispatch (space : Nat) (view : FlatView) : Except DispatchError AddressSpaceDispatch := do
  let d ← view.foldlM (fun d fr =>
    match fr.toSection space with
    | some sec => memAdd d sec.phys
    | none => .error .assertion) memBegin
  return memCommit d

/-! ### Pages of addresses -/

def pageOf (addr : UInt64) : Nat := addr.toNat / 4096

theorem pageOf_lt (addr : UInt64) : pageOf addr < physPages := by
  have := addr.toNat_lt
  rw [pageOf, physPages, pL2Levels]
  omega

theorem toNat_shiftPage (addr : UInt64) : (addr >>> 12).toNat = pageOf addr := by
  rw [UInt64.toNat_shiftRight, pageOf, Nat.shiftRight_eq_div_pow]
  rfl

theorem toNat_pageOffset (addr : UInt64) :
    (addr &&& ~~~targetPageMask).toNat = addr.toNat % 4096 := by
  rw [show ~~~targetPageMask = 4095 by decide, UInt64.toNat_and]
  exact Nat.and_two_pow_sub_one_eq_mod addr.toNat 12

theorem toNat_pageBase (addr : UInt64) : (addr &&& targetPageMask).toNat = 4096 * pageOf addr := by
  have whole := congrArg UInt64.toNat (BitWord.and_not_add_and addr (~~~targetPageMask))
  rw [UInt64.not_not, UInt64.toNat_add, toNat_pageOffset] at whole
  have low : (addr &&& targetPageMask).toNat ≤ addr.toNat := by
    rw [UInt64.toNat_and]
    exact Nat.and_le_left
  rw [pageOf]
  omega

theorem pageOffset_eq_zero (addr : UInt64) :
    addr &&& ~~~targetPageMask = 0 ↔ addr.toNat % 4096 = 0 := by
  rw [← UInt64.toNat_inj, toNat_pageOffset]
  rfl

variable {addr : UInt64} {bytes bytes' : UInt64 → Option (Nat × UInt64)} {page : Nat}

theorem toNat_pageLeft (unaligned : addr.toNat % 4096 ≠ 0) :
    (targetPageAlign addr - addr).toNat = 4096 - addr.toNat % 4096 := by
  have := addr.toNat_lt
  have rounded : (addr + targetPageSize - 1).toNat = (addr.toNat + 4095) % 2 ^ 64 := by
    rw [UInt64.toNat_sub, UInt64.toNat_add]
    simp only [targetPageSize, UInt64.reduceToNat]
    omega
  rw [targetPageAlign, UInt64.toNat_sub, toNat_pageBase, pageOf, rounded]
  omega

/-! ### The bytes of a table -/

namespace PhysSection

def Covers (sec : PhysSection) (addr : UInt64) : Prop :=
  sec.offsetWithinAddressSpace.toNat ≤ addr.toNat ∧
    (addr.toNat : Int) < sec.offsetWithinAddressSpace.toNat + sec.size

instance (sec : PhysSection) (addr : UInt64) : Decidable (sec.Covers addr) :=
  inferInstanceAs (Decidable (_ ∧ _))

/-- The section is not empty, ends in the 64-bit space and, for the guest's memory, is no longer
than `limit` allows. -/
structure Proper (limit : Nat → Int) (sec : PhysSection) : Prop where
  nonempty : 0 < sec.size
  high : sec.offsetWithinAddressSpace.toNat + sec.size ≤ 2 ^ 64
  limited : ∀ mr, sec.mr = .memory mr → sec.size ≤ limit mr

def offsetAt (sec : PhysSection) (addr : UInt64) : UInt64 :=
  sec.offsetWithinRegion + (addr - sec.offsetWithinAddressSpace)

/-- The section is what the lookup of an address has to find, for a byte of a region or an address
that is not assigned. -/
def Finds (sec : PhysSection) (addr : UInt64) : Option (Nat × UInt64) → Prop
  | some (mr, offset) => sec.mr = .memory mr ∧ sec.offsetAt addr = offset ∧ sec.Covers addr
  | none => sec = dummySection .unassigned

theorem covers_dummy (mr : PhysRegion) (addr : UInt64) : (dummySection mr).Covers addr := by
  refine ⟨Nat.zero_le _, ?_⟩
  have := addr.toNat_lt
  simp only [dummySection, UInt64.toNat_zero]
  omega

theorem covers_iff {limit : Nat → Int} {sec : PhysSection} (proper : sec.Proper limit)
    (addr : UInt64) :
    (sec.size / 2 ^ 64 ≠ 0 || rangeCoversByte sec.offsetWithinAddressSpace
      (.ofNat (sec.size % 2 ^ 64).toNat) addr) = true ↔ sec.Covers addr := by
  obtain ⟨nonempty, high, -⟩ := proper
  have := addr.toNat_lt
  rw [Covers, Bool.or_eq_true, decide_eq_true_eq]
  by_cases all : sec.size = 2 ^ 64
  · simp only [all]
    omega
  have small : (sec.size % 2 ^ 64).toNat = sec.size.toNat := by omega
  have last : (rangeGetLast sec.offsetWithinAddressSpace (.ofNat sec.size.toNat)).toNat =
      sec.offsetWithinAddressSpace.toNat + sec.size.toNat - 1 := by
    rw [rangeGetLast, UInt64.toNat_sub, UInt64.toNat_add, UInt64.toNat_ofNat']
    simp only [UInt64.reduceToNat]
    omega
  rw [small, rangeCoversByte, Bool.and_eq_true, decide_eq_true_eq, decide_eq_true_eq,
    UInt64.le_iff_toNat_le, UInt64.le_iff_toNat_le, last]
  omega

end PhysSection

/-- What a page with the section number `n` has to hold, by the bytes of the page. -/
inductive PageHolds (sections : List PhysSection) (subpages : List Subpage)
    (bytes : UInt64 → Option (Nat × UInt64)) (page : Nat) : Nat → Prop where
  | empty (unassigned : ∀ addr, pageOf addr = page → bytes addr = none) :
      PageHolds sections subpages bytes page 0
  | whole {n : Nat} {sec : PhysSection} (found : sections[n]? = some sec)
      (assigned : ∀ addr, pageOf addr = page → bytes addr ≠ none ∧ sec.Finds addr (bytes addr)) :
      PageHolds sections subpages bytes page n
  | parts {n id : Nat} {table : Nat → Nat}
      (found : sections[n]? = some ⟨.subpage id, .ofNat (4096 * page), 0, 4096⟩)
      (subpage : subpages[id]? = some ⟨.ofNat (4096 * page), table⟩)
      (used : ∃ addr, pageOf addr = page ∧ bytes addr ≠ none)
      (resolved : ∀ addr, pageOf addr = page → ∃ sec,
        sections[table (addr.toNat % 4096)]? = some sec ∧ sec.Finds addr (bytes addr)) :
      PageHolds sections subpages bytes page n

namespace AddressSpaceDispatch

/-- The tree is well formed, and a section in it covers just the pages that lead to it. -/
structure Placed (limit : Nat → Int) (d : AddressSpaceDispatch) : Prop where
  shaped : Shaped pL2Levels d.physMap
  unassigned : d.sections[0]? = some (dummySection .unassigned)
  proper : ∀ sec ∈ d.sections, sec.Proper limit
  count : d.sections.length ≤ 4096
  nodes : d.nodes.nb ≤ 11 * d.sections.length
  exact : ∀ page < physPages, pageAt pL2Levels d.physMap page ≠ 0 →
    ∃ sec, d.sections[pageAt pL2Levels d.physMap page]? = some sec ∧
      ∀ addr, sec.Covers addr ↔
        pageAt pL2Levels d.physMap (pageOf addr) = pageAt pL2Levels d.physMap page

structure Holds (limit : Nat → Int) (d : AddressSpaceDispatch)
    (bytes : UInt64 → Option (Nat × UInt64)) : Prop where
  placed : d.Placed limit
  pages : ∀ page < physPages,
    PageHolds d.sections d.subpages bytes page (pageAt pL2Levels d.physMap page)

/-! ### Lookups -/

variable {limit : Nat → Int} {d : AddressSpaceDispatch} {bytes : UInt64 → Option (Nat × UInt64)}
  {sec : PhysSection} {addr : UInt64} {ptr n : Nat}

theorem sectionAt_ok (found : d.sections[n]? = some sec) : d.sectionAt n = .ok sec := by
  rw [sectionAt, found]

theorem Placed.physPageFind_eq (placed : d.Placed limit) {physMap : PhysPageEntry}
    (walk : physPageWalk physMap pL2Levels (pageOf addr) = some ptr)
    (found : d.sections[ptr]? = some sec) :
    physPageFind { d with physMap } addr =
      .ok (if sec.Covers addr then sec else dummySection .unassigned) := by
  have covers := sec.covers_iff (placed.proper _ (List.mem_of_getElem? found)) addr
  rw [physPageFind, toNat_shiftPage, walk]
  simp only [@sectionAt_ok { d with physMap } _ _ found, bind, Except.bind]
  by_cases covered : sec.Covers addr
  · rw [if_pos (covers.mpr covered), if_pos covered]
    rfl
  · rw [if_neg (mt covers.mp covered), if_neg covered]
    exact sectionAt_ok placed.unassigned

/-- In a tree that leads to the page's section, or to any where it has none, `phys_page_find`
returns the page's section. -/
theorem Placed.physPageFind_ok (placed : d.Placed limit) {physMap : PhysPageEntry}
    (walk : physPageWalk physMap pL2Levels (pageOf addr) = some ptr)
    (near : ptr = pageAt pL2Levels d.physMap (pageOf addr) ∨
      pageAt pL2Levels d.physMap (pageOf addr) = 0 ∧
        ∃ other, pageAt pL2Levels d.physMap other = ptr)
    (here : d.sections[pageAt pL2Levels d.physMap (pageOf addr)]? = some sec) :
    physPageFind { d with physMap } addr = .ok sec := by
  rcases near with rfl | ⟨unset, other, rfl⟩
  · have covered : sec.Covers addr := by
      by_cases unset : pageAt pL2Levels d.physMap (pageOf addr) = 0
      · rw [unset, placed.unassigned] at here
        cases here
        exact PhysSection.covers_dummy _ addr
      · obtain ⟨reached, found, covers⟩ := placed.exact (pageOf addr) (pageOf_lt addr) unset
        cases found.symm.trans here
        exact (covers addr).mpr rfl
    rw [placed.physPageFind_eq walk here, if_pos covered]
  · rw [unset, placed.unassigned] at here
    cases here
    by_cases none : pageAt pL2Levels d.physMap other = 0
    · rw [placed.physPageFind_eq walk (none ▸ placed.unassigned), ite_self]
    have same : pageAt pL2Levels d.physMap (other % physPages) =
        pageAt pL2Levels d.physMap other := pageAt_congr (Nat.mod_mod _ _)
    rw [← same] at walk none
    obtain ⟨reached, found, covers⟩ := placed.exact (other % physPages)
      (Nat.mod_lt _ (Nat.pow_pos (by decide))) none
    rw [placed.physPageFind_eq walk found, if_neg]
    exact fun covered => none (((covers addr).mp covered).symm.trans unset)

section

variable (placed : d.Placed limit)
  (here : d.sections[pageAt pL2Levels d.physMap (pageOf addr)]? = some sec)
include placed here

theorem Placed.find : d.physPageFind addr = .ok sec :=
  placed.physPageFind_ok (physPageWalk_shaped _ placed.shaped) (.inl rfl) here

theorem Placed.find_memCommit : (memCommit d).physPageFind addr = .ok sec := by
  obtain ⟨ptr, walk, near⟩ := physPageCompact_find (pageOf addr) placed.shaped
  exact placed.physPageFind_ok walk near here

end

theorem Holds.lookup (holds : d.Holds limit bytes) (addr : UInt64) :
    ∃ sec, (memCommit d).addressSpaceLookupRegion addr true = .ok sec ∧
      sec.Finds addr (bytes addr) ∧ sec.Proper limit := by
  have page := holds.pages (pageOf addr) (pageOf_lt addr)
  have proper := holds.placed.proper
  generalize number : pageAt pL2Levels d.physMap (pageOf addr) = n at page
  cases page with
  | empty unassigned =>
    refine ⟨dummySection .unassigned, ?_, ?_,
      proper _ (List.mem_of_getElem? holds.placed.unassigned)⟩
    · rw [addressSpaceLookupRegion, holds.placed.find_memCommit
        (number ▸ holds.placed.unassigned)]
      rfl
    · rw [unassigned addr rfl]
      rfl
  | @whole _ sec found assigned =>
    obtain ⟨isAssigned, finds⟩ := assigned addr rfl
    refine ⟨sec, ?_, finds, proper _ (List.mem_of_getElem? found)⟩
    obtain ⟨⟨mr, offset⟩, hit⟩ := Option.ne_none_iff_exists'.mp isAssigned
    rw [hit] at finds
    rw [addressSpaceLookupRegion, holds.placed.find_memCommit (number ▸ found)]
    simp only [bind, Except.bind, finds.1]
    rfl
  | parts found subpage used resolved =>
    obtain ⟨sec, inTable, finds⟩ := resolved addr rfl
    refine ⟨sec, ?_, finds, proper _ (List.mem_of_getElem? inTable)⟩
    rw [addressSpaceLookupRegion, holds.placed.find_memCommit (number ▸ found)]
    simp only [bind, Except.bind, memCommit, subpage, toNat_pageOffset]
    exact sectionAt_ok inTable

/-! ### Adding sections -/

theorem getElem?_snoc {α : Type} {items : List α} {item last : α} (found : items[n]? = some item) :
    (items ++ [last])[n]? = some item := by
  rw [List.getElem?_append_left (List.getElem?_eq_some_iff.mp found).1, found]

theorem physSectionAdd_ok (room : d.sections.length < 4096) (sec : PhysSection) :
    d.physSectionAdd sec = .ok (d.sections.length, { d with sections := d.sections ++ [sec] }) :=
  if_pos room

theorem physSectionAdd_full (full : ¬ d.sections.length < 4096) (sec : PhysSection) :
    d.physSectionAdd sec = .error .sectionsFull :=
  if_neg full

theorem Placed.add (placed : d.Placed limit) (proper : sec.Proper limit)
    (room : d.sections.length < 4096)
    (subpages : List Subpage) :
    Placed limit { d with sections := d.sections ++ [sec], subpages } where
  shaped := placed.shaped
  unassigned := getElem?_snoc placed.unassigned
  proper := List.forall_mem_append.mpr ⟨placed.proper, List.forall_mem_singleton.mpr proper⟩
  count := by
    rw [List.length_append]
    exact room
  nodes := by
    have := placed.nodes
    simp only [List.length_append, List.length_singleton]
    omega
  exact := fun page inside assigned => by
    obtain ⟨sec, found, covers⟩ := placed.exact page inside assigned
    exact ⟨sec, getElem?_snoc found, covers⟩

theorem Placed.withSubpages (placed : d.Placed limit) (subpages : List Subpage) :
    Placed limit { d with subpages } :=
  { placed with }

theorem Placed.pageAt_lt (placed : d.Placed limit) (inside : page < physPages) :
    pageAt pL2Levels d.physMap page < d.sections.length := by
  by_cases assigned : pageAt pL2Levels d.physMap page = 0
  · rw [assigned]
    exact (List.getElem?_eq_some_iff.mp placed.unassigned).1
  · obtain ⟨sec, found, -⟩ := placed.exact page inside assigned
    exact (List.getElem?_eq_some_iff.mp found).1

theorem Placed.place (placed : d.Placed limit) (proper : sec.Proper limit) {index nb : UInt64}
    {first count : Nat} (first_eq : index.toNat = first) (count_eq : nb.toNat = count)
    (more : 0 < count) (inside : first + count ≤ physPages)
    (covers : ∀ addr, sec.Covers addr ↔ first ≤ pageOf addr ∧ pageOf addr < first + count)
    (free : ∀ page, first ≤ page → page < first + count → pageAt pL2Levels d.physMap page = 0)
    (room : d.sections.length < 4096) :
    ∃ d', setPages { d with sections := d.sections ++ [sec] } index nb d.sections.length = .ok d' ∧
      d'.Placed limit ∧ d'.sections = d.sections ++ [sec] ∧ d'.subpages = d.subpages ∧
      ∀ page < physPages, pageAt pL2Levels d'.physMap page =
        paintPages first (first + count) d.sections.length (pageAt pL2Levels d.physMap) page := by
  subst first_eq count_eq
  have fresh : d.sections.length ≠ 0 :=
    Nat.pos_iff_ne_zero.mp (List.getElem?_eq_some_iff.mp placed.unassigned).1
  have nodesRoom : d.nodes.nb + 11 ≤ physMapNodeNil := by
    have := placed.nodes
    rw [physMapNodeNil]
    omega
  obtain ⟨nodes, physMap, result, shaped, used, pages⟩ :=
    physPageSet_ok fresh placed.shaped more inside free nodesRoom
  refine ⟨{ d with sections := d.sections ++ [sec], nodes, physMap }, by rw [setPages, result], ?_,
    rfl, rfl, pages⟩
  have added := placed.add proper room d.subpages
  refine ⟨shaped, added.unassigned, added.proper, added.count, ?_, fun page small assigned => ?_⟩
  · have := placed.nodes
    simp only [List.length_append, List.length_singleton]
    omega
  dsimp only at assigned ⊢
  rw [pages page small, paintPages] at assigned ⊢
  split at assigned
  next onPage =>
    rw [if_pos onPage]
    refine ⟨sec, by simp, fun addr => ?_⟩
    rw [pages _ (pageOf_lt addr), paintPages, covers]
    split
    next covered => exact iff_of_true covered rfl
    next uncovered => exact iff_of_false uncovered (placed.pageAt_lt (pageOf_lt addr)).ne
  next offPage =>
    rw [if_neg offPage]
    obtain ⟨other, found, otherCovers⟩ := placed.exact page small assigned
    refine ⟨other, getElem?_snoc found, fun addr => ?_⟩
    rw [pages _ (pageOf_lt addr), paintPages, otherCovers]
    split
    next onPage =>
      rw [free _ onPage.1 onPage.2]
      exact iff_of_false (Ne.symm assigned) (placed.pageAt_lt small).ne'
    · exact Iff.rfl

theorem Holds.pageAt_eq_zero (holds : d.Holds limit bytes) (addr : UInt64)
    (free : ∀ other, pageOf other = pageOf addr → bytes other = none) :
    pageAt pL2Levels d.physMap (pageOf addr) = 0 := by
  have page := holds.pages (pageOf addr) (pageOf_lt addr)
  generalize pageAt pL2Levels d.physMap (pageOf addr) = n at page
  cases page with
  | empty => rfl
  | whole found assigned => exact absurd (free addr rfl) (assigned addr rfl).1
  | parts found subpage used resolved =>
    obtain ⟨other, same, assigned⟩ := used
    exact absurd (free other same) assigned

end AddressSpaceDispatch

/-! ### Registering -/

open PhysSection

open AddressSpaceDispatch

/-- The bytes with those of a section of the guest's memory over them. -/
def PhysSection.over (sec : PhysSection) (mr : Nat) (bytes : UInt64 → Option (Nat × UInt64))
    (addr : UInt64) : Option (Nat × UInt64) :=
  if sec.Covers addr then some (mr, sec.offsetAt addr) else bytes addr

/-- A registration adds the bytes, or finds the table of sections full. -/
def Registers (limit : Nat → Int) (result : Except DispatchError AddressSpaceDispatch)
    (bytes : UInt64 → Option (Nat × UInt64)) : Prop :=
  result = .error .sectionsFull ∨ ∃ d, result = .ok d ∧ d.Holds limit bytes

theorem Registers.bind {limit : Nat → Int} {result : Except DispatchError AddressSpaceDispatch}
    {rest : AddressSpaceDispatch → Except DispatchError AddressSpaceDispatch}
    (registers : Registers limit result bytes)
    (later : ∀ d, d.Holds limit bytes → Registers limit (rest d) bytes') :
    Registers limit (result >>= rest) bytes' := by
  rcases registers with rfl | ⟨d, rfl, holds⟩
  · exact .inl rfl
  · exact later d holds

/-- A page keeps what it holds where sections are added, and its subpage and its bytes stay. -/
theorem PageHolds.frame {sections sections' : List PhysSection} {subpages subpages' : List Subpage}
    {n : Nat} (holds : PageHolds sections subpages bytes page n)
    (extended : ∀ {k : Nat} {sec : PhysSection}, sections[k]? = some sec → sections'[k]? = some sec)
    (kept : ∀ {id : Nat} {subpage : Subpage} {addr : UInt64}, subpages[id]? = some subpage → pageOf
      addr = page → subpage.base = .ofNat (4096 * page) → subpages'[id]? = some subpage)
    (same : ∀ addr, pageOf addr = page → bytes' addr = bytes addr) :
    PageHolds sections' subpages' bytes' page n := by
  cases holds with
  | empty unassigned => exact .empty fun addr here => (same addr here).trans (unassigned addr here)
  | whole found assigned =>
    refine .whole (extended found) fun addr here => ?_
    rw [same addr here]
    exact assigned addr here
  | parts found subpage used resolved =>
    obtain ⟨user, userHere, isUsed⟩ := used
    refine .parts (extended found) (kept subpage userHere rfl)
      ⟨user, userHere, (same user userHere).symm ▸ isUsed⟩ fun addr here => ?_
    obtain ⟨sec, inTable, finds⟩ := resolved addr here
    exact ⟨sec, extended inTable, (same addr here).symm ▸ finds⟩

section Register

variable {limit : Nat → Int} {d : AddressSpaceDispatch} {bytes : UInt64 → Option (Nat × UInt64)}
  {sec : PhysSection} {mr id : Nat} {table : Nat → Nat} {base : UInt64}

theorem assert64_ok {value : Int} (low : 0 ≤ value) (high : value < 2 ^ 64) :
    assert64 value = .ok (.ofNat value.toNat) := by
  rw [assert64, int128Get64, if_pos ⟨low, high⟩]

theorem registerMultipage_ok (holds : d.Holds limit bytes) (region : sec.mr = .memory mr)
    (proper : sec.Proper limit) (aligned : sec.offsetWithinAddressSpace.toNat % 4096 = 0)
    (whole : sec.size % 4096 = 0) (free : ∀ addr, sec.Covers addr → bytes addr = none) :
    Registers limit (registerMultipage d sec) (sec.over mr bytes) := by
  by_cases room : d.sections.length < 4096
  swap
  · left
    rw [registerMultipage, physSectionAdd_full room]
    rfl
  right
  have ⟨nonempty, high, _⟩ := proper
  have numPages : assert64 (sec.size / targetPageSize.toNat) =
      .ok (.ofNat (sec.size / 4096).toNat) :=
    assert64_ok (show 0 ≤ sec.size / 4096 by omega) (show sec.size / 4096 < 2 ^ 64 by omega)
  have nb : (UInt64.ofNat (sec.size / 4096).toNat).toNat = (sec.size / 4096).toNat := by
    rw [UInt64.toNat_ofNat']
    omega
  have index := toNat_shiftPage sec.offsetWithinAddressSpace
  have first_eq : pageOf sec.offsetWithinAddressSpace * 4096 =
      sec.offsetWithinAddressSpace.toNat := by
    rw [pageOf]
    omega
  generalize pageOf sec.offsetWithinAddressSpace = first at index first_eq
  have covers (addr : UInt64) : sec.Covers addr ↔
      first ≤ pageOf addr ∧ pageOf addr < first + (sec.size / 4096).toNat := by
    rw [Covers, pageOf]
    omega
  have unset (page : Nat) (after : first ≤ page) (before : page < first + (sec.size / 4096).toNat) :
      pageAt pL2Levels d.physMap page = 0 := by
    have start : pageOf (.ofNat (4096 * page)) = page := by
      rw [pageOf, UInt64.toNat_ofNat']
      omega
    rw [← start]
    refine holds.pageAt_eq_zero _ fun other same => free other ((covers other).mpr ?_)
    rw [same, start]
    exact ⟨after, before⟩
  have inside : first + (sec.size / 4096).toNat ≤ physPages := by
    rw [physPages, pL2Levels]
    omega
  obtain ⟨d', result, placed, sections, subpages, pages⟩ :=
    holds.placed.place proper index nb (by omega) inside covers unset room
  refine ⟨d', ?_, placed, fun page small => ?_⟩
  · rw [registerMultipage, physSectionAdd_ok room]
    simp only [bind, Except.bind, numPages]
    rw [if_neg, result]
    rw [← UInt64.toNat_inj, nb, UInt64.toNat_zero]
    omega
  rw [pages page small, sections, subpages, paintPages]
  split
  next onPage =>
    refine .whole List.getElem?_concat_length fun addr here => ?_
    have covered := (covers addr).mpr (here ▸ onPage)
    rw [PhysSection.over, if_pos covered]
    exact ⟨Option.some_ne_none _, region, rfl, covered⟩
  next offPage =>
    refine (holds.pages page small).frame getElem?_snoc
      (fun found _ _ => found) fun addr here => ?_
    rw [PhysSection.over, if_neg]
    rwa [covers, here]

theorem subpageRegister_eq {start stop : UInt64} {leaf : Nat} (low : start.toNat < 4096)
    (high : stop.toNat < 4096) :
    subpageRegister ⟨base, table⟩ start.toUInt32 stop.toUInt32 leaf =
      ⟨base, fun i => if start.toNat ≤ i ∧ i ≤ stop.toNat then leaf else table i⟩ := by
  have start_eq : start.toUInt32.toNat = start.toNat := by
    rw [UInt64.toNat_toUInt32]
    omega
  have stop_eq : stop.toUInt32.toNat = stop.toNat := by
    rw [UInt64.toNat_toUInt32]
    omega
  have size_eq : targetPageSize.toUInt32.toNat = 4096 := rfl
  rw [subpageRegister, if_neg]
  · simp only [start_eq, stop_eq]
  · simp only [Bool.or_eq_true, decide_eq_true_eq, UInt32.le_iff_toNat_le, start_eq, stop_eq,
      size_eq]
    omega

structure InPage (sec : PhysSection) : Prop where
  nonempty : 0 < sec.size
  short : sec.offsetWithinAddressSpace.toNat % 4096 + sec.size ≤ 4096

theorem InPage.covers (inPage : InPage sec) (addr : UInt64) : sec.Covers addr ↔
    pageOf addr = pageOf sec.offsetWithinAddressSpace ∧
      sec.offsetWithinAddressSpace.toNat % 4096 ≤ addr.toNat % 4096 ∧
        (addr.toNat % 4096 : Int) < sec.offsetWithinAddressSpace.toNat % 4096 + sec.size := by
  obtain ⟨nonempty, short⟩ := inPage
  rw [Covers, pageOf, pageOf]
  omega

theorem fillSubpage_eq (inPage : InPage sec) (room : d.sections.length < 4096)
    (subpage : d.subpages[id]? = some ⟨base, table⟩) :
    ∃ subpages, fillSubpage d id sec = .ok { d with sections := d.sections ++ [sec], subpages } ∧
      subpages[id]? = some ⟨base, fun i =>
        if sec.offsetWithinAddressSpace.toNat % 4096 ≤ i ∧
          i ≤ sec.offsetWithinAddressSpace.toNat % 4096 + sec.size.toNat - 1 then d.sections.length
        else table i⟩ ∧
      ∀ other ≠ id, subpages[other]? = d.subpages[other]? := by
  obtain ⟨nonempty, short⟩ := inPage
  have size : assert64 sec.size = .ok (.ofNat sec.size.toNat) := assert64_ok (by omega) (by omega)
  have start := toNat_pageOffset sec.offsetWithinAddressSpace
  have stop : ((sec.offsetWithinAddressSpace &&& ~~~targetPageMask) +
      UInt64.ofNat sec.size.toNat - 1).toNat =
        sec.offsetWithinAddressSpace.toNat % 4096 + sec.size.toNat - 1 := by
    rw [UInt64.toNat_sub, UInt64.toNat_add, start, UInt64.toNat_ofNat']
    simp only [UInt64.reduceToNat]
    omega
  refine ⟨d.subpages.modify id fun subpage => subpageRegister subpage
    (sec.offsetWithinAddressSpace &&& ~~~targetPageMask).toUInt32
    ((sec.offsetWithinAddressSpace &&& ~~~targetPageMask) +
      UInt64.ofNat sec.size.toNat - 1).toUInt32 d.sections.length,
    ?_, ?_, fun other different => ?_⟩
  · rw [fillSubpage, size]
    simp only [bind, Except.bind, physSectionAdd_ok room]
    rfl
  · rw [List.getElem?_modify, subpage, ← stop, ← start]
    exact congrArg some ((if_pos rfl).trans (subpageRegister_eq (by omega) (by omega)))
  · exact List.getElem?_modify_ne _ _ different.symm

theorem fillSubpage_ok (placed : d.Placed limit) (region : sec.mr = .memory mr)
    (proper : sec.Proper limit) (inPage : InPage sec)
    (page_eq : pageOf sec.offsetWithinAddressSpace = page)
    (others : ∀ other < physPages, other ≠ page → PageHolds d.sections d.subpages bytes other
      (pageAt pL2Levels d.physMap other))
    (found : d.sections[pageAt pL2Levels d.physMap page]? = some ⟨.subpage id, .ofNat (4096 * page),
      0, 4096⟩) (subpage : d.subpages[id]? = some ⟨.ofNat (4096 * page), table⟩)
    (resolved : ∀ addr, pageOf addr = page → ∃ sec, d.sections[table (addr.toNat % 4096)]? = some
      sec ∧ sec.Finds addr (bytes addr)) :
    Registers limit (fillSubpage d id sec) (sec.over mr bytes) := by
  have ⟨nonempty, short⟩ := inPage
  have covers := inPage.covers
  by_cases room : d.sections.length < 4096
  swap
  · left
    rw [fillSubpage, assert64_ok (by omega) (by omega)]
    simp only [bind, Except.bind, physSectionAdd_full room]
  right
  obtain ⟨subpages, filled, registered, kept⟩ := fillSubpage_eq inPage room subpage
  refine ⟨_, filled, placed.add proper room _, fun other small => ?_⟩
  by_cases here : other = page
  · subst here
    refine .parts (getElem?_snoc found) registered
      ⟨sec.offsetWithinAddressSpace, page_eq, ?_⟩ fun addr inside => ?_
    · rw [PhysSection.over, if_pos ((covers _).mpr ⟨rfl, le_rfl, by omega⟩)]
      exact nofun
    by_cases covered : sec.Covers addr
    · have ⟨_, after, before⟩ := (covers addr).mp covered
      rw [PhysSection.over, if_pos covered, if_pos ⟨after, by omega⟩]
      exact ⟨sec, List.getElem?_concat_length, region, rfl, covered⟩
    · rw [PhysSection.over, if_neg covered, if_neg]
      · obtain ⟨sec, inTable, finds⟩ := resolved addr inside
        exact ⟨sec, getElem?_snoc inTable, finds⟩
      · rw [covers] at covered
        omega
  · refine (others other small here).frame getElem?_snoc ?_
      fun addr inside => ?_
    · intro otherId otherSubpage addr otherFound inside base
      -- a subpage has its page's address, so it is not the one that is filled
      have different : otherId ≠ id := by
        rintro rfl
        obtain rfl := Option.some.inj (subpage.symm.trans otherFound)
        have same := congrArg UInt64.toNat base
        rw [UInt64.toNat_ofNat', UInt64.toNat_ofNat'] at same
        have := addr.toNat_lt
        have := sec.offsetWithinAddressSpace.toNat_lt
        rw [pageOf] at inside page_eq
        omega
      rw [kept otherId different, otherFound]
    · rw [PhysSection.over, if_neg]
      intro covered
      exact here (inside.symm.trans (((covers addr).mp covered).1.trans page_eq))

theorem subpageInit_eq (base : UInt64) : subpageInit base = ⟨base, fun _ => 0⟩ := by
  rw [subpageInit, subpageRegister, if_neg (by decide)]
  simp only [ite_self]

theorem covers_subsection (addr other : UInt64) :
    (subsection id (addr &&& targetPageMask)).Covers other ↔ pageOf other = pageOf addr := by
  have size : targetPageSize.toNat = 4096 := rfl
  simp only [Covers, subsection, toNat_pageBase, size, pageOf]
  omega

theorem proper_subsection {id : Nat} (addr : UInt64) :
    (subsection id (addr &&& targetPageMask)).Proper limit := by
  have size : targetPageSize.toNat = 4096 := rfl
  have := addr.toNat_lt
  refine ⟨?_, ?_, nofun⟩
  · simp only [subsection, size]
    omega
  · simp only [subsection, toNat_pageBase, size, pageOf]
    omega

theorem placeSubpage_ok (id : Nat) (placed : d.Placed limit) (room : d.sections.length < 4096)
    (addr : UInt64) (unset : pageAt pL2Levels d.physMap (pageOf addr) = 0) :
    ∃ d', setPages
        { d with sections := d.sections ++ [subsection id (addr &&& targetPageMask)] }
        ((addr &&& targetPageMask) >>> 12) 1 d.sections.length = .ok d' ∧ d'.Placed limit ∧
      d'.sections = d.sections ++ [subsection id (addr &&& targetPageMask)] ∧
      d'.subpages = d.subpages ∧
      pageAt pL2Levels d'.physMap (pageOf addr) = d.sections.length ∧
      ∀ other < physPages, other ≠ pageOf addr →
        pageAt pL2Levels d'.physMap other = pageAt pL2Levels d.physMap other := by
  have index : ((addr &&& targetPageMask) >>> 12).toNat = pageOf addr := by
    rw [toNat_shiftPage, pageOf, toNat_pageBase, Nat.mul_div_cancel_left _ (by decide)]
  have onlyHere (page : Nat) : (pageOf addr ≤ page ∧ page < pageOf addr + 1) ↔
      page = pageOf addr := by
    omega
  obtain ⟨d', result, placed', sections, subpages, pages⟩ := placed.place
    (@proper_subsection limit id addr) index UInt64.toNat_one Nat.one_pos (pageOf_lt addr)
    (fun other => (covers_subsection addr other).trans (onlyHere _).symm)
    (fun page after before => (onlyHere page).mp ⟨after, before⟩ ▸ unset) room
  refine ⟨d', result, placed', sections, subpages, ?_, fun other small different => ?_⟩
  · rw [pages _ (pageOf_lt addr), paintPages, if_pos ((onlyHere _).mpr rfl)]
  · rw [pages other small, paintPages, if_neg (mt (onlyHere other).mp different)]

theorem registerSubpage_ok (holds : d.Holds limit bytes) (region : sec.mr = .memory mr)
    (proper : sec.Proper limit) (inPage : InPage sec)
    (free : ∀ addr, sec.Covers addr → bytes addr = none) :
    Registers limit (registerSubpage d sec) (sec.over mr bytes) := by
  have base_eq : sec.offsetWithinAddressSpace &&& targetPageMask =
      .ofNat (4096 * pageOf sec.offsetWithinAddressSpace) := by
    rw [← toNat_pageBase, UInt64.ofNat_toNat]
  have basePage : pageOf (sec.offsetWithinAddressSpace &&& targetPageMask) =
      pageOf sec.offsetWithinAddressSpace := by
    rw [pageOf, toNat_pageBase, Nat.mul_div_cancel_left _ (by decide)]
  have first : bytes sec.offsetWithinAddressSpace = none :=
    free _ ⟨le_rfl, by have := inPage.nonempty; omega⟩
  have page := holds.pages _ (pageOf_lt sec.offsetWithinAddressSpace)
  generalize number : pageAt pL2Levels d.physMap (pageOf sec.offsetWithinAddressSpace) = n at page
  cases page with
  | empty unassigned =>
    have found : d.physPageFind (sec.offsetWithinAddressSpace &&& targetPageMask) =
        .ok (dummySection .unassigned) :=
      holds.placed.find (by rw [basePage, number]; exact holds.placed.unassigned)
    by_cases room : d.sections.length < 4096
    swap
    · left
      rw [registerSubpage, found]
      simp only [bind, Except.bind, dummySection, physSectionAdd_full room]
    obtain ⟨d', result, placed, sections, subpages, here, elsewhere⟩ :=
      placeSubpage_ok d.subpages.length holds.placed room sec.offsetWithinAddressSpace number
    rw [registerSubpage, found]
    simp only [bind, Except.bind, dummySection, physSectionAdd_ok room, result]
    have subpage : (d'.subpages ++ [subpageInit (sec.offsetWithinAddressSpace &&&
        targetPageMask)])[d.subpages.length]? =
          some ⟨.ofNat (4096 * pageOf sec.offsetWithinAddressSpace), fun _ => 0⟩ := by
      rw [subpages, subpageInit_eq, base_eq]
      exact List.getElem?_concat_length
    refine fillSubpage_ok (placed.withSubpages _) region proper inPage rfl
      (fun other small different => ?_) ?_ subpage fun addr inside => ?_
    · dsimp only
      rw [elsewhere other small different, sections, subpages]
      exact (holds.pages other small).frame getElem?_snoc
        (fun known _ _ => getElem?_snoc known) fun _ _ => rfl
    · dsimp only
      rw [here, sections, base_eq]
      exact List.getElem?_concat_length
    · refine ⟨dummySection .unassigned, placed.unassigned, ?_⟩
      rw [unassigned addr inside]
      rfl
  | whole found assigned => exact absurd first (assigned _ rfl).1
  | parts found subpage used resolved =>
    have existing : d.physPageFind (sec.offsetWithinAddressSpace &&& targetPageMask) = .ok _ :=
      holds.placed.find (by rw [basePage, number]; exact found)
    rw [registerSubpage, existing]
    exact fillSubpage_ok holds.placed region proper inPage rfl
      (fun other small _ => holds.pages other small)
      (number.symm ▸ found) subpage resolved

end Register

/-! ### A range in pieces -/

namespace PhysSection

def take (sec : PhysSection) (count : Int) : PhysSection := { sec with size := count }

/-- What `mem_add` leaves of a section once `count` bytes are registered. -/
def drop (sec : PhysSection) (count : Int) : PhysSection :=
  { sec with
    size := sec.size - count
    offsetWithinAddressSpace := sec.offsetWithinAddressSpace + .ofNat count.toNat
    offsetWithinRegion := sec.offsetWithinRegion + .ofNat count.toNat }

variable {limit : Nat → Int} {sec : PhysSection} {count : Int}

theorem drop_zero : sec.drop 0 = sec := by
  simp [drop]

section

variable (proper : sec.Proper limit)
include proper

theorem toNat_drop (low : 0 ≤ count) (high : count < sec.size) :
    ((sec.drop count).offsetWithinAddressSpace.toNat : Int) =
      sec.offsetWithinAddressSpace.toNat + count := by
  have := proper.high
  rw [drop, UInt64.toNat_add, UInt64.toNat_ofNat']
  omega

theorem Proper.drop (low : 0 ≤ count) (high : count < sec.size) :
    (sec.drop count).Proper limit := by
  have := proper.high
  have start := toNat_drop proper low high
  refine ⟨?_, ?_, fun mr region => ?_⟩
  · simp only [PhysSection.drop]
    omega
  · rw [start]
    simp only [PhysSection.drop]
    omega
  · have := proper.limited mr region
    simp only [PhysSection.drop]
    omega

theorem Proper.take (low : 0 < count) (high : count ≤ sec.size) :
    (sec.take count).Proper limit := by
  have := proper.high
  refine ⟨low, ?_, fun mr region => high.trans (proper.limited mr region)⟩
  simp only [PhysSection.take]
  omega

theorem covers_drop (low : 0 ≤ count) (high : count < sec.size)
    (addr : UInt64) : (sec.drop count).Covers addr ↔
      sec.Covers addr ∧ ¬ (sec.take count).Covers addr := by
  have start := toNat_drop proper low high
  simp only [Covers, take, start, ← Int.ofNat_le]
  simp only [drop]
  omega

end

theorem covers_take (high : count ≤ sec.size) {addr : UInt64}
    (covers : (sec.take count).Covers addr) :
    sec.Covers addr := by
  obtain ⟨after, before⟩ := covers
  simp only [take] at after before
  exact ⟨after, by omega⟩

theorem over_drop (proper : sec.Proper limit) (low : 0 ≤ count) (high : count < sec.size) (mr : Nat)
    (bytes : UInt64 → Option (Nat × UInt64)) :
    (sec.drop count).over mr ((sec.take count).over mr bytes) = sec.over mr bytes := by
  funext addr
  have offset : (sec.drop count).offsetAt addr = sec.offsetAt addr := by
    simp only [offsetAt, drop]
    grind
  have inSection := @covers_take sec count high.le addr
  simp only [PhysSection.over, covers_drop proper low high, offset]
  by_cases first : (sec.take count).Covers addr
  · rw [if_neg (fun both => both.2 first), if_pos first, if_pos (inSection first)]
    rfl
  · simp only [if_neg first, and_iff_left first]

end PhysSection

section MemAdd

variable {limit : Nat → Int} {d : AddressSpaceDispatch}
  {bytes : UInt64 → Option (Nat × UInt64)} {sec remain : PhysSection} {mr turns : Nat}
  {nowSize : Int}

theorem memAddLoop_done : memAddLoop (turns + 1) d remain remain.size = .ok d := if_pos rfl

theorem memAddLoop_turn (more : remain.size ≠ nowSize) (low : 0 ≤ nowSize)
    (high : nowSize < 2 ^ 64) :
    memAddLoop (turns + 1) d remain nowSize =
      let rest := remain.drop nowSize
      if rest.size < 4096 then
        registerSubpage d rest >>= fun d => memAddLoop turns d rest rest.size
      else if rest.offsetWithinAddressSpace &&& ~~~targetPageMask ≠ 0 then
        registerSubpage d (rest.take 4096) >>= fun d => memAddLoop turns d rest 4096
      else
        registerMultipage d (rest.take (rest.size - rest.size % 4096)) >>= fun d =>
          memAddLoop turns d rest (rest.size - rest.size % 4096) := by
  rw [memAddLoop, if_neg more, assert64_ok low high]
  rfl

theorem Registers.pieces {count : Int} (proper : sec.Proper limit) (low : 0 ≤ count)
    (high : count < sec.size) (free : ∀ addr, sec.Covers addr → bytes addr = none)
    {first : Except DispatchError AddressSpaceDispatch}
    {rest : AddressSpaceDispatch → Except DispatchError AddressSpaceDispatch}
    (registers : Registers limit first ((sec.take count).over mr bytes))
    (later : ∀ d bytes, d.Holds limit bytes →
      (∀ addr, (sec.drop count).Covers addr → bytes addr = none) →
      Registers limit (rest d) ((sec.drop count).over mr bytes)) :
    Registers limit (first >>= rest) (sec.over mr bytes) := by
  rw [← over_drop proper low high]
  refine registers.bind fun d holds => later d _ holds fun addr covered => ?_
  obtain ⟨inSection, notFirst⟩ := (covers_drop proper low high addr).mp covered
  rw [PhysSection.over, if_neg notFirst]
  exact free addr inSection

section

variable (holds : d.Holds limit bytes) (region : remain.mr = .memory mr)
  (proper : remain.Proper limit) (low : 0 ≤ nowSize) (high : nowSize < remain.size)
  (aligned : (remain.drop nowSize).offsetWithinAddressSpace.toNat % 4096 = 0)
include holds region proper low high aligned

/-- A last part of less than a page, from a page boundary on. -/
theorem memAddLoop_tail (short : (remain.drop nowSize).size < 4096)
    (free : ∀ addr, (remain.drop nowSize).Covers addr → bytes addr = none) :
    Registers limit (memAddLoop (turns + 2) d remain nowSize)
      ((remain.drop nowSize).over mr bytes) := by
  have := proper.high
  rw [memAddLoop_turn (by omega) low (by omega)]
  simp only [if_pos short]
  have restProper := proper.drop low high
  exact (registerSubpage_ok holds (show (remain.drop nowSize).mr = .memory mr from region)
    restProper ⟨restProper.nonempty, by omega⟩ free).bind fun d holds =>
      .inr ⟨d, memAddLoop_done, holds⟩

/-- The whole pages and the last part, from a page boundary on. -/
theorem memAddLoop_aligned (free : ∀ addr, (remain.drop nowSize).Covers addr → bytes addr = none) :
    Registers limit (memAddLoop 3 d remain nowSize) ((remain.drop nowSize).over mr bytes) := by
  by_cases short : (remain.drop nowSize).size < 4096
  · exact memAddLoop_tail holds region proper low high aligned short free
  have := proper.high
  have restProper := proper.drop low high
  rw [memAddLoop_turn (by omega) low (by omega)]
  simp only [if_neg short]
  rw [if_neg (by rw [not_not, pageOffset_eq_zero]; exact aligned)]
  have restRegion : (remain.drop nowSize).mr = .memory mr := region
  generalize remain.drop nowSize = rest at *
  have multipage : Registers limit (registerMultipage d (rest.take (rest.size - rest.size % 4096)))
      ((rest.take (rest.size - rest.size % 4096)).over mr bytes) := by
    refine registerMultipage_ok holds restRegion (restProper.take (by omega) (by omega)) aligned ?_
      fun addr covered => free addr (covers_take (by omega) covered)
    simp only [PhysSection.take]
    omega
  by_cases whole : rest.size % 4096 = 0
  · rw [whole, Int.sub_zero] at multipage ⊢
    exact multipage.bind fun d holds => .inr ⟨d, memAddLoop_done, holds⟩
  have cutLow : 0 ≤ rest.size - rest.size % 4096 := by omega
  have cutHigh : rest.size - rest.size % 4096 < rest.size := by omega
  refine multipage.pieces restProper cutLow cutHigh free fun d bytes holds free => ?_
  have start := toNat_drop restProper cutLow cutHigh
  refine memAddLoop_tail holds restRegion restProper cutLow cutHigh (by omega) ?_ free
  simp only [PhysSection.drop]
  omega

end

theorem memAdd_ok (holds : d.Holds limit bytes) (region : sec.mr = .memory mr)
    (proper : sec.Proper limit)
    (free : ∀ addr, sec.Covers addr → bytes addr = none) :
    Registers limit (memAdd d sec) (sec.over mr bytes) := by
  have ⟨nonempty, high, _⟩ := proper
  rw [memAdd]
  split
  next unaligned =>
    rw [ne_eq, pageOffset_eq_zero] at unaligned
    have left : (targetPageAlign sec.offsetWithinAddressSpace -
        sec.offsetWithinAddressSpace).toNat = 4096 - sec.offsetWithinAddressSpace.toNat % 4096 :=
      toNat_pageLeft unaligned
    simp only [left]
    generalize cut_eq : min ((4096 - sec.offsetWithinAddressSpace.toNat % 4096 : Nat) : Int)
      sec.size = cut
    have head : Registers limit (registerSubpage d (sec.take cut))
        ((sec.take cut).over mr bytes) := by
      refine registerSubpage_ok holds region (proper.take (by omega) (by omega)) ⟨?_, ?_⟩
        fun addr covered => free addr (covers_take (by omega) covered)
      all_goals simp only [PhysSection.take]
      all_goals omega
    by_cases all : cut = sec.size
    · rw [all] at head ⊢
      exact head.bind fun d holds => .inr ⟨d, memAddLoop_done, holds⟩
    have cutLow : 0 ≤ cut := by omega
    have cutHigh : cut < sec.size := by omega
    refine head.pieces proper cutLow cutHigh free fun d bytes holds free => ?_
    have start := toNat_drop proper cutLow cutHigh
    exact memAddLoop_aligned holds region proper cutLow cutHigh (by omega) free
  next aligned =>
    rw [not_not, pageOffset_eq_zero] at aligned
    have registers := memAddLoop_aligned holds region proper le_rfl nonempty
      (drop_zero.symm ▸ aligned) (drop_zero.symm ▸ free)
    rwa [drop_zero] at registers

end MemAdd

/-! ### A flat view -/

/-- The region of the guest's memory that a flat view has at an address, and the offset in
it. -/
def FlatView.byteAt (view : FlatView) (addr : UInt64) : Option (Nat × UInt64) :=
  (view.find? fun fr => fr.addr.contains addr.toNat).map fun fr =>
    (fr.mr, fr.offsetInRegion + (addr - .ofNat fr.addr.start.toNat))

theorem FlatView.byteAt_cons (fr : FlatRange) (view : FlatView) (addr : UInt64) :
    FlatView.byteAt (fr :: view) addr =
      if fr.addr.contains addr.toNat then
        some (fr.mr, fr.offsetInRegion + (addr - .ofNat fr.addr.start.toNat))
      else view.byteAt addr := by
  rw [FlatView.byteAt, List.find?_cons]
  split <;> simp_all [FlatView.byteAt]

theorem OrderedFrom.byteAt_below {view : FlatView} {lower : Int} (ordered : OrderedFrom lower view)
    (below : (addr.toNat : Int) < lower) : view.byteAt addr = none := by
  rw [FlatView.byteAt, Option.map_eq_none_iff, List.find?_eq_none]
  intro fr member contains
  have := (ordered.bounds fr member).1
  rw [AddrRange.contains_iff] at contains
  omega

theorem memBegin_holds (limit : Nat → Int) : memBegin.Holds limit fun _ => none where
  placed := {
    shaped := trivial
    unassigned := rfl
    proper := by
      intro sec member
      simp only [memBegin, List.map_cons, List.map_nil, List.mem_cons, List.not_mem_nil,
        or_false] at member
      rcases member with rfl | rfl | rfl | rfl
      all_goals exact ⟨by decide, by decide, nofun⟩
    count := by decide
    nodes := by decide
    exact := fun page inside assigned => absurd pageAt_nil assigned }
  pages := fun page inside => by
    rw [memBegin, pageAt_nil]
    exact .empty fun _ _ => rfl

/-- The ranges of a flat view in order, over a table without bytes from the first of them
on. -/
theorem foldlM_memAdd_ok (limit : Nat → Int) (space : Nat) : ∀ {view : FlatView} {lower : Int}
    {d : AddressSpaceDispatch} {bytes : UInt64 → Option (Nat × UInt64)}, OrderedFrom lower view →
    0 ≤ lower → (∀ fr ∈ view, fr.addr.last ≤ 2 ^ 64) →
    (∀ fr ∈ view, fr.addr.size ≤ limit fr.mr) → d.Holds limit bytes →
    (∀ addr, lower ≤ addr.toNat → bytes addr = none) →
    Registers limit (view.foldlM (fun d fr =>
      match fr.toSection space with
      | some sec => memAdd d sec.phys
      | none => .error .assertion) d) fun addr => (view.byteAt addr).or (bytes addr)
  | [], _, d, _, _, _, _, _, holds, _ => .inr ⟨d, rfl, holds⟩
  | fr :: view, lower, d, bytes, ordered, positive, high, limited, holds, free => by
    obtain ⟨after, nonempty, later⟩ := ordered
    have frHigh := high fr List.mem_cons_self
    rw [AddrRange.last] at frHigh later
    have start : ((UInt64.ofNat fr.addr.start.toNat).toNat : Int) = fr.addr.start := by
      rw [UInt64.toNat_ofNat']
      omega
    have converted : fr.toSection space = some (fr.sectionAt space) := by
      rw [FlatRange.toSection, int128Get64, if_pos (by omega)]
      rfl
    have covers (addr : UInt64) :
        (fr.sectionAt space).phys.Covers addr ↔ fr.addr.contains addr.toNat = true := by
      rw [AddrRange.contains_iff, ← start]
      simp only [Covers, MemoryRegionSection.phys, FlatRange.sectionAt]
      omega
    have added : Registers limit (memAdd d (fr.sectionAt space).phys)
        ((fr.sectionAt space).phys.over fr.mr bytes) := by
      refine memAdd_ok holds rfl ⟨nonempty, ?_, ?_⟩ fun addr covered => free addr ?_
      · simp only [MemoryRegionSection.phys, FlatRange.sectionAt]
        omega
      · rintro _ ⟨⟩
        exact limited fr List.mem_cons_self
      · have := AddrRange.contains_iff.mp ((covers addr).mp covered)
        omega
    rw [List.foldlM_cons, converted]
    have combined : (fun addr => (FlatView.byteAt (fr :: view) addr).or (bytes addr)) =
        fun addr => (FlatView.byteAt view addr).or
          ((fr.sectionAt space).phys.over fr.mr bytes addr) := by
      funext addr
      rw [FlatView.byteAt_cons, PhysSection.over]
      by_cases covered : (fr.sectionAt space).phys.Covers addr
      · have inRange := (covers addr).mp covered
        have before := (AddrRange.contains_iff.mp inRange).2
        rw [if_pos inRange, if_pos covered, later.byteAt_below before]
        rfl
      · rw [if_neg (mt (covers addr).mpr covered), if_neg covered]
    rw [combined]
    refine added.bind fun d holds => foldlM_memAdd_ok limit space later (by omega)
      (fun other member => high other (List.mem_cons_of_mem _ member))
      (fun other member => limited other (List.mem_cons_of_mem _ member)) holds
      fun addr beyond => ?_
    rw [PhysSection.over, if_neg]
    · exact free addr (by omega)
    · rw [covers, AddrRange.contains_iff]
      omega

/-- The table of a flat view is built if the table of sections has room, and its sections are no
longer than their ranges. -/
theorem buildDispatch_holds {view : FlatView} (flat : view.Flat) {space : Nat} {limit : Nat → Int}
    (limited : ∀ fr ∈ view, fr.addr.size ≤ limit fr.mr)
    (room : buildDispatch space view ≠ .error .sectionsFull) :
    ∃ d, buildDispatch space view = .ok (memCommit d) ∧ d.Holds limit view.byteAt := by
  have registers := foldlM_memAdd_ok limit space flat.ordered le_rfl flat.high limited
    (memBegin_holds limit) fun _ _ => rfl
  rw [buildDispatch] at room ⊢
  rcases registers with full | ⟨d, result, holds⟩
  · rw [full] at room
    exact absurd rfl room
  · simp only [Option.or_none] at holds
    exact ⟨d, by rw [result]; rfl, holds⟩

/-- The dispatch table of a flat view is exact, if the table of sections has room. -/
theorem buildDispatch_exact {view : FlatView} (flat : view.Flat) (space : Nat)
    (room : buildDispatch space view ≠ .error .sectionsFull) :
    ∃ d, buildDispatch space view = .ok d ∧ ∀ addr, ∃ sec,
      d.addressSpaceLookupRegion addr true = .ok sec ∧ sec.Finds addr (view.byteAt addr) := by
  have limited : ∀ fr ∈ view, fr.addr.size ≤ 2 ^ 64 := by
    intro fr member
    have := (flat.ordered.bounds fr member).1
    have high := flat.high fr member
    rw [AddrRange.last] at high
    omega
  obtain ⟨d, result, holds⟩ := @buildDispatch_holds view flat space (fun _ => 2 ^ 64) limited room
  refine ⟨memCommit d, result, fun addr => ?_⟩
  obtain ⟨sec, found, finds, -⟩ := holds.lookup addr
  exact ⟨sec, found, finds⟩

def sharedPage : FlatView :=
  [⟨1, 0, ⟨0x800, 0x1000⟩, 0, true, false⟩, ⟨2, 0x10, ⟨0x1800, 0x2900⟩, 0, true, false⟩]

theorem buildDispatch_exact_sharedPage :
    sharedPage.Flat ∧ ∃ d, buildDispatch 0 sharedPage = .ok d ∧ ∀ addr, ∃ sec,
      d.addressSpaceLookupRegion addr true = .ok sec ∧ sec.Finds addr (sharedPage.byteAt addr) := by
  have flat : sharedPage.Flat :=
    ⟨by simp [sharedPage, OrderedFrom, AddrRange.last], by simp [sharedPage, AddrRange.last]⟩
  refine ⟨flat, buildDispatch_exact flat 0 fun full => ?_⟩
  have built : ((buildDispatch 0 sharedPage).isOk) = true := by decide +kernel
  rw [full] at built
  cases built

end VhostUser.Qemu
