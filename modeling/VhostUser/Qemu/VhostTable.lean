import VhostUser.Lib.Cells
import VhostUser.Lib.Fallible
import VhostUser.Qemu.VhostListener

/-!
Contract: the loops of `vhost_dev_unassign_memory` and `vhost_dev_assign_memory` on the array
`dev->mem->regions` itself, with their two indices, and `vhost_set_memory` over them.

A call ends with the table, or with the table in which an `assert` failed. Every store into the
array is noted with its index; the array has no bounds of its own.

Owns: that the loops leave the entries that `VhostMemory` says, and which indices they store to.

Does not own: what the entries map (`TableMap`).
-/

namespace VhostUser.Qemu

open VhostUser.Lib

/-! ### The array -/

structure VhostTable where
  nregions : Nat
  regions : Nat → VhostMemoryRegion
  writes : List Nat

namespace VhostTable

def entries (t : VhostTable) : List VhostMemoryRegion := cells t.regions 0 t.nregions

def put (index : Nat) (reg : VhostMemoryRegion) (t : VhostTable) : VhostTable :=
  { t with regions := Function.update t.regions index reg, writes := index :: t.writes }

def clone (fromIdx toIdx : Nat) (t : VhostTable) : VhostTable :=
  if toIdx ≠ fromIdx then t.put toIdx (t.regions fromIdx) else t

def last : Except VhostTable VhostTable → VhostTable
  | .ok t | .error t => t

end VhostTable

section Loops

variable (startAddr size : UInt64)

/-- The loop of `vhost_dev_unassign_memory` with `left` entries to go; `n` is the number of
entries at its start. -/
def unassignInPlace (n : Nat) :
    Nat → Nat → Nat → UnassignFlags → VhostTable → Except VhostTable VhostTable
  | 0, _, _, _, t => .ok t
  | left + 1, fromIdx, toIdx, flags, t =>
    let t := t.clone fromIdx toIdx
    let reg := t.regions toIdx
    if !rangesOverlap reg.guestPhysAddr reg.memorySize startAddr size then
      unassignInPlace n left (fromIdx + 1) (toIdx + 1) flags t
    else if flags.split then .error t
    else
      let reglast := rangeGetLast reg.guestPhysAddr reg.memorySize
      let memlast := rangeGetLast startAddr size
      let change := memlast + 1 - reg.guestPhysAddr
      if startAddr ≤ reg.guestPhysAddr && reglast ≤ memlast then
        unassignInPlace n left (fromIdx + 1) toIdx { flags with overlapMiddle := true }
          { t with nregions := t.nregions - 1 }
      else if reglast ≤ memlast then
        let t := t.put toIdx (reg.shrink startAddr)
        if (reg.shrink startAddr).memorySize = 0 || flags.overlapEnd then .error t
        else unassignInPlace n left (fromIdx + 1) (toIdx + 1) { flags with overlapEnd := true } t
      else if startAddr ≤ reg.guestPhysAddr then
        let t := t.put toIdx (reg.shift change)
        if (reg.shift change).memorySize = 0 || flags.overlapStart then .error t
        else
          unassignInPlace n left (fromIdx + 1) (toIdx + 1) { flags with overlapStart := true } t
      else if flags.overlapStart || flags.overlapEnd || flags.overlapMiddle then .error t
      else
        let t := (t.put n reg).put toIdx (reg.shrink startAddr)
        if (reg.shrink startAddr).memorySize = 0 then .error t
        else
          let t := t.put n (reg.shift change)
          if (reg.shift change).memorySize = 0 || t.nregions ≠ n then .error t
          else
            unassignInPlace n left (fromIdx + 1) (toIdx + 1) { flags with split := true }
              { t with nregions := t.nregions + 1 }

def VhostTable.unassign (t : VhostTable) : Except VhostTable VhostTable :=
  unassignInPlace startAddr size t.nregions t.nregions 0 0 ⟨false, false, false, false⟩ t

end Loops

/-- The range so far, and the index that `merged` points to. -/
structure AssignState where
  toIdx : Nat
  merged : Option Nat
  new : VhostMemoryRegion

/-- The loop of `vhost_dev_assign_memory` with `left` entries to go. -/
def assignInPlace :
    Nat → Nat → AssignState → VhostTable → Except VhostTable (AssignState × VhostTable)
  | 0, _, state, t => .ok (state, t)
  | left + 1, fromIdx, ⟨toIdx, merged, new⟩, t =>
    let t := t.clone fromIdx toIdx
    let reg := t.regions toIdx
    let joined := mergeRegions reg new
    if !regionsApart reg new then .error t
    else if !regionsAdjacent reg new then
      assignInPlace left (fromIdx + 1) ⟨toIdx + 1, merged, new⟩ t
    else
      match merged with
      | some index =>
        if toIdx = 0 then .error t
        else
          let t := t.put index joined
          if joined.memorySize = 0 then .error t
          -- the entry is gone, so the next one takes its place
          else assignInPlace left (fromIdx + 1) ⟨toIdx, some index, joined⟩ t
      | none =>
        let t := t.put toIdx joined
        if joined.memorySize = 0 then .error t
        else assignInPlace left (fromIdx + 1) ⟨toIdx + 1, some toIdx, joined⟩ t

def assignEnd : AssignState × VhostTable → Except VhostTable VhostTable
  | (⟨toIdx, some _, _⟩, t) =>
    if t.nregions + 1 < toIdx then .error t else .ok { t with nregions := toIdx }
  | (⟨toIdx, none, new⟩, t) =>
    let t := t.put toIdx new
    if new.memorySize = 0 then .error t
    else if t.nregions + 1 < toIdx + 1 then .error t
    else .ok { t with nregions := toIdx + 1 }

def VhostTable.assign (new : VhostMemoryRegion) (t : VhostTable) : Except VhostTable VhostTable :=
  assignInPlace t.nregions 0 ⟨0, none, new⟩ t >>= assignEnd

/-- The part of `vhost_set_memory` behind its shortcuts. -/
def VhostTable.update (startAddr size ram : UInt64) (add : Bool) (t : VhostTable) :
    Except VhostTable VhostTable := do
  let t ← t.unassign startAddr size
  if add then t.assign ⟨startAddr, size, ram⟩ else t.unassign startAddr size

/-- `vhost_set_memory` for the section at `startAddr`, whose RAM is at `ram`. -/
def VhostTable.setMemory (startAddr size ram : UInt64) (add logDirty : Bool) (t : VhostTable) :
    Except VhostTable VhostTable :=
  let add := add && !logDirty
  if size = 0 then .error t
  else if add && !vhostDevCmpMemory t.entries startAddr size ram then .ok t
  else if !add && (vhostDevFindReg t.entries startAddr size).isNone then .ok t
  else t.update startAddr size ram add

/-! ### The entries that are left -/

section Refinement

variable {startAddr size : UInt64} {n left fromIdx toIdx : Nat} {flags : UnassignFlags}
  {t : VhostTable} {reg : VhostMemoryRegion}

theorem clone_regions (fromIdx toIdx : Nat) (t : VhostTable) :
    (t.clone fromIdx toIdx).regions = Function.update t.regions toIdx (t.regions fromIdx) := by
  unfold VhostTable.clone
  split
  · rfl
  next same =>
    rw [Decidable.not_not.mp same, Function.update_eq_self]

theorem clone_nregions (fromIdx toIdx : Nat) (t : VhostTable) :
    (t.clone fromIdx toIdx).nregions = t.nregions := by
  unfold VhostTable.clone
  split <;> rfl

theorem cells_store (array : Nat → VhostMemoryRegion) (toIdx : Nat) (reg : VhostMemoryRegion) :
    cells (Function.update array toIdx reg) 0 (toIdx + 1) = cells array 0 toIdx ++ [reg] := by
  rw [cells_concat, cells_update (.inr (Nat.zero_add _).le), Nat.zero_add, Function.update_self]

structure Standing (n left fromIdx toIdx : Nat) (flags : UnassignFlags) (t : VhostTable) :
    Prop where
  whole : fromIdx + left = n
  behind : toIdx ≤ fromIdx
  count : t.nregions + (fromIdx - toIdx) = n + flags.split.toNat
  gap : flags.overlapMiddle = false ∨ flags.split = true → toIdx = fromIdx

def appended (n : Nat) (flags : UnassignFlags) (array : Nat → VhostMemoryRegion) :
    List VhostMemoryRegion :=
  if flags.split then [array n] else []

/-- A call on the array that ends as the one on the list, with the entries that `shape` says. -/
def Ends {α : Type} (shape : α → List VhostMemoryRegion) (result : Except VhostTable VhostTable) :
    Option α → Prop
  | none => ∃ failed, result = .error failed
  | some out => ∃ final, result = .ok final ∧ final.entries = shape out

section Ends

variable {α β : Type} {shape : α → List VhostMemoryRegion} {result : Except VhostTable VhostTable}
  {rest : Option α}

theorem Ends.map {f : α → β} {shapeNext : β → List VhostMemoryRegion}
    (ends : Ends shape result rest) (same : ∀ out, shape out = shapeNext (f out)) :
    Ends shapeNext result (rest.map f) := by
  cases rest with
  | none => exact ends
  | some out =>
    obtain ⟨final, ended, entries⟩ := ends
    exact ⟨final, ended, entries.trans (same out)⟩

theorem Ends.congr {shapeNext : α → List VhostMemoryRegion} (ends : Ends shape result rest)
    (same : ∀ out, shape out = shapeNext out) : Ends shapeNext result rest := by
  rwa [← funext same]

end Ends

abbrev Refines : Except VhostTable VhostTable → Option (List VhostMemoryRegion) → Prop := Ends id

/-- The table that the loop leaves, given what the list says of the entries to go. -/
abbrev Leaves (n toIdx : Nat) (flags : UnassignFlags) (t : VhostTable) :
    Except VhostTable VhostTable →
      Option (List VhostMemoryRegion × List VhostMemoryRegion) → Prop :=
  Ends fun out => cells t.regions 0 toIdx ++ out.1 ++ (appended n flags t.regions ++ out.2)

section Branches

variable {next : VhostTable} {flagsNext : UnassignFlags} {result : Except VhostTable VhostTable}
  {rest : Option (List VhostMemoryRegion × List VhostMemoryRegion)}

theorem Leaves.stay (stored : next.regions = Function.update t.regions toIdx reg)
    (inside : toIdx < n) (split : flagsNext.split = flags.split)
    (leaves : Leaves n (toIdx + 1) flagsNext next result rest) :
    Leaves n toIdx flags t result (rest.map fun out => (reg :: out.1, out.2)) := by
  refine leaves.map fun out => ?_
  rw [stored, cells_store, appended, appended, split, Function.update_of_ne inside.ne']
  simp

theorem Leaves.gone (stored : next.regions = Function.update t.regions toIdx reg)
    (whole : flags.split = false) (wholeNext : flagsNext.split = false)
    (leaves : Leaves n toIdx flagsNext next result rest) : Leaves n toIdx flags t result rest := by
  refine leaves.congr fun out => ?_
  rw [stored, cells_update (.inr (Nat.zero_add _).le), appended, appended, whole, wholeNext]
  rfl

theorem Leaves.split {low high : VhostMemoryRegion}
    (stored : next.regions = Function.update (Function.update t.regions toIdx low) n high)
    (inside : toIdx < n) (whole : flags.split = false) (now : flagsNext.split = true)
    (leaves : Leaves n (toIdx + 1) flagsNext next result rest) :
    Leaves n toIdx flags t result (rest.map fun out => (low :: out.1, high :: out.2)) := by
  refine leaves.map fun out => ?_
  rw [stored, cells_update (.inr (by omega)), cells_store, appended, appended, whole, if_pos now,
    Function.update_self]
  simp

end Branches

theorem unassignInPlace_leaves (standing : Standing n left fromIdx toIdx flags t) :
    Leaves n toIdx flags t (unassignInPlace startAddr size n left fromIdx toIdx flags t)
      (unassignLoop startAddr size (cells t.regions fromIdx left) flags) := by
  induction left generalizing fromIdx toIdx flags t with
  | zero =>
    refine ⟨t, rfl, ?_⟩
    have whole := standing.whole
    have count := standing.count
    have behind := standing.behind
    rw [VhostTable.entries, appended]
    split
    next split =>
      have same := standing.gap (.inr split)
      rw [split, Bool.toNat_true] at count
      have total : t.nregions = toIdx + 1 := by omega
      have here : toIdx = n := by omega
      rw [total, cells_concat, here, Nat.zero_add]
      simp
    next whole =>
      rw [(Bool.not_eq_true _).mp whole, Bool.toNat_false] at count
      have total : t.nregions = toIdx := by omega
      rw [total]
      simp
  | succ left ih =>
    obtain ⟨whole, behind, count, gap⟩ := standing
    have inside : toIdx < n := by omega
    have later : ∀ reg, cells (Function.update t.regions toIdx reg) (fromIdx + 1) left =
        cells t.regions (fromIdx + 1) left := fun reg => cells_update (.inl (by omega))
    have here : (t.clone fromIdx toIdx).regions toIdx = t.regions fromIdx := by
      rw [clone_regions, Function.update_self]
    rw [cells_succ, unassignLoop, unassignInPlace]
    rw [here]
    generalize same : t.regions fromIdx = reg
    have cloned : (t.clone fromIdx toIdx).regions = Function.update t.regions toIdx reg := by
      rw [clone_regions, same]
    have stored : ∀ other, ((t.clone fromIdx toIdx).put toIdx other).regions =
        Function.update t.regions toIdx other := fun other => by
      simp only [VhostTable.put, cloned, Function.update_idem]
    have total := clone_nregions fromIdx toIdx t
    have advance : ∀ {next : VhostTable} {nextIdx : Nat} {flagsNext : UnassignFlags},
        Standing n left (fromIdx + 1) nextIdx flagsNext next →
        cells next.regions (fromIdx + 1) left = cells t.regions (fromIdx + 1) left →
        Leaves n nextIdx flagsNext next
          (unassignInPlace startAddr size n left (fromIdx + 1) nextIdx flagsNext next)
          (unassignLoop startAddr size (cells t.regions (fromIdx + 1) left) flagsNext) := by
      intro next nextIdx flagsNext rest same
      rw [← same]
      exact ih rest
    -- an entry that stays, with flags that say the same of a split and of removals
    have stays : ∀ {next : VhostTable} {other : VhostMemoryRegion} {flagsNext : UnassignFlags},
        next.regions = Function.update t.regions toIdx other → next.nregions = t.nregions →
        flagsNext.split = flags.split → flagsNext.overlapMiddle = flags.overlapMiddle →
        Leaves n toIdx flags t
          (unassignInPlace startAddr size n left (fromIdx + 1) (toIdx + 1) flagsNext next)
          ((unassignLoop startAddr size (cells t.regions (fromIdx + 1) left) flagsNext).map
            fun out => (other :: out.1, out.2)) := by
      intro next other flagsNext regions nregions split middle
      refine Leaves.stay regions inside split (advance ⟨by omega, by omega, ?_, ?_⟩ ?_)
      · rw [nregions, split, Nat.add_sub_add_right]
        exact count
      · intro closed
        rw [split, middle] at closed
        rw [gap closed]
      · rw [regions, later]
    refine both_ite (fun _ => stays cloned total rfl rfl) fun _ => ?_
    refine both_ite (fun _ => ⟨_, rfl⟩) fun unsplit => ?_
    have split : flags.split = false := (Bool.not_eq_true _).mp unsplit
    rw [split, Bool.toNat_false] at count
    refine both_ite (fun covered => ?_) fun _ => ?_
    · refine Leaves.gone cloned split split (advance ⟨by omega, by omega, ?_, ?_⟩ ?_)
      · dsimp only
        rw [total, split, Bool.toNat_false]
        omega
      · rintro (closed | closed)
        · cases closed
        · rw [split] at closed
          cases closed
      · rw [cloned, later]
    -- an entry that is cut at one end
    refine both_ite (fun _ => both_ite (fun _ => ⟨_, rfl⟩) fun _ => ?_) fun _ => ?_
    · exact stays (stored _) total rfl rfl
    refine both_ite (fun _ => both_ite (fun _ => ⟨_, rfl⟩) fun _ => ?_) fun _ => ?_
    · exact stays (stored _) total rfl rfl
    refine both_ite (fun _ => ⟨_, rfl⟩) fun others => ?_
    by_cases shrunk : (reg.shrink startAddr).memorySize = 0
    · rw [if_pos shrunk, if_pos (by simp [shrunk])]
      exact ⟨_, rfl⟩
    rw [if_neg shrunk]
    generalize rangeGetLast startAddr size + 1 - reg.guestPhysAddr = change
    have close : toIdx = fromIdx := by
      refine gap (.inl ?_)
      simp only [Bool.or_eq_true, not_or, Bool.not_eq_true] at others
      exact others.2
    have same : t.nregions = n := by omega
    by_cases shifted : (reg.shift change).memorySize = 0
    · rw [if_pos (by simp [shifted]), if_pos (by simp [shifted])]
      exact ⟨_, rfl⟩
    have counted : ((((t.clone fromIdx toIdx).put n reg).put toIdx (reg.shrink startAddr)).put n
        (reg.shift change)).nregions = n := total.trans same
    rw [if_neg (by simp [shifted, counted]), if_neg (by simp [shrunk, shifted])]
    have regions : ((((t.clone fromIdx toIdx).put n reg).put toIdx (reg.shrink startAddr)).put n
        (reg.shift change)).regions = Function.update
          (Function.update t.regions toIdx (reg.shrink startAddr)) n (reg.shift change) := by
      funext index
      simp only [VhostTable.put, cloned, Function.update_apply]
      split_ifs <;> rfl
    refine Leaves.split regions inside split rfl (advance ⟨by omega, by omega, ?_, ?_⟩ ?_)
    · dsimp only
      rw [counted, close]
      simp
    · exact fun _ => by rw [close]
    · dsimp only
      rw [regions, cells_update (.inr (by omega)), later]

theorem unassign_refines (t : VhostTable) (startAddr size : UInt64) :
    Refines (t.unassign startAddr size) (vhostDevUnassignMemory t.entries startAddr size) := by
  have standing : Standing t.nregions t.nregions 0 0 ⟨false, false, false, false⟩ t :=
    ⟨Nat.zero_add _, Nat.le_refl _, rfl, fun _ => rfl⟩
  exact (unassignInPlace_leaves standing).map fun _ => rfl

/-- The end of a loop that merged an entry at `index`, with `kept` entries behind it. -/
abbrev Merges (index kept : Nat) (t : VhostTable) : Except VhostTable VhostTable →
    Option (VhostMemoryRegion × List VhostMemoryRegion) → Prop :=
  Ends fun out => cells t.regions 0 index ++ out.1 :: (cells t.regions (index + 1) kept ++ out.2)

theorem assignInPlace_merges {index kept : Nat} {new : VhostMemoryRegion}
    (whole : fromIdx + left = t.nregions) (behind : index + 1 + kept ≤ fromIdx)
    (here : t.regions index = new) :
    Merges index kept t
      (assignInPlace left fromIdx ⟨index + 1 + kept, some index, new⟩ t >>= assignEnd)
      (assignMerged new (cells t.regions fromIdx left)) := by
  induction left generalizing fromIdx kept new t with
  | zero =>
    have room : ¬ t.nregions + 1 < index + 1 + kept := by omega
    refine ⟨{ t with nregions := index + 1 + kept }, if_neg room, ?_⟩
    rw [VhostTable.entries, cells_append, cells_concat]
    simp only [Nat.zero_add, here, List.append_nil]
    rw [List.append_assoc, List.singleton_append]
  | succ left ih =>
    have cloned : (t.clone fromIdx (index + 1 + kept)).regions =
        Function.update t.regions (index + 1 + kept) (t.regions fromIdx) := clone_regions _ _ _
    have total := clone_nregions fromIdx (index + 1 + kept) t
    rw [cells_succ, assignMerged, assignInPlace]
    rw [show (t.clone fromIdx (index + 1 + kept)).regions (index + 1 + kept) =
      t.regions fromIdx by rw [cloned, Function.update_self]]
    generalize t.regions fromIdx = reg at cloned
    refine bound_ite (fun _ => ⟨_, rfl⟩) fun _ => bound_ite (fun _ => ?_) fun _ => ?_
    · have rest : Merges index (kept + 1) (t.clone fromIdx (index + 1 + kept)) (assignInPlace left
          (fromIdx + 1) ⟨index + 1 + kept + 1, some index, new⟩ _ >>= assignEnd) _ :=
        ih (by rw [total]; omega) (by omega)
          (by rw [cloned, Function.update_of_ne (by omega), here])
      rw [cloned, cells_update (.inl (by omega))] at rest
      refine rest.map fun out => ?_
      rw [cloned, cells_update (.inr (by omega)), cells_concat, cells_update (.inr (Nat.le_refl _)),
        Function.update_self]
      simp
    rw [if_neg (by omega)]
    generalize mergeRegions reg new = joined
    refine bound_ite (fun _ => ⟨_, rfl⟩) fun _ => ?_
    have stored : ((t.clone fromIdx (index + 1 + kept)).put index joined).regions =
        Function.update (Function.update t.regions index joined) (index + 1 + kept) reg := by
      simp only [VhostTable.put, cloned]
      exact Function.update_comm (by omega) _ _ _
    have rest : Merges index kept ((t.clone fromIdx (index + 1 + kept)).put index joined)
        (assignInPlace left (fromIdx + 1) ⟨index + 1 + kept, some index, joined⟩ _ >>=
          assignEnd) _ :=
      ih (by simp only [VhostTable.put, total]; omega) (by omega)
        (by rw [stored, Function.update_of_ne (by omega), Function.update_self])
    rw [stored, cells_update (.inl (by omega)), cells_update (.inl (by omega))] at rest
    refine rest.congr fun out => ?_
    rw [stored, cells_update (.inr (by omega)), cells_update (.inr (by omega)),
      cells_update (.inr (by omega)), cells_update (.inl (by omega))]

theorem assignInPlace_ends {new : VhostMemoryRegion} (whole : fromIdx + left = t.nregions) :
    Ends (cells t.regions 0 fromIdx ++ ·)
      (assignInPlace left fromIdx ⟨fromIdx, none, new⟩ t >>= assignEnd)
      (vhostDevAssignMemory new (cells t.regions fromIdx left)) := by
  induction left generalizing fromIdx with
  | zero =>
    change Ends _ (assignEnd (⟨fromIdx, none, new⟩, t)) _
    rw [cells_zero, vhostDevAssignMemory, assignEnd]
    refine both_ite (fun _ => ⟨_, rfl⟩) fun _ => ?_
    have room : ¬ (t.put fromIdx new).nregions + 1 < fromIdx + 1 := by
      simp only [VhostTable.put]
      omega
    rw [if_neg room]
    exact ⟨_, rfl, cells_store t.regions fromIdx new⟩
  | succ left ih =>
    have same : t.clone fromIdx fromIdx = t := by
      unfold VhostTable.clone
      exact if_neg (not_not.mpr rfl)
    rw [cells_succ, vhostDevAssignMemory, assignInPlace]
    rw [same]
    generalize found : t.regions fromIdx = reg
    refine bound_ite (fun _ => ⟨_, rfl⟩) fun _ => bound_ite (fun _ => ?_) fun _ => ?_
    · refine (@ih (fromIdx + 1) (by omega)).map fun out => ?_
      rw [cells_concat, Nat.zero_add, found]
      simp
    generalize mergeRegions reg new = joined
    refine bound_ite (fun _ => ⟨_, rfl⟩) fun _ => ?_
    have merges : Merges fromIdx 0 (t.put fromIdx joined)
        (assignInPlace left (fromIdx + 1) ⟨fromIdx + 1, some fromIdx, joined⟩ _ >>= assignEnd) _ :=
      assignInPlace_merges (by simp only [VhostTable.put]; omega) (Nat.le_refl _)
        (Function.update_self _ _ _)
    simp only [VhostTable.put] at merges
    rw [cells_update (.inl (Nat.lt_succ_self _))] at merges
    refine merges.map fun out => ?_
    rw [cells_update (.inr (Nat.zero_add _).le)]
    rfl

theorem assign_refines (t : VhostTable) (new : VhostMemoryRegion) :
    Refines (t.assign new) (vhostDevAssignMemory new t.entries) :=
  assignInPlace_ends (Nat.zero_add _)

theorem update_refines (t : VhostTable) (startAddr size ram : UInt64) (add : Bool) :
    Refines (t.update startAddr size ram add)
      ((vhostDevUnassignMemory t.entries startAddr size).bind fun mem =>
        if add then vhostDevAssignMemory ⟨startAddr, size, ram⟩ mem
        else vhostDevUnassignMemory mem startAddr size) := by
  have first := unassign_refines t startAddr size
  unfold VhostTable.update
  revert first
  cases vhostDevUnassignMemory t.entries startAddr size with
  | none =>
    rintro ⟨failed, ended⟩
    rw [ended]
    exact ⟨failed, rfl⟩
  | some left =>
    rintro ⟨mid, ended, rfl⟩
    rw [ended, Option.bind_some]
    change Refines (if add then mid.assign ⟨startAddr, size, ram⟩
      else mid.unassign startAddr size) _
    cases add with
    | true => exact assign_refines mid ⟨startAddr, size, ram⟩
    | false => exact unassign_refines mid startAddr size

/-- The array of a device goes the way that the listener's model goes with the entries. -/
theorem setMemory_refines {env : VhostEnv} {regions : Regions} {sec : MemoryRegionSection}
    {add : Bool} {dev : VhostMemoryDev} (same : t.entries = dev.mem)
    (size_eq : int128Get64 sec.size = some size) :
    Refines (t.setMemory sec.offsetWithinAddressSpace size
        (env.ramPtr sec.mr + sec.offsetWithinRegion) add
        (decide ((regions sec.mr).dirtyLogMask ≠ 0)))
      ((vhostSetMemory env regions sec add dev).map VhostMemoryDev.mem) := by
  have refines := update_refines t sec.offsetWithinAddressSpace size
    (env.ramPtr sec.mr + sec.offsetWithinRegion)
    (add && !decide ((regions sec.mr).dirtyLogMask ≠ 0))
  unfold vhostSetMemory VhostTable.setMemory
  rw [size_eq, Option.bind_some]
  dsimp only
  rw [same] at refines ⊢
  split
  · exact ⟨t, rfl⟩
  split
  · exact ⟨t, rfl, same⟩
  split
  · exact ⟨t, rfl, same⟩
  · rw [Option.map_bind]
    simp only [Function.comp_def, Option.map_map, Option.map_id']
    exact refines

def sevenPages : VhostTable :=
  ⟨4, fun index => [⟨0, 0x3000, 0x7f0000000000⟩, ⟨0x4000, 0x1000, 0x7f1000000000⟩,
    ⟨0x5000, 0x2000, 0x7f2000000000⟩, ⟨0x8000, 0x1000, 0x7f3000000000⟩].getD index ⟨0, 0, 0⟩, []⟩

/-- A section over the second entry and the start of the third is merged into the first. A page is
taken out of the first entry, whose end is stored behind the last. -/
theorem setMemory_refines_pages :
    Refines (sevenPages.setMemory 0x3000 0x3000 (0x7f0000000000 + 0x3000) true false)
        (some [⟨0, 0x6000, 0x7f0000000000⟩, ⟨0x6000, 0x1000, 0x7f2000001000⟩,
          ⟨0x8000, 0x1000, 0x7f3000000000⟩]) ∧
      Refines (sevenPages.setMemory 0x1000 0x1000 (0x7f0000000000 + 0x1000) false false)
        (some [⟨0, 0x1000, 0x7f0000000000⟩, ⟨0x4000, 0x1000, 0x7f1000000000⟩,
          ⟨0x5000, 0x2000, 0x7f2000000000⟩, ⟨0x8000, 0x1000, 0x7f3000000000⟩,
          ⟨0x2000, 0x1000, 0x7f0000002000⟩]) := by
  let env : VhostEnv := ⟨fun _ => 0x7f0000000000, fun _ _ => true, fun _ => true⟩
  let regions : Regions := fun _ => memoryRegionInitRam 0x1000 0
  let dev : VhostMemoryDev := ⟨sevenPages.entries, [], 0, 0, false, false⟩
  have merged : (vhostSetMemory env regions ⟨0, 0, 0x3000, 0x3000, 0x3000, false⟩ true dev).map
      VhostMemoryDev.mem = some [⟨0, 0x6000, 0x7f0000000000⟩, ⟨0x6000, 0x1000, 0x7f2000001000⟩,
        ⟨0x8000, 0x1000, 0x7f3000000000⟩] := by decide +kernel
  have split : (vhostSetMemory env regions ⟨0, 0, 0x1000, 0x1000, 0x1000, false⟩ false dev).map
      VhostMemoryDev.mem = some [⟨0, 0x1000, 0x7f0000000000⟩, ⟨0x4000, 0x1000, 0x7f1000000000⟩,
        ⟨0x5000, 0x2000, 0x7f2000000000⟩, ⟨0x8000, 0x1000, 0x7f3000000000⟩,
        ⟨0x2000, 0x1000, 0x7f0000002000⟩] := by decide +kernel
  obtain ⟨wide, isWide⟩ :
      ∃ sec : MemoryRegionSection, sec = ⟨0, 0, 0x3000, 0x3000, 0x3000, false⟩ := ⟨_, rfl⟩
  obtain ⟨inside, isInside⟩ :
      ∃ sec : MemoryRegionSection, sec = ⟨0, 0, 0x1000, 0x1000, 0x1000, false⟩ := ⟨_, rfl⟩
  have added := @setMemory_refines 0x3000 sevenPages env regions wide true dev rfl
    (by rw [isWide]; rfl)
  have removed := @setMemory_refines 0x1000 sevenPages env regions inside false dev rfl
    (by rw [isInside]; rfl)
  rw [isWide, merged] at added
  rw [isInside, split] at removed
  exact ⟨added, removed⟩

end Refinement

end VhostUser.Qemu
