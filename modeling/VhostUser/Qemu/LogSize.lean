import VhostUser.Qemu.VhostLog

/-!
Contract: a started device under migration logging has a log that is large enough
for its table and its used rings, so no sync runs off its end. The backend was told
where that log is, unless the device was started while logging was on:
`vhost_dev_start` hands `hdev->log` itself to `VHOST_SET_LOG_BASE`, which reads the
address from there.
-/

namespace VhostUser.Qemu.VhostLog

open VhostUser.Lib
open VhostDev

/-! ### Sizes -/

theorem words_toNat (last : UInt64) :
    (last / vhostLogChunk + 1).toNat = last.toNat / 0x40000 + 1 := by
  have bound := last.toNat_lt
  simp only [UInt64.toNat_add, UInt64.toNat_div, vhostLogChunk, UInt64.reduceToNat]
  omega

theorem le_foldl_max {α : Type} (measure : α → UInt64) (items : List α) (start : UInt64) :
    start.toNat ≤ (items.foldl (fun size item => max size (measure item)) start).toNat ∧
      ∀ item ∈ items, (measure item).toNat ≤
        (items.foldl (fun size item => max size (measure item)) start).toNat := by
  induction items generalizing start with
  | nil => simp
  | cons head rest ih =>
    obtain ⟨above, each⟩ := ih (max start (measure head))
    rw [max_toNat] at above
    rw [List.foldl_cons]
    refine ⟨by omega, fun item member => ?_⟩
    rcases List.mem_cons.mp member with rfl | later
    · omega
    · exact each item later

theorem foldl_max_le {α : Type} {measure : α → UInt64} {items : List α} {start : UInt64}
    {bound : Nat} (startLe : start.toNat ≤ bound)
    (each : ∀ item ∈ items, (measure item).toNat ≤ bound) :
    (items.foldl (fun size item => max size (measure item)) start).toNat ≤ bound := by
  induction items generalizing start with
  | nil => exact startLe
  | cons head rest ih =>
    apply ih
    · have headLe := each head List.mem_cons_self
      rw [max_toNat]
      omega
    · exact fun item member => each item (List.mem_cons_of_mem _ member)

variable {dev after : VhostDev} {first last size : UInt64} {enable : Bool} {base : VhostMemoryDev}
  {sec : MemoryRegionSection}

theorem range_lt_logSize {range : UInt64 × UInt64} (member : range ∈ loggedRanges dev) :
    range.2.toNat / 0x40000 < (vhostGetLogSize dev).toNat := by
  have bound := (le_foldl_max (fun range : UInt64 × UInt64 => range.2 / vhostLogChunk + 1)
    (loggedRanges dev) 0).2 range member
  rw [words_toNat] at bound
  exact bound

theorem vhostGetLogSize_le (dev : VhostDev) : (vhostGetLogSize dev).toNat ≤ 2 ^ 46 := by
  apply foldl_max_le
  · decide
  intro range _
  have := range.2.toNat_lt
  rw [words_toNat]
  omega

theorem vhostGetLogSize_congr (mem : after.memory.mem = dev.memory.mem)
    (vqs : after.vqs = dev.vqs) : vhostGetLogSize after = vhostGetLogSize dev := by
  simp only [vhostGetLogSize, loggedRanges, mem, vqs]

/-! ### The assertions -/

theorem chunk_toNat (gpa : UInt64) : (gpa / vhostLogChunk).toNat = gpa.toNat / 0x40000 := by
  rfl

/-- The log has a word for every address that is in both ranges. -/
theorem vhostDevSyncRegion_ok_iff {mfirst mlast rfirst rlast : UInt64} :
    (∃ visits, vhostDevSyncRegion dev sec mfirst mlast rfirst rlast = .ok visits) ↔
      ∀ addr, (mfirst ≤ addr ∧ addr ≤ mlast) → (rfirst ≤ addr ∧ addr ≤ rlast) →
        addr / vhostLogChunk < dev.logSize := by
  constructor
  · rintro ⟨visits, result⟩ addr inSection inRange
    rw [vhostDevSyncRegion] at result
    split at result
    next empty =>
      simp only [UInt64.lt_iff_toNat_lt, UInt64.le_iff_toNat_le, min_toNat, max_toNat] at *
      omega
    split at result
    · cases result
    next inside =>
      simp only [UInt64.lt_iff_toNat_lt, UInt64.le_iff_toNat_le, min_toNat, chunk_toNat] at *
      omega
  · intro inside
    rw [vhostDevSyncRegion]
    split
    · exact ⟨_, rfl⟩
    next nonempty =>
      rw [UInt64.not_lt] at nonempty
      have bounds : ∀ addr, max mfirst rfirst ≤ addr → addr ≤ min mlast rlast →
          addr / vhostLogChunk < dev.logSize := by
        intro addr low high
        refine inside addr ?_ ?_
        all_goals
          simp only [UInt64.le_iff_toNat_le, min_toNat, max_toNat] at *
          omega
      rw [if_neg (not_not.mpr (bounds _ nonempty (UInt64.le_refl _))),
        if_neg (not_not.mpr (bounds _ (UInt64.le_refl _) nonempty))]
      exact ⟨_, rfl⟩

/-- A sync is safe when the log covers the device, or when it stays inside the log. -/
def SyncSafe (dev : VhostDev) (last : UInt64) : Prop :=
  (dev.memory.started = true → dev.logEnabled = true →
    (vhostGetLogSize dev).toNat ≤ dev.logSize.toNat) ∨
  last.toNat / 0x40000 < dev.logSize.toNat

theorem vhostSyncDirtyBitmap_safe (safe : SyncSafe dev last) :
    Never .logSize (vhostSyncDirtyBitmap dev first last sec) := by
  intro fails
  rw [vhostSyncDirtyBitmap] at fails
  split at fails
  · cases fails
  next active =>
    simp only [Bool.or_eq_true, Bool.not_eq_true', not_or, Bool.not_eq_false] at active
    split at fails
    · cases fails
    next size _ =>
      obtain ⟨range, member, culprit⟩ := concatMap_error fails
      have rangeInside := range_lt_logSize member
      have inside (addr) : (max first sec.offsetWithinAddressSpace ≤ addr ∧
          addr ≤ min last (rangeGetLast sec.offsetWithinAddressSpace size)) →
            (range.1 ≤ addr ∧ addr ≤ range.2) → addr / vhostLogChunk < dev.logSize := by
        rintro ⟨-, section_⟩ ⟨-, range_⟩
        rw [UInt64.le_iff_toNat_le] at section_ range_
        rw [UInt64.lt_iff_toNat_lt, chunk_toNat]
        rw [min_toNat] at section_
        rcases safe with covered | short
        · have := covered active.2 active.1
          omega
        · omega
      obtain ⟨visits, success⟩ := vhostDevSyncRegion_ok_iff.mpr inside
      rw [success] at culprit
      cases culprit

theorem vhostLogSyncRange_safe (safe : SyncSafe dev last) :
    Never .logSize (vhostLogSyncRange dev first last) := by
  intro fails
  obtain ⟨sec, -, culprit⟩ := concatMap_error fails
  exact vhostSyncDirtyBitmap_safe safe culprit

/-- The range that `vhost_dev_log_resize` syncs stays inside the old log, also where
the product wraps. -/
theorem oldLog_inside (nonzero : size ≠ 0) :
    (size * vhostLogChunk - 1).toNat / 0x40000 < size.toNat := by
  have positive : 0 < size.toNat := UInt64.pos_iff_ne_zero.mpr nonzero
  simp only [UInt64.toNat_sub, UInt64.toNat_mul, vhostLogChunk, UInt64.reduceToNat]
  omega

/-! ### What writing and reading the log keeps -/

/-- Only the words and the pending marks may differ. -/
structure SameSetup (dev after : VhostDev) : Prop where
  memory : after.memory = dev.memory
  vqs : after.vqs = dev.vqs
  logEnabled : after.logEnabled = dev.logEnabled
  log : after.log = dev.log
  logSize : after.logSize = dev.logSize
  logRoom : after.logRoom = dev.logRoom
  logBase : after.logBase = dev.logBase
  table : after.table = dev.table

theorem SameSetup.refl (dev : VhostDev) : SameSetup dev dev :=
  ⟨rfl, rfl, rfl, rfl, rfl, rfl, rfl, rfl⟩

theorem SameSetup.trans {middle : VhostDev} (first : SameSetup dev middle)
    (second : SameSetup middle after) : SameSetup dev after :=
  ⟨second.memory.trans first.memory, second.vqs.trans first.vqs,
    second.logEnabled.trans first.logEnabled, second.log.trans first.log,
    second.logSize.trans first.logSize, second.logRoom.trans first.logRoom,
    second.logBase.trans first.logBase, second.table.trans first.table⟩

theorem mark_setup (dev : VhostDev) (gpa : UInt64) : SameSetup dev (dev.mark gpa) :=
  ⟨rfl, rfl, rfl, rfl, rfl, rfl, rfl, rfl⟩

/-- What marks and visits keep, with the visits that were made, a sync keeps. -/
theorem sync_invariant (property : List Visit → VhostDev → Prop) {visits done : List Visit}
    {arrivals : List (List UInt64)} {dev : VhostDev}
    (marks : ∀ gpa ∈ arrivals.flatten, ∀ done dev, property done dev → property done (dev.mark gpa))
    (visited : ∀ visit ∈ visits, ∀ done dev, property done dev →
      property (visit :: done) (dev.visit visit))
    (initially : property done dev) :
    property (visits.reverse ++ done) (dev.sync visits arrivals) := by
  induction visits generalizing arrivals done dev with
  | nil => exact initially
  | cons visit rest ih =>
    obtain ⟨here, later⟩ := List.forall_mem_cons.mp visited
    have split : ∀ gpa, gpa ∈ arrivals.flatten ↔
        gpa ∈ arrivals.headD [] ∨ gpa ∈ arrivals.tail.flatten := by
      cases arrivals <;> simp
    have marked : property done ((arrivals.headD []).foldl mark dev) :=
      List.foldlRecOn _ _ initially fun dev holds gpa member =>
        marks gpa ((split gpa).mpr (.inl member)) done dev holds
    rw [List.reverse_cons, List.append_assoc]
    exact ih (fun gpa member => marks gpa ((split gpa).mpr (.inr member))) later
      (here _ _ marked)

theorem sync_setup (dev : VhostDev) (visits : List Visit) (arrivals : List (List UInt64)) :
    SameSetup dev (dev.sync visits arrivals) :=
  @sync_invariant (fun _ after => SameSetup dev after) visits [] arrivals dev
    (fun gpa _ _ after same => same.trans (mark_setup after gpa))
    (fun _ _ _ _ same => same.trans ⟨rfl, rfl, rfl, rfl, rfl, rfl, rfl, rfl⟩) (.refl dev)

/-! ### What the operations leave -/

structure Announced (dev : VhostDev) : Prop where
  logBase : dev.logBase = some dev.log
  logRoom : dev.logRoom = dev.logSize * 8
  small : dev.logSize.toNat ≤ 2 ^ 46 + 512

/-- `vhost_dev_log_resize` changes the log and nothing else of the setup. -/
structure Resized (size : UInt64) (dev after : VhostDev) : Prop where
  memory : after.memory = dev.memory
  vqs : after.vqs = dev.vqs
  logEnabled : after.logEnabled = dev.logEnabled
  table : after.table = dev.table
  logSize : after.logSize = size
  logBase : after.logBase = some after.log
  logRoom : after.logRoom = size * 8
  pages : ∃ visits, oldLogVisits dev = .ok visits ∧ after.pending = (dev.sync visits []).pending

theorem Resized.announced (resized : Resized size dev after) (small : size.toNat ≤ 2 ^ 46 + 512) :
    Announced after :=
  ⟨resized.logBase, by rw [resized.logRoom, resized.logSize], by rwa [resized.logSize]⟩

section Resize

variable {size : UInt64} {input : ResizeInput} {dev after : VhostDev}

theorem vhostDevLogResize_eq (result : vhostDevLogResize size input dev = .ok after) :
    ∃ visits, oldLogVisits dev = .ok visits ∧
      after = (dev.sync visits []).replaceLog (gMalloc0 input.address (size * 8)) size := by
  rw [vhostDevLogResize] at result
  split at result
  · cases result
  · obtain ⟨visits, visitsResult, result⟩ := bind_ok_iff.mp result
    cases result
    exact ⟨visits, visitsResult, rfl⟩

theorem vhostDevLogResize_resized (result : vhostDevLogResize size input dev = .ok after) :
    Resized size dev after := by
  obtain ⟨visits, visitsResult, rfl⟩ := vhostDevLogResize_eq result
  have synced := sync_setup dev visits []
  exact ⟨synced.memory, synced.vqs, synced.logEnabled, synced.table, rfl, rfl, rfl, visits,
    visitsResult, rfl⟩

theorem vhostDevLogResize_safe : Never .logSize (vhostDevLogResize size input dev) := by
  refine .ite (.error (by decide)) (.bind ?_ fun _ => .ok _)
  rw [oldLogVisits]
  split
  next nonzero => exact vhostLogSyncRange_safe (.inr (oldLog_inside nonzero))
  · exact .ok _

end Resize

/-- What `vhost_commit` leaves when the log is on and the table changed. -/
structure Recommitted (dev after : VhostDev) : Prop where
  memory : after.memory = { dev.memory with memoryChanged := false }
  vqs : after.vqs = dev.vqs
  logEnabled : after.logEnabled = dev.logEnabled
  table : after.table = some dev.memory.mem
  covered : (vhostGetLogSize dev).toNat ≤ after.logSize.toNat
  log : Announced after ∨
    after.log = dev.log ∧ after.logSize = dev.logSize ∧ after.logRoom = dev.logRoom ∧
      after.logBase = dev.logBase
  pages : after.words = dev.words ∧ after.pending = dev.pending ∨
    ∃ visits table, oldLogVisits dev = .ok visits ∧
      after.pending = (sync { dev with table } visits []).pending

section Commit

variable {input : CommitInput} {size : UInt64} {dev after : VhostDev}

theorem sendTable_eq {accepted : Bool} (result : sendTable accepted dev = .ok after) :
    after = { dev with table := some dev.memory.mem } := by
  rw [sendTable] at result
  split at result
  · cases result
    rfl
  · cases result

theorem buffered_toNat (dev : VhostDev) :
    (vhostGetLogSize dev + vhostLogBuffer).toNat = (vhostGetLogSize dev).toNat + 512 := by
  have bound := vhostGetLogSize_le dev
  simp only [UInt64.toNat_add, vhostLogBuffer, UInt64.reduceToNat]
  omega

/-- The log is made larger before the table is sent, or smaller after it, or kept. -/
theorem recommitted_of_resizes {grow shrink : ResizeInput} {grown shrunk : VhostDev}
    (grownResult : growLog (vhostGetLogSize dev) grow dev = .ok grown)
    (shrunkResult : shrinkLog (vhostGetLogSize dev) shrink
      { grown with table := some grown.memory.mem } = .ok shrunk) :
    Recommitted dev shrunk.tableSettled := by
  have bound := vhostGetLogSize_le dev
  have buffered := buffered_toNat dev
  rw [growLog] at grownResult
  rw [shrinkLog] at shrunkResult
  split at grownResult
  next short =>
    have resized := vhostDevLogResize_resized grownResult
    have announced := resized.announced (by omega)
    -- a log that has just grown is not too large
    rw [if_neg (by rw [resized.logSize, UInt64.lt_iff_toNat_lt]; exact lt_irrefl _)]
      at shrunkResult
    cases shrunkResult
    obtain ⟨visits, visitsResult, pending⟩ := resized.pages
    refine ⟨?_, resized.vqs, resized.logEnabled, ?_, ?_,
      .inl { announced with },
      .inr ⟨visits, dev.table, visitsResult, pending⟩⟩
    · simp only [tableSettled, resized.memory]
    · simp only [tableSettled, resized.memory]
    · simp only [tableSettled, resized.logSize, buffered]
      omega
  next enough =>
    cases grownResult
    rw [UInt64.lt_iff_toNat_lt] at enough
    split at shrunkResult
    next large =>
      have resized := vhostDevLogResize_resized shrunkResult
      have announced := resized.announced (by omega)
      obtain ⟨visits, visitsResult, pending⟩ := resized.pages
      refine ⟨?_, resized.vqs, resized.logEnabled, ?_, ?_,
        .inl { announced with },
        .inr ⟨visits, _, visitsResult, pending⟩⟩
      · simp only [tableSettled, resized.memory]
      · simp only [tableSettled, resized.table]
      · simp only [tableSettled, resized.logSize]
        exact le_rfl
    next fits =>
      cases shrunkResult
      refine ⟨rfl, rfl, rfl, rfl, ?_, .inr ⟨rfl, rfl, rfl, rfl⟩, .inl ⟨rfl, rfl⟩⟩
      simp only [tableSettled]
      omega

theorem vhostCommit_cases (result : vhostCommit input dev = .ok after) :
    (after = dev ∧ (dev.memory.memoryChanged = false ∨ dev.memory.started = false ∨
      dev.memory.memChangedEndAddr < dev.memory.memChangedStartAddr)) ∨
    (dev.logEnabled = false ∧ after = tableSettled { dev with table := some dev.memory.mem }) ∨
    (dev.logEnabled = true ∧ Recommitted dev after) := by
  rw [vhostCommit] at result
  split at result
  next unchanged =>
    cases result
    exact .inl ⟨rfl, .inl (by simpa using unchanged)⟩
  split at result
  next stopped =>
    cases result
    exact .inl ⟨rfl, .inr (.inl (by simpa using stopped))⟩
  split at result
  next empty =>
    cases result
    exact .inl ⟨rfl, .inr (.inr empty)⟩
  split at result
  · cases result
  split at result
  next off =>
    obtain ⟨sent, sentResult, result⟩ := bind_ok_iff.mp result
    cases result
    rw [sendTable_eq sentResult]
    exact .inr (.inl ⟨by simpa using off, rfl⟩)
  next on =>
    obtain ⟨grown, grownResult, result⟩ := bind_ok_iff.mp result
    obtain ⟨sent, sentResult, result⟩ := bind_ok_iff.mp result
    obtain ⟨shrunk, shrunkResult, result⟩ := bind_ok_iff.mp result
    cases result
    obtain rfl := sendTable_eq sentResult
    exact .inr (.inr ⟨by simpa using on, recommitted_of_resizes grownResult shrunkResult⟩)

theorem vhostCommit_safe : Never .logSize (vhostCommit input dev) := by
  have sent {accepted : Bool} {dev : VhostDev} : Never .logSize (sendTable accepted dev) :=
    .ite (.ok _) (.error (by decide))
  refine .ite (.ok _) (.ite (.ok _) (.ite (.ok _) (.ite (.error (by decide)) (.ite ?_ ?_))))
  · exact .bind sent fun _ => .ok _
  · exact .bind (.ite vhostDevLogResize_safe (.ok _)) fun _ => .bind sent fun _ =>
      .bind (.ite vhostDevLogResize_safe (.ok _)) fun _ => .ok _

end Commit

section Table

variable {env : VhostEnv} {isRam : Nat → Bool} {after memory base : VhostMemoryDev}
  {regions : Regions}

/-- Since `base`, the table is the same, or the changed range is not empty. -/
structure Touched (base memory : VhostMemoryDev) : Prop where
  started : memory.started = base.started
  table : memory.mem = base.mem ∨
    memory.memoryChanged = true ∧ memory.memChangedStartAddr.toNat ≤ memory.memChangedEndAddr.toNat

/-- Nothing is sent for a started device: then its table is still the same. -/
theorem Touched.same (touched : Touched base memory) (started : memory.started = true)
    (quiet : memory.memoryChanged = false ∨ memory.started = false ∨
      memory.memChangedEndAddr < memory.memChangedStartAddr) : memory.mem = base.mem := by
  rcases touched.table with same | ⟨changed, order⟩
  · exact same
  rcases quiet with unchanged | stopped | empty
  · rw [changed] at unchanged
    cases unchanged
  · rw [started] at stopped
    cases stopped
  · rw [UInt64.lt_iff_toNat_lt] at empty
    omega

theorem vhostSetMemory_touched {add : Bool}
    (fits : sec.offsetWithinAddressSpace.toNat + sec.size ≤ 2 ^ 64) (touched : Touched base memory)
    (result : vhostSetMemory env regions sec add memory = some after) : Touched base after := by
  rcases vhostSetMemory_cases result with rfl | ⟨size, left, mem, size_eq, nonzero, -, -, rfl⟩
  · exact touched
  have sizeNat := int128Get64_some size_eq
  have positive : 0 < size.toNat := UInt64.pos_iff_ne_zero.mpr nonzero
  have last : (sec.offsetWithinAddressSpace + size - 1).toNat =
      sec.offsetWithinAddressSpace.toNat + size.toNat - 1 := by
    simp only [UInt64.toNat_sub, UInt64.toNat_add, UInt64.reduceToNat]
    omega
  refine ⟨touched.started, .inr ⟨rfl, ?_⟩⟩
  rw [min_toNat, max_toNat, last]
  omega

theorem topologyChange_touched {adding : Bool} {change : Change}
    (fits : ∀ fr, change.old? = some fr ∨ change.new? = some fr →
      0 ≤ fr.addr.start ∧ fr.addr.last ≤ 2 ^ 64) (touched : Touched base memory)
    (result : topologyChange (vhostListener env) regions 0 adding memory change = some after) :
    Touched base after := by
  have sectionFits {fr : FlatRange} {sec : MemoryRegionSection}
      (bounds : 0 ≤ fr.addr.start ∧ fr.addr.last ≤ 2 ^ 64) (sec_eq : fr.toSection 0 = some sec) :
      sec.offsetWithinAddressSpace.toNat + sec.size ≤ 2 ^ 64 := by
    obtain ⟨start, start_eq, rfl⟩ := Option.map_eq_some_iff.mp sec_eq
    have startNat := int128Get64_some start_eq
    simp only [AddrRange.last] at bounds ⊢
    omega
  cases change with
  | keep old new =>
    rw [topologyChange_keep result]
    exact touched
  | del old =>
    rw [topologyChange] at result
    split at result
    · obtain ⟨sec, sec_eq, deleted⟩ := updateRegion_section result
      have bounds := sectionFits (fits old (.inl rfl)) sec_eq
      simp only [vhostListener, vhostRegionDel] at deleted
      split at deleted
      · cases deleted
        exact touched
      · obtain ⟨removed, removedResult, rfl⟩ := Option.map_eq_some_iff.mp deleted
        obtain ⟨started, table⟩ := vhostSetMemory_touched bounds touched removedResult
        exact ⟨started, table⟩
    · cases result
      exact touched
  | add new =>
    rw [topologyChange] at result
    split at result
    · obtain ⟨sec, sec_eq, added⟩ := updateRegion_section result
      have bounds := sectionFits (fits new (.inr rfl)) sec_eq
      simp only [vhostListener, vhostRegionAdd] at added
      split at added
      · cases added
        exact touched
      have appended : Touched base
          { memory with memSections := memory.memSections ++ [sec] } :=
        ⟨touched.started, touched.table⟩
      exact vhostSetMemory_touched bounds appended added
    · cases result
      exact touched

theorem vhostRegister_stopped {view : FlatView}
    (result : vhostRegister env regions view = some memory) : memory.started = false := by
  refine foldlM_invariant (fun memory => memory.started = false)
    (fun before fr _ after stopped step => ?_) rfl result
  obtain ⟨sec, -, added⟩ := Option.bind_eq_some_iff.mp step
  rw [vhostRegionAdd] at added
  split at added
  · cases added
    exact stopped
  · rcases vhostSetMemory_cases added with rfl | ⟨_, _, _, _, _, _, _, rfl⟩
    · exact stopped
    · exact stopped

theorem MemoryMap.bounds (map : MemoryMap env isRam) {fr : FlatRange} (member : fr ∈ map.view) :
    0 ≤ fr.addr.start ∧ fr.addr.last ≤ 2 ^ 64 :=
  ⟨(map.rendered.ordered.bounds fr member).1, (map.rendered.placed fr member).high⟩

theorem updateTable_touched {old new : MemoryMap env isRam}
    (result : updateTable old new memory = some after) : Touched memory after := by
  have fits {change : Change} (member : change ∈ flatviewDiff old.view new.view) (fr : FlatRange)
      (here : change.old? = some fr ∨ change.new? = some fr) :
      0 ≤ fr.addr.start ∧ fr.addr.last ≤ 2 ^ 64 := by
    rcases here with isOld | isNew
    · apply old.bounds
      rw [← flatviewDiff_old old.view new.view]
      exact List.mem_filterMap.mpr ⟨change, member, isOld⟩
    · apply new.bounds
      rw [← flatviewDiff_new old.view new.view]
      exact List.mem_filterMap.mpr ⟨change, member, isNew⟩
  have pass {adding : Bool} {start last : VhostMemoryDev} (touched : Touched memory start)
      (passed : addressSpaceUpdateTopologyPass (vhostListener env) new.regions 0 old.view new.view
        adding start = some last) : Touched memory last :=
    foldlM_invariant (Touched memory)
      (fun _ _ member _ kept step => topologyChange_touched (fits member) kept step) touched passed
  obtain ⟨deleted, delPass, addPass⟩ := Option.bind_eq_some_iff.mp result
  have begun : Touched memory (vhostBegin memory) := ⟨rfl, .inl rfl⟩
  exact pass (pass begun delPass) addPass

end Table

/-! ### Starting and migration -/

/-- What `vhost_dev_start` leaves: a stopped device, or one whose table was sent and whose log, if
logging is on, is new and large enough. -/
structure StartDone (dev after : VhostDev) : Prop where
  memory : after.memory = { dev.memory with started := after.memory.started }
  logEnabled : after.logEnabled = dev.logEnabled
  pending : after.pending = dev.pending
  running : after.memory.started = true → after.table = some dev.memory.mem ∧
    (dev.logEnabled = true → after.logSize = vhostGetLogSize after ∧ after.words = fun _ => 0)

theorem vhostDevStart_done {input : StartInput} (result : vhostDevStart input dev = .ok after) :
    StartDone dev after := by
  simp only [vhostDevStart] at result
  have halted {left : VhostDev} (memory : left.memory = { dev.memory with started := true })
      (logEnabled : left.logEnabled = dev.logEnabled) (pending : left.pending = dev.pending) :
      StartDone dev (left.setStarted false) := by
    refine ⟨?_, logEnabled, pending, fun started => by cases started⟩
    simp only [setStarted, memory]
  split at result
  · cases result
    exact halted rfl rfl rfl
  split at result
  · cases result
    exact halted rfl rfl rfl
  split at result
  · obtain ⟨_, -, result⟩ := bind_ok_iff.mp result
    cases result
    exact halted rfl rfl rfl
  split at result
  next off =>
    cases result
    refine ⟨rfl, rfl, rfl, fun _ => ⟨rfl, fun on => ?_⟩⟩
    simp only [setStarted, on] at off
    cases off
  split at result
  · obtain ⟨_, -, result⟩ := bind_ok_iff.mp result
    cases result
    exact halted rfl rfl rfl
  split at result
  · cases result
  · cases result
    exact ⟨rfl, rfl, rfl, fun _ => ⟨rfl, fun _ => ⟨rfl, rfl⟩⟩⟩

theorem stopQueues_safe {getVringBase : Nat → Bool} {count : Nat} :
    Never .logSize (stopQueues getVringBase count) :=
  .ite (.ok _) (.error (by decide))

theorem vhostDevStart_safe {input : StartInput} : Never .logSize (vhostDevStart input dev) := by
  refine .ite (.ok _) (.ite (.ok _) ?_)
  dsimp only
  split
  · exact .bind stopQueues_safe fun _ => .ok _
  · exact .ite (.ok _) (.ite (.bind stopQueues_safe fun _ => .ok _)
      (.ite (.error (by decide)) (.ok _)))

theorem vhostDevSetLog_safe {input : SetLogInput} : Never .logSize (vhostDevSetLog input dev) := by
  refine .ite (.ok _) ?_
  split
  · exact .ok _
  · exact .ite (.ok _) (.error (by decide))

theorem vhostMigrationLog_cases {input : MigrationInput}
    (result : vhostMigrationLog enable input dev = .ok after) :
    after = dev ∨
    (dev.memory.started = false ∧ after = { dev with logEnabled := enable }) ∨
    (dev.memory.started = true ∧ enable = false ∧
      after = { dev with log := 0, logSize := 0, logRoom := 0, logEnabled := false }) ∨
    (dev.memory.started = true ∧ dev.logEnabled = false ∧ enable = true ∧ ∃ resized,
      vhostDevLogResize (vhostGetLogSize dev) input.resize dev = .ok resized ∧
      (after = resized ∨ after = { resized with logEnabled := true })) := by
  rw [vhostMigrationLog] at result
  split at result
  · cases result
    exact .inl rfl
  next differs =>
    split at result
    next stopped =>
      cases result
      exact .inr (.inl ⟨by simpa using stopped, rfl⟩)
    next started =>
      rw [Bool.not_eq_true', Bool.not_eq_false] at started
      split at result
      next off =>
        obtain ⟨success, -, result⟩ := bind_ok_iff.mp result
        cases result
        cases success with
        | true => exact .inr (.inr (.inl ⟨started, by simpa using off, rfl⟩))
        | false => exact .inl rfl
      next on =>
        rw [Bool.not_eq_true', Bool.not_eq_false] at on
        obtain ⟨resized, resizedResult, result⟩ := bind_ok_iff.mp result
        obtain ⟨success, -, result⟩ := bind_ok_iff.mp result
        cases result
        subst on
        refine .inr (.inr (.inr ⟨started, ?_, rfl, resized, resizedResult, ?_⟩))
        · exact (Bool.eq_false_or_eq_true dev.logEnabled).resolve_left fun on => differs on.symm
        · cases success with
          | true => exact .inr rfl
          | false => exact .inl rfl

theorem vhostMigrationLog_safe {input : MigrationInput} :
    Never .logSize (vhostMigrationLog enable input dev) :=
  .ite (.ok _) (.ite (.ok _) (.ite (.bind vhostDevSetLog_safe fun _ => .ok _)
    (.bind vhostDevLogResize_safe fun _ => .bind vhostDevSetLog_safe fun _ => .ok _)))

/-! ### The log covers the device -/

variable {env : VhostEnv} {isRam : Nat → Bool} {host next : Host env isRam}
  {action : LogAction env isRam} {input : CommitInput}

def Covered (dev : VhostDev) : Prop :=
  dev.memory.started = true → dev.logEnabled = true → vhostGetLogSize dev ≤ dev.logSize

theorem Covered.safe (covered : Covered dev) (last : UInt64) : SyncSafe dev last :=
  .inl fun started on => UInt64.le_iff_toNat_le.mp (covered started on)

theorem Covered.of_setup (covered : Covered dev) (same : SameSetup dev after) : Covered after := by
  intro started on
  rw [same.memory] at started
  rw [same.logEnabled] at on
  rw [vhostGetLogSize_congr (congrArg _ same.memory) same.vqs, same.logSize]
  exact covered started on

theorem Resized.covered (resized : Resized (vhostGetLogSize dev) dev after) :
    vhostGetLogSize after ≤ after.logSize := by
  rw [vhostGetLogSize_congr (congrArg _ resized.memory) resized.vqs, resized.logSize]
  exact UInt64.le_refl _

theorem vhostCommit_covered (result : vhostCommit input dev = .ok after)
    (touched : Touched base dev.memory) (covered : base.started = true → dev.logEnabled = true →
      vhostGetLogSize { dev with memory := base } ≤ dev.logSize) : Covered after := by
  intro started on
  rcases vhostCommit_cases result with ⟨rfl, quiet⟩ | ⟨off, rfl⟩ | ⟨-, recommitted⟩
  · have size : vhostGetLogSize after = vhostGetLogSize { after with memory := base } :=
      vhostGetLogSize_congr (touched.same started quiet) rfl
    rw [size]
    exact covered (touched.started ▸ started) on
  · rw [tableSettled] at on
    rw [off] at on
    cases on
  · have same : vhostGetLogSize after = vhostGetLogSize dev :=
      vhostGetLogSize_congr (by rw [recommitted.memory]) recommitted.vqs
    rw [same, UInt64.le_iff_toNat_le]
    exact recommitted.covered

theorem transact_eq {new : MemoryMap env isRam} (result : transact new input host = .ok next) :
    ∃ memory after,
      updateTable host.map new host.dev.memory = some memory ∧
      vhostCommit input { host.dev with memory } = .ok after ∧ next = ⟨new, after⟩ := by
  rw [transact] at result
  split at result
  · cases result
  next memory update =>
    obtain ⟨after, committed, result⟩ := bind_ok_iff.mp result
    cases result
    exact ⟨memory, after, update, committed, rfl⟩

theorem map_host_ok {outcome : Except Abort VhostDev}
    (result : (outcome.map fun dev => { host with dev }) = .ok next) :
    ∃ after, outcome = .ok after ∧ next = { host with dev := after } := by
  cases outcome with
  | error failure => cases result
  | ok after =>
    cases result
    exact ⟨after, rfl, rfl⟩

theorem Covered.step (covered : Covered host.dev) (taken : logStep host action = .ok next) :
    Covered next.dev := by
  cases action with
  | mark gpa =>
    cases taken
    exact covered.of_setup (mark_setup host.dev gpa)
  | logSync sec arrivals =>
    obtain ⟨after, synced, rfl⟩ := map_host_ok taken
    obtain ⟨visits, -, result⟩ := bind_ok_iff.mp synced
    cases result
    exact covered.of_setup (sync_setup host.dev visits arrivals)
  | transact new input =>
    obtain ⟨memory, after, update, committed, rfl⟩ := transact_eq taken
    exact vhostCommit_covered committed (updateTable_touched update) covered
  | start input =>
    obtain ⟨after, startResult, rfl⟩ := map_host_ok taken
    have done := vhostDevStart_done startResult
    intro started on
    obtain ⟨size, -⟩ := (done.running started).2 (done.logEnabled ▸ on)
    rw [size]
    exact UInt64.le_refl _
  | stop getVringBase arrivals =>
    obtain ⟨after, stopped, rfl⟩ := map_host_ok taken
    obtain ⟨_, -, result⟩ := bind_ok_iff.mp stopped
    obtain ⟨visits, -, result⟩ := bind_ok_iff.mp result
    cases result
    intro started
    cases started
  | migrationLog enable input =>
    obtain ⟨after, migrated, rfl⟩ := map_host_ok taken
    rcases vhostMigrationLog_cases migrated with rfl | ⟨stopped, rfl⟩ | ⟨-, -, rfl⟩ |
      ⟨-, off, -, resized, resizedResult, rfl | rfl⟩
    · exact covered
    · intro started
      rw [stopped] at started
      cases started
    · intro _ on
      cases on
    · intro _ on
      rw [(vhostDevLogResize_resized resizedResult).logEnabled, off] at on
      cases on
    · intro _ _
      exact (vhostDevLogResize_resized resizedResult).covered

/-- No operation on a covered device fails an assertion on `log_size`. -/
theorem Covered.logStep_safe (covered : Covered host.dev) (action : LogAction env isRam) :
    Never .logSize (logStep host action) := by
  cases action with
  | mark gpa => exact .ok _
  | logSync sec arrivals =>
    exact .map (.bind (vhostSyncDirtyBitmap_safe (covered.safe _)) fun _ => .ok _)
  | transact new input =>
    rw [logStep, transact]
    split
    · exact .error (by decide)
    · exact .bind vhostCommit_safe fun _ => .ok _
  | start input => exact .map vhostDevStart_safe
  | stop getVringBase arrivals =>
    exact .map (.bind stopQueues_safe fun _ =>
      .bind (vhostLogSyncRange_safe (covered.safe _)) fun _ => .ok _)
  | migrationLog enable input => exact .map vhostMigrationLog_safe

theorem logStep_of_machine (taken : (logMachine env isRam).step host action = some next) :
    logStep host action = .ok next :=
  toOption_eq_some.mp taken

/-- In every run, a started device under logging has a log of at least the size it needs, and no
sync fails an assertion on its size. -/
theorem log_covers_device
    (reached : (logMachine env isRam).Reached Machine.anyAction host) :
    (host.dev.memory.started = true → host.dev.logEnabled = true →
      vhostGetLogSize host.dev ≤ host.dev.logSize) ∧
    ∀ action, logStep host action ≠ .error .logSize := by
  have initially : ∀ start : Host env isRam, Initialised start → Covered start.dev := by
    intro start initialised _ on
    rw [initialised.logEnabled] at on
    cases on
  have covered : Covered host.dev := reached.invariant initially fun _ _ _ before _ taken =>
    Covered.step before (logStep_of_machine taken)
  exact ⟨covered, covered.logStep_safe⟩

/-! ### The backend knows the log -/

/-- The backend was told where the log is, and the log reaches every region of the backend's
table. -/
structure Told (dev : VhostDev) : Prop where
  base : dev.logBase = some dev.log
  room : dev.logSize.toNat * 8 ≤ dev.logRoom.toNat
  reaches : ∃ table, dev.table = some table ∧ ∀ reg ∈ table,
    rangeGetLast reg.guestPhysAddr reg.memorySize / vhostLogChunk < dev.logSize

def StartsUnlogged (host : Host env isRam) : LogAction env isRam → Prop
  | .start _ => host.dev.logEnabled = false
  | _ => True

/-- A started device has sent its table, and under logging it has announced its log. -/
structure Informed (dev : VhostDev) : Prop where
  table : dev.memory.started = true → dev.table = some dev.memory.mem
  log : dev.memory.started = true → dev.logEnabled = true → Announced dev

theorem Announced.room (announced : Announced dev) : dev.logSize.toNat * 8 ≤ dev.logRoom.toNat := by
  have small := announced.small
  rw [announced.logRoom, UInt64.toNat_mul]
  simp only [UInt64.reduceToNat]
  omega

theorem Informed.told (informed : Informed dev) (covered : Covered dev)
    (started : dev.memory.started = true) (on : dev.logEnabled = true) : Told dev := by
  have announced := informed.log started on
  refine ⟨announced.logBase, announced.room, dev.memory.mem, informed.table started, ?_⟩
  intro reg member
  have inside : (reg.guestPhysAddr, rangeGetLast reg.guestPhysAddr reg.memorySize) ∈
      loggedRanges dev :=
    List.mem_append_left _ (List.mem_map.mpr ⟨reg, member, rfl⟩)
  have below := range_lt_logSize inside
  have size := UInt64.le_iff_toNat_le.mp (covered started on)
  exact lt_of_lt_of_le below size

theorem Informed.of_setup (informed : Informed dev) (same : SameSetup dev after) :
    Informed after := by
  constructor
  · intro started
    rw [same.memory] at started
    rw [same.table, same.memory]
    exact informed.table started
  · intro started on
    rw [same.memory] at started
    rw [same.logEnabled] at on
    obtain ⟨logBase, logRoom, small⟩ := informed.log started on
    refine ⟨?_, ?_, ?_⟩
    · rw [same.logBase, same.log, logBase]
    · rw [same.logRoom, same.logSize, logRoom]
    · rwa [same.logSize]

theorem vhostCommit_informed (result : vhostCommit input dev = .ok after)
    (touched : Touched base dev.memory) (informed : Informed { dev with memory := base }) :
    Informed after := by
  rcases vhostCommit_cases result with ⟨rfl, quiet⟩ | ⟨off, rfl⟩ | ⟨-, recommitted⟩
  · constructor
    · intro started
      rw [touched.same started quiet]
      exact informed.table (touched.started ▸ started)
    · intro started on
      obtain ⟨logBase, logRoom, small⟩ := informed.log (touched.started ▸ started) on
      exact ⟨logBase, logRoom, small⟩
  · constructor
    · intro _
      rfl
    · intro _ on
      rw [off] at on
      cases on
  · constructor
    · intro _
      rw [recommitted.table, recommitted.memory]
    intro started on
    rcases recommitted.log with announced | ⟨log, logSize, logRoom, logBase⟩
    · exact announced
    rw [recommitted.memory, touched.started] at started
    rw [recommitted.logEnabled] at on
    obtain ⟨oldBase, oldRoom, oldSmall⟩ := informed.log started on
    refine ⟨?_, ?_, ?_⟩
    · rw [logBase, log, oldBase]
    · rw [logRoom, logSize, oldRoom]
    · rwa [logSize]

theorem Informed.step (informed : Informed host.dev) (allowed : StartsUnlogged host action)
    (taken : logStep host action = .ok next) : Informed next.dev := by
  cases action with
  | mark gpa =>
    cases taken
    exact informed.of_setup (mark_setup host.dev gpa)
  | logSync sec arrivals =>
    obtain ⟨after, synced, rfl⟩ := map_host_ok taken
    obtain ⟨visits, -, result⟩ := bind_ok_iff.mp synced
    cases result
    exact informed.of_setup (sync_setup host.dev visits arrivals)
  | transact new input =>
    obtain ⟨memory, after, update, committed, rfl⟩ := transact_eq taken
    exact vhostCommit_informed committed (updateTable_touched update) informed
  | start input =>
    obtain ⟨after, startResult, rfl⟩ := map_host_ok taken
    have done := vhostDevStart_done startResult
    constructor
    · intro started
      rw [(done.running started).1, done.memory]
    · intro _ on
      rw [done.logEnabled, allowed] at on
      cases on
  | stop getVringBase arrivals =>
    obtain ⟨after, stopped, rfl⟩ := map_host_ok taken
    obtain ⟨_, -, result⟩ := bind_ok_iff.mp stopped
    obtain ⟨visits, -, result⟩ := bind_ok_iff.mp result
    cases result
    constructor <;> intro started <;> cases started
  | migrationLog enable input =>
    obtain ⟨after, migrated, rfl⟩ := map_host_ok taken
    rcases vhostMigrationLog_cases migrated with rfl | ⟨stopped, rfl⟩ | ⟨-, -, rfl⟩ |
      ⟨started, off, -, resized, resizedResult, rfl | rfl⟩
    · exact informed
    · constructor <;> intro started <;> rw [stopped] at started <;> cases started
    · refine ⟨informed.table, fun _ on => ?_⟩
      cases on
    all_goals
      have spec := vhostDevLogResize_resized resizedResult
      have announced := spec.announced (le_trans (vhostGetLogSize_le host.dev) (by decide))
      refine ⟨fun _ => ?_, fun _ _ => { announced with }⟩
      rw [spec.table, spec.memory]
      exact informed.table started

/-- In every run that starts the device only while logging is off, a started device under logging
has told the backend where its log is. -/
theorem startsUnlogged_told (reached : (logMachine env isRam).Reached StartsUnlogged host)
    (started : host.dev.memory.started = true) (on : host.dev.logEnabled = true) : Told host.dev :=
    by
  have initially : ∀ start : Host env isRam, Initialised start →
      Covered start.dev ∧ Informed start.dev := by
    intro start initialised
    have stopped : start.dev.memory.started = false :=
      vhostRegister_stopped initialised.registered
    have notStarted : start.dev.memory.started ≠ true := by
      rw [stopped]
      exact Bool.false_ne_true
    exact ⟨fun running => absurd running notStarted,
      fun running => absurd running notStarted, fun running => absurd running notStarted⟩
  have invariant : Covered host.dev ∧ Informed host.dev :=
    reached.invariant initially fun _ _ _ before allowed taken =>
      ⟨Covered.step before.1 (logStep_of_machine taken),
        Informed.step before.2 allowed (logStep_of_machine taken)⟩
  exact invariant.2.told invariant.1 started on

/-! ### A machine to start from -/

def bootRam (mr : Nat) : Bool := mr = 1 || mr = 2

/-- The machine of `bootRegions` with other links, and the view that it renders to. -/
def linkedMap (regions : Regions) (view : FlatView)
    (result : generateMemoryTopology regions 3 (some 0) = some view)
    (same : ∀ mr, (regions mr).ram = (bootRegions mr).ram ∧
      (regions mr).size = (bootRegions mr).size) : MemoryMap bootEnv bootRam where
  regions := regions
  view := view
  rendered := generateMemoryTopology_rendered result
  ram mr := by
    rw [(same mr).1]
    match mr with
    | 0 | 1 | 2 => rfl
    | _ + 3 => simp [bootRegions, bootRam]
  hosted mr ram := by
    rw [(same mr).1] at ram
    rw [(same mr).2]
    exact bootState_registered.hosted mr ram

def bootMap : MemoryMap bootEnv bootRam :=
  linkedMap bootRegions [⟨1, 0, ⟨0x1000, 0x1000⟩, 0, true, false⟩] (by decide +kernel) fun _ =>
    ⟨rfl, rfl⟩

def bootHost : Host bootEnv bootRam where
  map := bootMap
  dev :=
    { memory := ⟨[⟨0x1000, 0x1000, 0x10000000⟩], [⟨1, 0, 0, 0x1000, 0x1000, false⟩], 0, 0x1fff,
        true, false⟩
      vqs := [⟨0, 0⟩]
      logEnabled := false
      log := 0
      logSize := 0
      words := fun _ => 0
      logRoom := 0
      logBase := none
      table := none
      pending := [] }

theorem bootHost_initialised : Initialised bootHost :=
  ⟨by decide +kernel, rfl, rfl, rfl, rfl, rfl⟩

def goodStart : StartInput where
  setFeatures := true
  setMemTable := true
  queue := fun _ => ⟨true, true, true, true, true, 0x1800, 0x100, true, true, true, true⟩
  getVringBase := fun _ => true
  address := 0x7000
  setLogBase := true

def goodMigration : MigrationInput where
  setLog := ⟨true, fun _ => true, fun _ => true, true⟩
  resize := ⟨0x8000, true⟩

variable {allowed : Host bootEnv bootRam → LogAction bootEnv bootRam → Prop}

theorem bootHost_reached : (logMachine bootEnv bootRam).Reached allowed bootHost :=
  .start bootHost_initialised

def loggedHost : Host bootEnv bootRam where
  map := bootMap
  dev :=
    { bootHost.dev with
      memory := { bootHost.dev.memory with started := true }
      vqs := [⟨0x1800, 0x100⟩]
      logEnabled := true
      log := 0x8000
      logSize := 1
      logRoom := 8
      logBase := some 0x8000
      table := some [⟨0x1000, 0x1000, 0x10000000⟩] }

theorem loggedHost_reached (start : allowed bootHost (.start goodStart))
    (migrate : ∀ host, allowed host (.migrationLog true goodMigration)) :
    (logMachine bootEnv bootRam).Reached allowed loggedHost := by
  have started : (logMachine bootEnv bootRam).step bootHost (.start goodStart) = some
      { bootHost with dev :=
        { bootHost.dev with
          memory := { bootHost.dev.memory with started := true }
          vqs := [⟨0x1800, 0x100⟩]
          table := some [⟨0x1000, 0x1000, 0x10000000⟩] } } := rfl
  exact (bootHost_reached.step start started).step (migrate _) rfl

theorem log_covers_device_migrating : loggedHost.dev.memory.started = true ∧
    loggedHost.dev.logEnabled = true ∧ vhostGetLogSize loggedHost.dev ≤ loggedHost.dev.logSize ∧
    logStep loggedHost (.stop (fun _ => true) []) ≠ .error .logSize := by
  have covers := log_covers_device (loggedHost_reached trivial fun _ => trivial)
  exact ⟨rfl, rfl, covers.1 rfl rfl, covers.2 _⟩

theorem startsUnlogged_told_migrating : Told loggedHost.dev :=
  startsUnlogged_told (loggedHost_reached rfl fun _ => trivial) rfl rfl

/-- A device that is started under logging announces the first word of its log as its
address. -/
theorem told_fails_on_start : ¬ ∀ host : Host bootEnv bootRam,
    (logMachine bootEnv bootRam).Reached Machine.anyAction host →
      host.dev.memory.started = true → host.dev.logEnabled = true → Told host.dev := by
  intro always
  have logging : (logMachine bootEnv bootRam).step bootHost (.migrationLog true goodMigration) =
      some { bootHost with dev := { bootHost.dev with logEnabled := true } } := rfl
  have started : (logMachine bootEnv bootRam).step
      { bootHost with dev := { bootHost.dev with logEnabled := true } } (.start goodStart) = some
      { bootHost with dev :=
        { loggedHost.dev with log := 0x7000, logBase := some 0 } } := rfl
  have told := always _ ((bootHost_reached.step trivial logging).step trivial started) rfl rfl
  have base : some 0 = some (0x7000 : UInt64) := told.base
  exact absurd base (by decide)

end VhostUser.Qemu.VhostLog
