import VhostUser.Qemu.DirtyPages

/-!
Contract: one pass of `vhost_log_sync` over the sections of an address space, while the backend
writes nothing.

A word of the log stands for 64 pages. The first section and range that meet one of these pages take
the whole word, and report all its bits for that section.

Owns: the calls of `memory_region_set_dirty` that a pass makes, and for which logs they are exact.

Does not own: writes that arrive during a pass (`DirtyPages`), the size of the log (`LogSize`).
-/

namespace VhostUser.Qemu.VhostLog

open VhostUser.Lib

/-! ### The calls of a pass -/

/-- A call of `memory_region_set_dirty`, with the section and the log page that it is for. -/
structure PageReport where
  sec : MemoryRegionSection
  page : UInt64
  report : DirtyReport
deriving DecidableEq, Repr

def Visit.pageAddr (visit : Visit) (bit : Nat) : UInt64 :=
  UInt64.ofNat visit.chunk * vhostLogChunk + UInt64.ofNat bit * vhostLogPage

def Visit.pageReport (visit : Visit) (bit : Nat) : PageReport :=
  ⟨visit.sec, visit.pageAddr bit, visit.report bit⟩

def readLog : LogWords → List Visit → LogWords × List PageReport
  | words, [] => (words, [])
  | words, visit :: rest =>
    let out := readLog (Function.update words visit.chunk 0) rest
    (out.1, (setBits (words visit.chunk)).map visit.pageReport ++ out.2)

def vhostLogSyncCalls (sec : MemoryRegionSection) (dev : VhostDev) :
    Except Abort (VhostDev × List PageReport) := do
  let visits ← vhostSyncDirtyBitmap dev 0 (-1) sec
  return (dev.sync visits [], (readLog dev.words visits).2)

def logSyncPass : List MemoryRegionSection → VhostDev → Except Abort (VhostDev × List PageReport)
  | [], dev => .ok (dev, [])
  | sec :: rest, dev => do
      let first ← vhostLogSyncCalls sec dev
      let later ← logSyncPass rest first.1
      return (later.1, first.2 ++ later.2)

section Reading

variable {dev : VhostDev} {words : LogWords} {visits more : List Visit} {visit : Visit}
  {sec : MemoryRegionSection} {sections : List MemoryRegionSection}

theorem sync_cons_silent : dev.sync (visit :: visits) [] = (dev.visit visit).sync visits [] := rfl

theorem sync_silent_words : (dev.sync visits []).words = (readLog dev.words visits).1 := by
  induction visits generalizing dev with
  | nil => rfl
  | cons visit rest ih =>
    rw [sync_cons_silent, ih]
    rfl

theorem readLog_append : readLog words (visits ++ more) =
    ((readLog (readLog words visits).1 more).1,
      (readLog words visits).2 ++ (readLog (readLog words visits).1 more).2) := by
  induction visits generalizing words with
  | nil => rfl
  | cons visit rest ih =>
    rw [List.cons_append, readLog, ih, readLog, List.append_assoc]

theorem sync_append : dev.sync (visits ++ more) [] = (dev.sync visits []).sync more [] := by
  induction visits generalizing dev with
  | nil => rfl
  | cons visit rest ih =>
    rw [List.cons_append, sync_cons_silent, ih, sync_cons_silent]

theorem vhostSyncDirtyBitmap_sync (first last : UInt64) :
    vhostSyncDirtyBitmap (dev.sync visits []) first last sec =
      vhostSyncDirtyBitmap dev first last sec := by
  induction visits generalizing dev with
  | nil => rfl
  | cons visit rest ih =>
    rw [sync_cons_silent, ih]
    rfl

theorem logSyncPass_eq : logSyncPass sections dev =
    (concatMap (vhostSyncDirtyBitmap dev 0 (-1)) sections).map fun visits =>
      (dev.sync visits [], (readLog dev.words visits).2) := by
  induction sections generalizing dev with
  | nil => rfl
  | cons sec rest ih =>
    rw [logSyncPass, vhostLogSyncCalls, concatMap]
    cases vhostSyncDirtyBitmap dev 0 (-1) sec with
    | error failure => rfl
    | ok visits =>
      have same : concatMap (vhostSyncDirtyBitmap (dev.sync visits []) 0 (-1)) rest =
          concatMap (vhostSyncDirtyBitmap dev 0 (-1)) rest := by
        congr 1
        funext sec
        exact vhostSyncDirtyBitmap_sync 0 (-1)
      change (logSyncPass rest (dev.sync visits []) >>= fun later =>
        .ok (later.1, (readLog dev.words visits).2 ++ later.2)) = _
      rw [ih, same]
      cases concatMap (vhostSyncDirtyBitmap dev 0 (-1)) rest with
      | error failure => rfl
      | ok later =>
        change Except.ok _ = Except.ok _
        dsimp only
        rw [sync_append, readLog_append, sync_silent_words]

theorem readLog_words (chunk : Nat) : (readLog words visits).1 chunk =
    if visits.any (·.chunk = chunk) then 0 else words chunk := by
  induction visits generalizing words with
  | nil => rfl
  | cons visit rest ih =>
    rw [readLog, ih, List.any_cons]
    by_cases here : visit.chunk = chunk
    · simp [here]
    · simp [here, Function.update_of_ne (Ne.symm here)]

theorem setBits_zero : setBits 0 = [] := by
  simp [setBits]

/-- The bits of a word are reported by the first visit that reads it. -/
theorem mem_readLog {report : PageReport} : report ∈ (readLog words visits).2 ↔
    ∃ chunk visit bit, visits.find? (·.chunk = chunk) = some visit ∧
      bit ∈ setBits (words chunk) ∧ report = visit.pageReport bit := by
  induction visits generalizing words with
  | nil => simp [readLog]
  | cons visit rest ih =>
    simp only [readLog, List.mem_append, List.mem_map, ih]
    constructor
    · rintro (⟨bit, set, rfl⟩ | ⟨chunk, later, bit, found, set, rfl⟩)
      · exact ⟨visit.chunk, visit, bit, by simp, set, rfl⟩
      by_cases here : visit.chunk = chunk
      · rw [here, Function.update_self, setBits_zero] at set
        cases set
      · rw [Function.update_of_ne (Ne.symm here)] at set
        refine ⟨chunk, later, bit, ?_, set, rfl⟩
        rw [List.find?_cons_of_neg (by simpa using here), found]
    · rintro ⟨chunk, first, bit, found, set, rfl⟩
      by_cases here : visit.chunk = chunk
      · rw [List.find?_cons_of_pos (by simpa using here)] at found
        cases found
        exact .inl ⟨bit, by rw [here]; exact set, rfl⟩
      · rw [List.find?_cons_of_neg (by simpa using here)] at found
        refine .inr ⟨chunk, first, bit, found, ?_, rfl⟩
        rw [Function.update_of_ne (Ne.symm here)]
        exact set

end Reading

section Pages

variable {words : LogWords} {visits : List Visit} {visit : Visit} {sec : MemoryRegionSection}
  {page : UInt64}

theorem mem_setBits {word : UInt64} {bit : Nat} :
    bit ∈ setBits word ↔ bit < 64 ∧ word.toNat.testBit bit = true := by
  rw [setBits, List.mem_filter, List.mem_range]

theorem pageAddr_eq_iff {bit : Nat} (inSpace : visit.chunk < 2 ^ 46) (small : bit < 64) :
    visit.pageAddr bit = page ↔ page % vhostLogPage = 0 ∧
      visit.chunk = (page / vhostLogChunk).toNat ∧ bit = (page / vhostLogPage % 64).toNat := by
  have value : (visit.pageAddr bit).toNat = visit.chunk * 0x40000 + bit * 0x1000 := by
    simp only [Visit.pageAddr, UInt64.toNat_add, UInt64.toNat_mul, UInt64.toNat_ofNat',
      vhostLogChunk, vhostLogPage, UInt64.reduceToNat]
    omega
  rw [← UInt64.toNat_inj, ← UInt64.toNat_inj, value]
  simp only [UInt64.toNat_div, UInt64.toNat_mod, vhostLogChunk, vhostLogPage, UInt64.reduceToNat]
  omega

/-- A page is reported for the section of the first visit that reads its word. -/
theorem reported_iff (inSpace : ∀ visit ∈ visits, visit.chunk < 2 ^ 46) :
    (∃ report ∈ (readLog words visits).2, report.sec = sec ∧ report.page = page) ↔
      page % vhostLogPage = 0 ∧ BitSet words page ∧
        ∃ visit, visits.find? (·.chunk = (page / vhostLogChunk).toNat) = some visit ∧
          visit.sec = sec := by
  simp only [mem_readLog, BitSet]
  constructor
  · rintro ⟨report, ⟨chunk, visit, bit, found, set, rfl⟩, rfl, same⟩
    obtain ⟨small, set⟩ := mem_setBits.mp set
    have here : visit.chunk = chunk := by simpa using List.find?_some found
    subst here
    obtain ⟨aligned, word, place⟩ :=
      (pageAddr_eq_iff (inSpace visit (List.mem_of_find?_eq_some found)) small).mp same
    rw [← word, ← place]
    exact ⟨aligned, set, visit, found, rfl⟩
  · rintro ⟨aligned, set, visit, found, rfl⟩
    have here : visit.chunk = (page / vhostLogChunk).toNat := by simpa using List.find?_some found
    refine ⟨_, ⟨_, visit, _, found, mem_setBits.mpr ⟨page_bit_lt page, set⟩, rfl⟩, rfl, ?_⟩
    exact (pageAddr_eq_iff (inSpace visit (List.mem_of_find?_eq_some found)) (page_bit_lt page)).mpr
      ⟨aligned, here, rfl⟩

theorem cleared_iff : (BitSet words page ∧ ¬ BitSet (readLog words visits).1 page) ↔
    BitSet words page ∧
      ∃ visit, visits.find? (·.chunk = (page / vhostLogChunk).toNat) = some visit := by
  refine and_congr_right fun set => ?_
  rw [BitSet, readLog_words, ← Option.isSome_iff_exists, List.find?_isSome]
  by_cases read : visits.any (·.chunk = (page / vhostLogChunk).toNat) = true
  · rw [if_pos read]
    simpa using read
  · rw [if_neg read]
    exact iff_of_false (not_not.mpr set) (by simpa using read)

end Pages

/-! ### Sections -/

/-- The page has an address of the section that is in a vhost region or in a used ring. -/
def OnPage (dev : VhostDev) (sec : MemoryRegionSection) (page : UInt64) : Prop :=
  ∃ addr, addr / vhostLogPage = page / vhostLogPage ∧ covers sec addr = true ∧ Logged dev addr

/-- The section is the first one of the pass for which the word of the page is read. -/
def FirstFor (dev : VhostDev) (sections : List MemoryRegionSection) (page : UInt64)
    (sec : MemoryRegionSection) : Prop :=
  ∃ front back, sections = front ++ sec :: back ∧ Scanned (Logged dev) sec page ∧
    ∀ other ∈ front, ¬ Scanned (Logged dev) other page

section Sections

variable {dev : VhostDev} {visits : List Visit} {page : UInt64} {sec : MemoryRegionSection}
  {sections : List MemoryRegionSection}

theorem firstFor_nil : ¬ FirstFor dev [] page sec := by
  rintro ⟨front, back, split, -⟩
  simp at split

theorem firstFor_cons {head : MemoryRegionSection} : FirstFor dev (head :: sections) page sec ↔
    (Scanned (Logged dev) head page ∧ sec = head) ∨
      (¬ Scanned (Logged dev) head page ∧ FirstFor dev sections page sec) := by
  constructor
  · rintro ⟨front, back, split, scanned, unscanned⟩
    cases front with
    | nil =>
      cases split
      exact .inl ⟨scanned, rfl⟩
    | cons first front =>
      cases split
      obtain ⟨here, later⟩ := List.forall_mem_cons.mp unscanned
      exact .inr ⟨here, front, back, rfl, scanned, later⟩
  · rintro (⟨scanned, rfl⟩ | ⟨here, front, back, rfl, scanned, later⟩)
    · exact ⟨[], sections, rfl, scanned, by simp⟩
    · exact ⟨head :: front, back, rfl, scanned, List.forall_mem_cons.mpr ⟨here, later⟩⟩

theorem SoundSection.mem_visits (sound : SoundSection sec) (started : dev.memory.started = true)
    (on : dev.logEnabled = true) (result : vhostSyncDirtyBitmap dev 0 (-1) sec = .ok visits)
    (visit : Visit) : visit ∈ visits ↔ visit.sec = sec ∧
      ∃ addr : UInt64, addr.toNat / 0x40000 = visit.chunk ∧ covers sec addr = true ∧
        Logged dev addr := by
  obtain ⟨size, size_eq, members⟩ := mem_vhostSyncDirtyBitmap started on result
  have everywhere (addr : UInt64) : 0 ≤ addr ∧ addr ≤ -1 := by
    have bound := addr.toNat_lt
    rw [UInt64.le_iff_toNat_le, UInt64.le_iff_toNat_le]
    exact ⟨Nat.zero_le _, Nat.le_of_lt_succ bound⟩
  rw [members]
  simp only [everywhere, true_and, sound.covers_range size_eq]

section

variable (sound : ∀ sec ∈ sections, SoundSection sec) (started : dev.memory.started = true)
  (on : dev.logEnabled = true)
  (result : concatMap (vhostSyncDirtyBitmap dev 0 (-1)) sections = .ok visits)
include sound started on result

/-- The first visit that reads the word of a page is one for the first section that has it read. -/
theorem firstVisit_iff :
    (∃ visit, visits.find? (·.chunk = (page / vhostLogChunk).toNat) = some visit ∧
      visit.sec = sec) ↔ FirstFor dev sections page sec := by
  induction sections generalizing visits with
  | nil =>
    cases result
    exact iff_of_false (by simp) firstFor_nil
  | cons head rest ih =>
    obtain ⟨headSound, restSound⟩ := List.forall_mem_cons.mp sound
    obtain ⟨first, later, firstResult, laterResult, rfl⟩ := concatMap_cons_ok result
    have visited := headSound.mem_visits started on firstResult
    rw [firstFor_cons, ← ih restSound laterResult, List.find?_append]
    by_cases scanned : Scanned (Logged dev) head page
    · obtain ⟨addr, chunk, covered, logged⟩ := scanned
      have read : ⟨head, (page / vhostLogChunk).toNat⟩ ∈ first := by
        refine (visited _).mpr ⟨rfl, addr, ?_, covered, logged⟩
        rw [← chunk, chunk_toNat]
      have some : (first.find? (·.chunk = (page / vhostLogChunk).toNat)).isSome = true :=
        List.find?_isSome.mpr ⟨_, read, by simp⟩
      obtain ⟨visit, found⟩ := Option.isSome_iff_exists.mp some
      have same := ((visited visit).mp (List.mem_of_find?_eq_some found)).1
      rw [found, Option.some_or]
      simp only [Option.some.injEq, exists_eq_left', same]
      have here : Scanned (Logged dev) head page := ⟨addr, chunk, covered, logged⟩
      simp only [here, true_and, not_true_eq_false, false_and, or_false]
      exact eq_comm
    · have none : first.find? (·.chunk = (page / vhostLogChunk).toNat) = none := by
        refine List.find?_eq_none.mpr fun visit member chunk => scanned ?_
        obtain ⟨-, addr, same, covered, logged⟩ := (visited visit).mp member
        refine ⟨addr, UInt64.toNat_inj.mp ?_, covered, logged⟩
        rw [chunk_toNat, same]
        simpa using chunk
      rw [none, Option.none_or]
      simp only [scanned, false_and, not_false_eq_true, true_and, false_or]

theorem pass_inSpace : ∀ visit ∈ visits, visit.chunk < 2 ^ 46 ∧ visit.sec ∈ sections := by
  intro visit member
  obtain ⟨sec, secMember, part, partResult, inPart⟩ := (mem_concatMap result visit).mp member
  obtain ⟨rfl, addr, chunk, -, -⟩ :=
    ((sound sec secMember).mem_visits started on partResult visit).mp inPart
  have bound := addr.toNat_lt
  exact ⟨by omega, secMember⟩

end

/-! ### Assertions -/

def Readable (dev : VhostDev) (sec : MemoryRegionSection) : Prop :=
  sec.size < 2 ^ 64 ∧
    ∀ addr, covers sec addr = true → Logged dev addr → addr / vhostLogChunk < dev.logSize

theorem vhostSyncDirtyBitmap_ok_iff (sound : SoundSection sec)
    (started : dev.memory.started = true) (on : dev.logEnabled = true) :
    (∃ visits, vhostSyncDirtyBitmap dev 0 (-1) sec = .ok visits) ↔ Readable dev sec := by
  have nonempty := sound.nonempty
  rw [vhostSyncDirtyBitmap, started, on, if_neg (by decide), Readable]
  by_cases small : sec.size < 2 ^ 64
  swap
  · rw [int128Get64, if_neg (by omega)]
    exact iff_of_false (by rintro ⟨_, ⟨⟩⟩) (fun readable => small readable.1)
  have fits : 0 ≤ sec.size ∧ sec.size < 2 ^ 64 := ⟨nonempty.le, small⟩
  have size_eq : int128Get64 sec.size = some (.ofNat sec.size.toNat) := if_pos fits
  have window (addr : UInt64) : (max 0 sec.offsetWithinAddressSpace ≤ addr ∧
      addr ≤ min (-1) (rangeGetLast sec.offsetWithinAddressSpace (.ofNat sec.size.toNat))) ↔
        covers sec addr = true := by
    rw [← sound.covers_range size_eq]
    have bound := (rangeGetLast sec.offsetWithinAddressSpace (.ofNat sec.size.toNat)).toNat_lt
    have top : (-1 : UInt64).toNat = 2 ^ 64 - 1 := rfl
    simp only [UInt64.le_iff_toNat_le, min_toNat, max_toNat, top, UInt64.toNat_zero]
    omega
  rw [size_eq]
  rw [concatMap_ok_iff, and_iff_right small]
  simp only [vhostDevSyncRegion_ok_iff, window, logged_iff]
  constructor
  · rintro inside addr covered ⟨range, member, within⟩
    exact inside range member addr covered within
  · intro inside range member addr covered within
    exact inside addr covered ⟨range, member, within⟩

end Sections

/-! ### Exact passes -/

/-- The log bits of the pages that are in a section and in a region or a used ring became calls
for that section, and were cleared. -/
structure Moved (dev : VhostDev) (sections : List MemoryRegionSection) (after : VhostDev)
    (reports : List PageReport) : Prop where
  reported : ∀ sec ∈ sections, ∀ page, (∃ report ∈ reports, report.sec = sec ∧ report.page = page) ↔
    page % vhostLogPage = 0 ∧ BitSet dev.words page ∧ OnPage dev sec page
  sections : ∀ report ∈ reports, report.sec ∈ sections
  offsets : ∀ report ∈ reports, report.report = ⟨report.sec.mr, report.page -
    report.sec.offsetWithinAddressSpace + report.sec.offsetWithinRegion⟩
  cleared : ∀ page, page % vhostLogPage = 0 → ((BitSet dev.words page ∧ ¬ BitSet after.words page) ↔
    ∃ report ∈ reports, report.page = page)
  kept : ∀ page, BitSet after.words page → BitSet dev.words page

/-- A pass is exact for the logs in which the word of every set bit is read first for the sections
of its page, and no assertion fails. -/
theorem logSyncPass_exact_iff (dev : VhostDev) (sections : List MemoryRegionSection)
    (sound : ∀ sec ∈ sections, SoundSection sec) (started : dev.memory.started = true)
    (on : dev.logEnabled = true) :
    (∃ after reports, logSyncPass sections dev = .ok (after, reports) ∧
      Moved dev sections after reports) ↔
      (∀ sec ∈ sections, Readable dev sec) ∧
        ∀ page, page % vhostLogPage = 0 → BitSet dev.words page → ∀ sec ∈ sections,
          (FirstFor dev sections page sec ↔ OnPage dev sec page) := by
  have readable : (∃ visits, concatMap (vhostSyncDirtyBitmap dev 0 (-1)) sections = .ok visits) ↔
      ∀ sec ∈ sections, Readable dev sec := by
    rw [concatMap_ok_iff]
    exact forall₂_congr fun sec member =>
      vhostSyncDirtyBitmap_ok_iff (sound sec member) started on
  rw [← readable, logSyncPass_eq]
  cases result : concatMap (vhostSyncDirtyBitmap dev 0 (-1)) sections with
  | error failure =>
    refine iff_of_false ?_ ?_
    · rintro ⟨after, reports, ⟨⟩, -⟩
    · rintro ⟨⟨visits, ⟨⟩⟩, -⟩
  | ok visits =>
    have inSpace := pass_inSpace sound started on result
    have reported := fun sec page =>
      (@reported_iff dev.words visits sec page fun visit member => (inSpace visit member).1).trans
        (and_congr_right fun _ => and_congr_right fun _ =>
          firstVisit_iff sound started on result)
    constructor
    · rintro ⟨after, reports, ⟨⟩, moved⟩
      refine ⟨⟨visits, rfl⟩, fun page aligned set sec member => ?_⟩
      have same := (reported sec page).symm.trans (moved.reported sec member page)
      simpa only [aligned, set, true_and] using same
    · rintro ⟨-, exact⟩
      refine ⟨_, _, rfl, fun sec member page => ?_, ?_, ?_, fun page aligned => ?_, ?_⟩
      · rw [reported]
        exact and_congr_right fun aligned => and_congr_right fun set =>
          exact page aligned set sec member
      · intro report member
        obtain ⟨chunk, visit, bit, found, -, rfl⟩ := mem_readLog.mp member
        exact (inSpace visit (List.mem_of_find?_eq_some found)).2
      · intro report member
        obtain ⟨chunk, visit, bit, -, -, rfl⟩ := mem_readLog.mp member
        rfl
      · rw [sync_silent_words, cleared_iff]
        constructor
        · rintro ⟨set, visit, found⟩
          obtain ⟨report, member, -, same⟩ := (reported_iff
            fun visit member => (inSpace visit member).1).mpr ⟨aligned, set, visit, found, rfl⟩
          exact ⟨report, member, same⟩
        · rintro ⟨report, member, rfl⟩
          obtain ⟨-, set, visit, found, -⟩ := (reported_iff
            fun visit member => (inSpace visit member).1).mp ⟨report, member, rfl, rfl⟩
          exact ⟨set, visit, found⟩
      · intro page set
        rw [sync_silent_words, BitSet, readLog_words] at set
        split at set
        · simp at set
        · exact set

def oneWord (mem : List VhostMemoryRegion) (word : UInt64) : VhostDev where
  memory := ⟨mem, [], 0, 0, false, true⟩
  vqs := []
  logEnabled := true
  log := 0x9000
  logSize := 1
  words chunk := if chunk = 0 then word else 0
  logRoom := 8
  logBase := some 0x9000
  table := some mem
  pending := []

/-- RAM for all pages of the word, of which two are dirty. -/
theorem logSyncPass_exact_oneWord : ∃ after reports,
    logSyncPass [⟨1, 0, 0, 0x40000, 0, false⟩] (oneWord [⟨0, 0x40000, 0x10000000⟩] 5) =
      .ok (after, reports) ∧
    Moved (oneWord [⟨0, 0x40000, 0x10000000⟩] 5) [⟨1, 0, 0, 0x40000, 0, false⟩] after reports := by
  have everywhere : ∀ addr : UInt64, addr.toNat < 0x40000 →
      covers ⟨1, 0, 0, 0x40000, 0, false⟩ addr = true ∧
        Logged (oneWord [⟨0, 0x40000, 0x10000000⟩] 5) addr := by
    intro addr inside
    refine ⟨?_, .inl ⟨_, List.mem_singleton_self _, ?_⟩⟩
    · simp only [covers, Bool.and_eq_true, decide_eq_true_eq, UInt64.sub_zero]
      exact ⟨UInt64.zero_le, by omega⟩
    · rw [UInt64.le_iff_toNat_le, UInt64.le_iff_toNat_le]
      exact ⟨Nat.zero_le _, Nat.le_of_lt_succ inside⟩
  refine (logSyncPass_exact_iff _ _ ?_ rfl rfl).mpr ⟨?_, fun page aligned set => ?_⟩
  · rw [List.forall_mem_singleton]
    exact ⟨by decide, by decide⟩
  · rw [List.forall_mem_singleton]
    refine ⟨by decide, fun addr covered _ => ?_⟩
    simp only [covers, Bool.and_eq_true, decide_eq_true_eq, UInt64.sub_zero] at covered
    rw [UInt64.lt_iff_toNat_lt, chunk_toNat]
    change addr.toNat / 0x40000 < 1
    omega
  · have first : page.toNat < 0x40000 := by
      refine Nat.lt_of_not_le fun beyond => ?_
      rw [BitSet, chunk_toNat] at set
      simp only [oneWord] at set
      rw [if_neg (by omega)] at set
      simp at set
    obtain ⟨covered, logged⟩ := everywhere page first
    rw [List.forall_mem_singleton]
    exact iff_of_true ⟨[], [], rfl, ⟨page, rfl, covered, logged⟩, by simp⟩
      ⟨page, rfl, covered, logged⟩

/-- Two sections of RAM in one word, and a dirty page in the second: it is reported for the first,
at an offset that the first does not have. -/
theorem logSyncPass_misreports :
    let low : MemoryRegionSection := ⟨1, 0, 0, 0x10000, 0, false⟩
    let high : MemoryRegionSection := ⟨2, 0, 0, 0x10000, 0x20000, false⟩
    let dev := oneWord [⟨0, 0x10000, 0x10000000⟩, ⟨0x20000, 0x10000, 0x20000000⟩] 0x100000000
    (∀ sec ∈ [low, high], SoundSection sec) ∧ dev.memory.started = true ∧ dev.logEnabled = true ∧
      ¬ ∃ after reports, logSyncPass [low, high] dev = .ok (after, reports) ∧
        Moved dev [low, high] after reports := by
  intro low high dev
  refine ⟨?_, rfl, rfl, ?_⟩
  · rw [List.forall_mem_cons, List.forall_mem_singleton]
    exact ⟨⟨by decide, by decide⟩, by decide, by decide⟩
  rintro ⟨after, reports, result, moved⟩
  have ran : (logSyncPass [low, high] dev).toOption.map (·.2) =
      some [⟨low, 0x20000, ⟨1, 0x20000⟩⟩] := by decide +kernel
  rw [result] at ran
  obtain rfl : reports = [⟨low, 0x20000, ⟨1, 0x20000⟩⟩] := Option.some.inj ran
  obtain ⟨-, -, addr, page, covered, -⟩ := (moved.reported low List.mem_cons_self 0x20000).mp
    ⟨_, List.mem_singleton_self _, rfl, rfl⟩
  have same := congrArg UInt64.toNat page
  simp only [low, covers, vhostLogPage, Bool.and_eq_true, decide_eq_true_eq, UInt64.sub_zero,
    UInt64.toNat_div, UInt64.reduceToNat] at same covered
  omega

end VhostUser.Qemu.VhostLog
