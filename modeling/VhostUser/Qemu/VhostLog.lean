import VhostUser.Lib.Fallible
import VhostUser.Qemu.VhostMirror
import Mathlib.Logic.Function.Basic

/-!
Contract: the dirty log of a vhost device (`vhost_dev_sync_region`,
`vhost_sync_dirty_bitmap`, `vhost_log_sync_range`, `vhost_get_log_size`,
`vhost_dev_log_resize`, `vhost_commit`, `vhost_migration_log`, `vhost_dev_start`
and `vhost_dev_stop` in `vhost.c`).

The backend writes the log while QEMU reads it. Every sync is the list of its
visits to log chunks, and the writes that arrive before each visit are an input.
After `VHOST_SET_LOG_BASE` the backend writes to the new log, so what it writes
while the old one is emptied counts as written after that. The answers of the
backend and of `cpu_physical_memory_map` are inputs too.

Owns: the device with its log, and the machine of everything that happens to it.

Does not own: the table `dev->mem` (`VhostMemory`, `VhostListener`).
-/

namespace VhostUser.Qemu.VhostLog

open VhostUser.Lib

def vhostLogPage : UInt64 := 0x1000

/-- `VHOST_LOG_CHUNK`: the 64 pages of one word of the log. -/
def vhostLogChunk : UInt64 := 0x40000

/-- `VHOST_LOG_BUFFER`: one page of log words. -/
def vhostLogBuffer : UInt64 := 512

/-- The fields of `struct vhost_virtqueue` that the log uses. -/
structure VhostVirtqueue where
  usedPhys : UInt64
  usedSize : UInt32
deriving DecidableEq, Repr

/-- A write of the backend to the log: the address it is for, and the RAM that the
address denotes. -/
structure Mark where
  gpa : UInt64
  mr : Nat
  offset : UInt64
deriving DecidableEq, Repr

structure DirtyReport where
  mr : Nat
  offset : UInt64
deriving DecidableEq, Repr

def DirtyReport.isFor (report : DirtyReport) (mark : Mark) : Bool :=
  report.mr = mark.mr && mark.offset - report.offset < vhostLogPage

inductive Abort where
  /-- One of the two assertions of `vhost_dev_sync_region` on `log_size`. -/
  | logSize
  /-- Another assertion. -/
  | assertion
  /-- A null pointer is read. -/
  | fault
deriving DecidableEq, Repr

abbrev LogWords := Nat → UInt64

/-- `struct vhost_dev`. The last four fields record the bytes that `log` points to, what the last
`VHOST_SET_LOG_BASE` and `VHOST_SET_MEM_TABLE` carried, and the marks not reported since. -/
structure VhostDev where
  memory : VhostMemoryDev
  vqs : List VhostVirtqueue
  logEnabled : Bool
  log : UInt64
  logSize : UInt64
  words : LogWords
  logRoom : UInt64
  logBase : Option UInt64
  table : Option (List VhostMemoryRegion)
  pending : List Mark

/-! ### Writing the log -/

def covers (sec : MemoryRegionSection) (gpa : UInt64) : Bool :=
  sec.offsetWithinAddressSpace ≤ gpa &&
    (gpa - sec.offsetWithinAddressSpace).toNat < sec.size

/-- The RAM that an address in a section denotes. -/
def offsetIn (sec : MemoryRegionSection) (gpa : UInt64) : UInt64 :=
  gpa - sec.offsetWithinAddressSpace + sec.offsetWithinRegion

/-- The marks that a write leaves on record: one if a RAM section maps the address. -/
def markOf (sections : List MemoryRegionSection) (gpa : UInt64) : List Mark :=
  ((sections.find? fun sec => covers sec gpa).map fun sec =>
    ⟨gpa, sec.mr, offsetIn sec gpa⟩).toList

def setBit (words : LogWords) (gpa : UInt64) : LogWords :=
  Function.update words (gpa / vhostLogChunk).toNat
    (words (gpa / vhostLogChunk).toNat ||| (1 : UInt64) <<< (gpa / vhostLogPage % 64))

def VhostDev.mark (dev : VhostDev) (gpa : UInt64) : VhostDev :=
  { dev with
    words := setBit dev.words gpa
    pending := dev.pending ++ markOf dev.memory.memSections gpa }

/-! ### Reading the log -/

/-- A turn of the loop of `vhost_dev_sync_region`: a word of the log, read for a
section. -/
structure Visit where
  sec : MemoryRegionSection
  chunk : Nat
deriving DecidableEq, Repr

/-- The bits that `ffsll` finds one after the other. -/
def setBits (word : UInt64) : List Nat :=
  (List.range 64).filter fun bit => word.toNat.testBit bit

def Visit.report (visit : Visit) (bit : Nat) : DirtyReport :=
  let addr := UInt64.ofNat visit.chunk * vhostLogChunk
  let pageAddr := addr + UInt64.ofNat bit * vhostLogPage
  ⟨visit.sec.mr, pageAddr - visit.sec.offsetWithinAddressSpace + visit.sec.offsetWithinRegion⟩

def VhostDev.visit (dev : VhostDev) (visit : Visit) : VhostDev :=
  { dev with
    words := Function.update dev.words visit.chunk 0
    pending := dev.pending.filter fun mark =>
      !((setBits (dev.words visit.chunk)).map visit.report).any (·.isFor mark) }

def VhostDev.sync (dev : VhostDev) : List Visit → List (List UInt64) → VhostDev
  | [], _ => dev
  | visit :: rest, arrivals =>
    ((arrivals.headD []).foldl VhostDev.mark dev |>.visit visit).sync rest arrivals.tail

def vhostDevSyncRegion (dev : VhostDev) (sec : MemoryRegionSection)
    (mfirst mlast rfirst rlast : UInt64) : Except Abort (List Visit) :=
  let start := max mfirst rfirst
  let stop := min mlast rlast
  if stop < start then .ok []
  else if ¬ stop / vhostLogChunk < dev.logSize then .error .logSize
  else if ¬ start / vhostLogChunk < dev.logSize then .error .logSize
  else
    let first := (start / vhostLogChunk).toNat
    .ok ((List.range ((stop / vhostLogChunk).toNat + 1 - first)).map fun turn =>
      ⟨sec, first + turn⟩)

/-- The first and last byte of the table entries and of the used rings. -/
def loggedRanges (dev : VhostDev) : List (UInt64 × UInt64) :=
  (dev.memory.mem.map fun reg =>
      (reg.guestPhysAddr, rangeGetLast reg.guestPhysAddr reg.memorySize)) ++
    dev.vqs.map fun vq => (vq.usedPhys, rangeGetLast vq.usedPhys vq.usedSize.toUInt64)

def vhostSyncDirtyBitmap (dev : VhostDev) (first last : UInt64) (sec : MemoryRegionSection) :
    Except Abort (List Visit) :=
  if !dev.logEnabled || !dev.memory.started then .ok []
  else
    match int128Get64 sec.size with
    | none => .error .assertion
    | some size =>
      let startAddr := max first sec.offsetWithinAddressSpace
      let endAddr := min last (rangeGetLast sec.offsetWithinAddressSpace size)
      concatMap (fun range => vhostDevSyncRegion dev sec startAddr endAddr range.1 range.2)
        (loggedRanges dev)

def vhostLogSync (sec : MemoryRegionSection) (arrivals : List (List UInt64)) (dev : VhostDev) :
    Except Abort VhostDev := do
  let visits ← vhostSyncDirtyBitmap dev 0 (-1) sec
  return dev.sync visits arrivals

def vhostLogSyncRange (dev : VhostDev) (first last : UInt64) : Except Abort (List Visit) :=
  concatMap (vhostSyncDirtyBitmap dev first last) dev.memory.memSections

/-! ### The size of the log -/

def vhostGetLogSize (dev : VhostDev) : UInt64 :=
  (loggedRanges dev).foldl (fun size range => max size (range.2 / vhostLogChunk + 1)) 0

/-- What `vhost_dev_log_resize` meets: where the new log is, and whether the backend
takes it. -/
structure ResizeInput where
  address : UInt64
  setLogBase : Bool
deriving DecidableEq, Repr

def gMalloc0 (address bytes : UInt64) : UInt64 := if bytes = 0 then 0 else address

def oldLogVisits (dev : VhostDev) : Except Abort (List Visit) :=
  if dev.logSize ≠ 0 then vhostLogSyncRange dev 0 (dev.logSize * vhostLogChunk - 1) else .ok []

def VhostDev.replaceLog (dev : VhostDev) (log size : UInt64) : VhostDev :=
  { dev with
    log, logSize := size, words := fun _ => 0, logRoom := size * 8, logBase := some log }

def vhostDevLogResize (size : UInt64) (input : ResizeInput) (dev : VhostDev) :
    Except Abort VhostDev :=
  let log := gMalloc0 input.address (size * 8)
  if !input.setLogBase then .error .assertion
  else do
    let visits ← oldLogVisits dev
    return (dev.sync visits []).replaceLog log size

/-! ### Memory transactions -/

structure CommitInput where
  ringsMapped : Bool
  setMemTable : Bool
  grow : ResizeInput
  shrink : ResizeInput
deriving DecidableEq, Repr

def sendTable (accepted : Bool) (dev : VhostDev) : Except Abort VhostDev :=
  if accepted then .ok { dev with table := some dev.memory.mem } else .error .assertion

/-- To log more, the log grows before the table update. -/
def growLog (size : UInt64) (input : ResizeInput) (dev : VhostDev) : Except Abort VhostDev :=
  if dev.logSize < size then vhostDevLogResize (size + vhostLogBuffer) input dev else .ok dev

/-- To log less, it shrinks after the table update. -/
def shrinkLog (size : UInt64) (input : ResizeInput) (dev : VhostDev) : Except Abort VhostDev :=
  if size + vhostLogBuffer < dev.logSize then vhostDevLogResize size input dev else .ok dev

def VhostDev.tableSettled (dev : VhostDev) : VhostDev :=
  { dev with memory := { dev.memory with memoryChanged := false } }

def vhostCommit (input : CommitInput) (dev : VhostDev) : Except Abort VhostDev :=
  if !dev.memory.memoryChanged then .ok dev
  else if !dev.memory.started then .ok dev
  else if dev.memory.memChangedEndAddr < dev.memory.memChangedStartAddr then .ok dev
  else if !input.ringsMapped then .error .assertion
  else if !dev.logEnabled then do
    let sent ← sendTable input.setMemTable dev
    return sent.tableSettled
  else do
    let size := vhostGetLogSize dev
    let grown ← growLog size input.grow dev
    let sent ← sendTable input.setMemTable grown
    let shrunk ← shrinkLog size input.shrink sent
    return shrunk.tableSettled

variable (env : VhostEnv) (isRam : Nat → Bool)

/-- The regions, of which some are RAM for good, and the flat view that they have. -/
structure MemoryMap where
  regions : Regions
  view : FlatView
  rendered : Rendered regions view
  ram : ∀ mr, (regions mr).ram = isRam mr
  hosted : HostedRam env regions

structure Host where
  map : MemoryMap env isRam
  dev : VhostDev

variable {env isRam}

/-- What the passes of `address_space_update_topology` do to the table. -/
def updateTable (old new : MemoryMap env isRam) (memory : VhostMemoryDev) : Option VhostMemoryDev :=
  (addressSpaceUpdateTopologyPass (vhostListener env) new.regions 0 old.view new.view false
      (vhostBegin memory)).bind
    (addressSpaceUpdateTopologyPass (vhostListener env) new.regions 0 old.view new.view true)

/-- A memory transaction that gives the machine a new memory map. -/
def transact (new : MemoryMap env isRam) (input : CommitInput) (host : Host env isRam) :
    Except Abort (Host env isRam) :=
  match updateTable host.map new host.dev.memory with
  | none => .error .assertion
  | some memory => do
      let dev ← vhostCommit input { host.dev with memory }
      return ⟨new, dev⟩

/-! ### Starting, stopping and migration -/

/-- The answers of the backend, whether the parts of the ring are mapped, and where the used ring
is. A failed request returns `-errno`, which is no failure where `errno` is not set. -/
structure QueueInput where
  errno : Bool
  setVringNum : Bool
  setVringBase : Bool
  descMapped : Bool
  availMapped : Bool
  usedPhys : UInt64
  usedSize : UInt32
  usedMapped : Bool
  ringMapped : Bool
  setVringAddr : Bool
  setVringKick : Bool
deriving DecidableEq, Repr

/-- `vhost_virtqueue_start`, and whether it succeeded. -/
def vhostVirtqueueStart (input : QueueInput) (vq : VhostVirtqueue) : VhostVirtqueue × Bool :=
  if !(input.setVringNum && input.setVringBase) then (vq, !input.errno)
  else if !(input.descMapped && input.availMapped) then (vq, false)
  else (⟨input.usedPhys, input.usedSize⟩, input.usedMapped && input.ringMapped &&
    (input.setVringAddr && input.setVringKick || !input.errno))

/-- The loop of `vhost_dev_start` over the queues, and the queue at which it failed. -/
def startQueues (input : Nat → QueueInput) : Nat → List VhostVirtqueue →
    List VhostVirtqueue × Option Nat
  | _, [] => ([], none)
  | idx, vq :: rest =>
    let result := vhostVirtqueueStart (input idx) vq
    if result.2 then
      let later := startQueues input (idx + 1) rest
      (result.1 :: later.1, later.2)
    else (result.1 :: rest, some idx)

/-- The calls of `vhost_virtqueue_stop` for the first `count` queues, which are
asserted to succeed. -/
def stopQueues (getVringBase : Nat → Bool) (count : Nat) : Except Abort Unit :=
  if (List.range count).all getVringBase then .ok () else .error .assertion

structure StartInput where
  setFeatures : Bool
  setMemTable : Bool
  queue : Nat → QueueInput
  getVringBase : Nat → Bool
  address : UInt64
  setLogBase : Bool

def VhostDev.setStarted (dev : VhostDev) (started : Bool) : VhostDev :=
  { dev with memory := { dev.memory with started } }

def vhostDevStart (input : StartInput) (dev : VhostDev) : Except Abort VhostDev :=
  let dev := dev.setStarted true
  if !input.setFeatures then .ok (dev.setStarted false)
  else if !input.setMemTable then .ok (dev.setStarted false)
  else
    let dev := { dev with table := some dev.memory.mem }
    let queues := startQueues input.queue 0 dev.vqs
    let dev := { dev with vqs := queues.1 }
    match queues.2 with
    | some failed => do
        stopQueues input.getVringBase failed
        return dev.setStarted false
    | none =>
      if !dev.logEnabled then .ok dev
      else
        let size := vhostGetLogSize dev
        let dev := { dev with
          log := gMalloc0 input.address (size * 8), logSize := size, words := fun _ => 0
          logRoom := size * 8 }
        if !input.setLogBase then do
          stopQueues input.getVringBase dev.vqs.length
          return dev.setStarted false
        -- the argument is `hdev->log`, and the call reads through it
        else if size = 0 then .error .fault
        else .ok { dev with logBase := some (dev.words 0) }

def vhostDevStop (getVringBase : Nat → Bool) (arrivals : List (List UInt64)) (dev : VhostDev) :
    Except Abort VhostDev := do
  stopQueues getVringBase dev.vqs.length
  let visits ← vhostLogSyncRange dev 0 (-1)
  let synced := dev.sync visits arrivals
  return { synced.setStarted false with log := 0, logSize := 0, logRoom := 0 }

/-- The answers that `vhost_dev_set_log` gets, and those of its clean-up. -/
structure SetLogInput where
  setFeatures : Bool
  setVringAddr : Nat → Bool
  undoVringAddr : Nat → Bool
  undoFeatures : Bool

/-- `vhost_dev_set_log`: whether it succeeded. The clean-up is asserted to succeed. -/
def vhostDevSetLog (input : SetLogInput) (dev : VhostDev) : Except Abort Bool :=
  if !input.setFeatures then .ok false
  else
    match (List.range dev.vqs.length).find? fun idx => !input.setVringAddr idx with
    | none => .ok true
    | some failed =>
      if (List.range (failed + 1)).all input.undoVringAddr && input.undoFeatures then .ok false
      else .error .assertion

structure MigrationInput where
  setLog : SetLogInput
  resize : ResizeInput

def vhostMigrationLog (enable : Bool) (input : MigrationInput) (dev : VhostDev) :
    Except Abort VhostDev :=
  if enable = dev.logEnabled then .ok dev
  else if !dev.memory.started then .ok { dev with logEnabled := enable }
  else if !enable then do
    let success ← vhostDevSetLog input.setLog dev
    return if success then
        { dev with log := 0, logSize := 0, logRoom := 0, logEnabled := false }
      else dev
  else do
    let dev ← vhostDevLogResize (vhostGetLogSize dev) input.resize dev
    let success ← vhostDevSetLog input.setLog dev
    return if success then { dev with logEnabled := true } else dev

/-! ### The machine -/

variable (env isRam)

inductive LogAction where
  | mark (gpa : UInt64)
  | logSync (sec : MemoryRegionSection) (arrivals : List (List UInt64))
  | transact (new : MemoryMap env isRam) (input : CommitInput)
  | start (input : StartInput)
  | stop (getVringBase : Nat → Bool) (arrivals : List (List UInt64))
  | migrationLog (enable : Bool) (input : MigrationInput)

variable {env isRam}

def logStep (host : Host env isRam) : LogAction env isRam → Except Abort (Host env isRam)
  | .mark gpa => .ok { host with dev := host.dev.mark gpa }
  | .logSync sec arrivals => (vhostLogSync sec arrivals host.dev).map fun dev => { host with dev }
  | .transact new input => transact new input host
  | .start input => (vhostDevStart input host.dev).map fun dev => { host with dev }
  | .stop getVringBase arrivals =>
    (vhostDevStop getVringBase arrivals host.dev).map fun dev => { host with dev }
  | .migrationLog enable input =>
    (vhostMigrationLog enable input host.dev).map fun dev => { host with dev }

structure Initialised (host : Host env isRam) : Prop where
  registered : vhostRegister env host.map.regions host.map.view = some host.dev.memory
  logEnabled : host.dev.logEnabled = false
  log : host.dev.log = 0
  logSize : host.dev.logSize = 0
  logRoom : host.dev.logRoom = 0
  pending : host.dev.pending = []

variable (env isRam)

def logMachine : Machine (Host env isRam) (LogAction env isRam) where
  start := Initialised
  step host action := (logStep host action).toOption

end VhostUser.Qemu.VhostLog
