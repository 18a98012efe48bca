import VhostUser.Qemu.Backend
import Mathlib.Data.List.FinRange
import Mathlib.Logic.Function.Basic

/-!
Contract: starting and stopping the vhost device (`vhost_dev_start`,
`vhost_dev_stop`, `vhost_virtqueue_start`, `vhost_virtqueue_stop` in
`vhost.c`), as the calls they make to the backend and the ring positions they
leave in the virtqueues.

`vhost_user_call` never writes to its argument: the reply part is compiled out.
So `vhost_virtqueue_stop` stores the position its own initialiser put into the
state structure.

Host addresses of the rings come from `cpu_physical_memory_map`, which may fail.
The device has the two rings of a network device.
-/

namespace VhostUser.Qemu

/-- What `cpu_physical_memory_map` returned for the parts of a ring. -/
structure RingMapping where
  desc : UInt64
  avail : UInt64
  used : UInt64
  usedPhys : UInt64
deriving DecidableEq, Repr

/-- What `vhost_virtqueue_start` asks the virtio device for. -/
structure QueueConfig where
  num : UInt32
  mapping : Option RingMapping
  hostNotifier : Int
deriving DecidableEq, Repr

structure StartConfig where
  ackedFeatures : UInt64
  logEnabled : Bool
  logWord : UInt64
  blocks : List RAMBlock
  queue : Fin 2 → QueueConfig

structure Device where
  started : Bool
  lastAvailIdx : Fin 2 → UInt16

/-- `vhost_dev_set_features`; `VHOST_F_LOG_ALL` is 26. -/
def vhostDevSetFeatures (config : StartConfig) : VhostCall :=
  .setFeatures (if config.logEnabled then config.ackedFeatures ||| 0x4000000
    else config.ackedFeatures)

/-- `vhost_virtqueue_set_addr`; `VHOST_VRING_F_LOG` is 0. -/
def vhostVirtqueueSetAddr (idx : Fin 2) (mapping : RingMapping) (enableLog : Bool) : VhostCall :=
  .setVringAddr ⟨.ofNat idx, if enableLog then 1 else 0, mapping.desc, mapping.used,
    mapping.avail, mapping.usedPhys⟩

/-- The calls of `vhost_virtqueue_start`; a ring that cannot be mapped ends
them. -/
def vhostVirtqueueStart (config : StartConfig) (last : UInt16) (idx : Fin 2) : List VhostCall :=
  let queue := config.queue idx
  [.setVringNum ⟨.ofNat idx, queue.num⟩, .setVringBase ⟨.ofNat idx, last.toUInt32⟩] ++
    match queue.mapping with
    | some mapping => [vhostVirtqueueSetAddr idx mapping config.logEnabled,
        .setVringKick ⟨.ofNat idx, queue.hostNotifier⟩]
    | none => []

def vhostVirtqueueStop (idx : Fin 2) : VhostCall :=
  .getVringBase ⟨.ofNat idx, 0⟩

/-- The position `vhost_virtqueue_stop` stores: `state.num`. -/
def Device.stopQueue (device : Device) (idx : Fin 2) : Device :=
  { device with lastAvailIdx := Function.update device.lastAvailIdx idx 0 }

/-- The loop of `vhost_dev_start` over the queues. When one fails, those already started are
stopped, latest first. -/
def startQueues (config : StartConfig) (device : Device) :
    List (Fin 2) → List (Fin 2) → List VhostCall × Device
  | [], _ => ([], device)
  | idx :: rest, running =>
    let calls := vhostVirtqueueStart config (device.lastAvailIdx idx) idx
    match (config.queue idx).mapping with
    | some _ =>
      let later := startQueues config device rest (idx :: running)
      (calls ++ later.1, later.2)
    | none =>
      (calls ++ running.map vhostVirtqueueStop,
        { running.foldl Device.stopQueue device with started := false })

def vhostDevStart (config : StartConfig) (device : Device) : List VhostCall × Device :=
  -- `vhost_user_call` refuses an empty table
  if (fileBacked config.blocks).length = 0 then
    ([vhostDevSetFeatures config], { device with started := false })
  else
    let queues := startQueues config { device with started := true } (List.finRange 2) []
    let log := if config.logEnabled && queues.2.started then [VhostCall.setLogBase config.logWord]
      else []
    ([vhostDevSetFeatures config, .setMemTable] ++ queues.1 ++ log, queues.2)

def vhostDevStop (device : Device) : List VhostCall × Device :=
  ((List.finRange 2).map vhostVirtqueueStop,
    { (List.finRange 2).foldl Device.stopQueue device with started := false })

/-! ### Positions -/

/-- The positions a list of calls announces are zero, for existing rings. -/
def BasesZero (calls : List VhostCall) : Prop :=
  ∀ state, VhostCall.setVringBase state ∈ calls → state.num = 0 ∧ state.index.toNat < 2

theorem basesZero_append {left right : List VhostCall} (leftZero : BasesZero left)
    (rightZero : BasesZero right) : BasesZero (left ++ right) := by
  intro state member
  rcases List.mem_append.mp member with first | later
  · exact leftZero state first
  · exact rightZero state later

theorem stopQueues_zero {queues : List (Fin 2)} {device : Device} {idx : Fin 2}
    (zero : device.lastAvailIdx idx = 0 ∨ idx ∈ queues) :
    (queues.foldl Device.stopQueue device).lastAvailIdx idx = 0 := by
  induction queues generalizing device with
  | nil => simpa using zero
  | cons queue rest ih =>
    apply ih
    by_cases same : idx = queue
    · exact .inl (by simp [Device.stopQueue, same])
    · simpa [Device.stopQueue, same] using zero

theorem vhostVirtqueueStart_bases (config : StartConfig) (idx : Fin 2) :
    BasesZero (vhostVirtqueueStart config 0 idx) := by
  intro state member
  have index : (UInt32.ofNat idx.val).toNat < 2 := by
    rw [UInt32.toNat_ofNat']
    omega
  have announced : state = ⟨.ofNat idx, 0⟩ := by
    cases mapped : (config.queue idx).mapping with
    | none => simpa [vhostVirtqueueStart, mapped] using member
    | some mapping =>
      simpa [vhostVirtqueueStart, mapped, vhostVirtqueueSetAddr] using member
  rw [announced]
  exact ⟨rfl, index⟩

theorem startQueues_zero {config : StartConfig} {device : Device} {todo running : List (Fin 2)}
    (zero : ∀ idx, device.lastAvailIdx idx = 0) :
    BasesZero (startQueues config device todo running).1 ∧
      ∀ idx, (startQueues config device todo running).2.lastAvailIdx idx = 0 := by
  induction todo generalizing running with
  | nil => exact ⟨by simp [startQueues, BasesZero], zero⟩
  | cons idx rest ih =>
    have here := vhostVirtqueueStart_bases config idx
    simp only [startQueues, zero]
    split
    · obtain ⟨laterBases, laterZero⟩ := @ih (idx :: running)
      exact ⟨basesZero_append here laterBases, laterZero⟩
    · refine ⟨basesZero_append here fun state member => ?_, ?_⟩
      · simp [vhostVirtqueueStop] at member
      · exact fun idx => stopQueues_zero (.inl (zero idx))

/-- A device whose positions are zero announces zero and keeps zero. -/
theorem vhostDevStart_zero {config : StartConfig} {device : Device}
    (zero : ∀ idx, device.lastAvailIdx idx = 0) :
    BasesZero (vhostDevStart config device).1 ∧
      ∀ idx, (vhostDevStart config device).2.lastAvailIdx idx = 0 := by
  unfold vhostDevStart
  split
  · exact ⟨by simp [BasesZero, vhostDevSetFeatures], zero⟩
  obtain ⟨bases, kept⟩ := @startQueues_zero config { device with started := true } _ [] zero
  refine ⟨fun state member => ?_, kept⟩
  simp only [vhostDevSetFeatures, List.cons_append, List.nil_append, List.mem_cons,
    reduceCtorEq, List.mem_append, false_or] at member
  rcases member with queues | log
  · exact bases state queues
  · split at log <;> simp at log

theorem vhostDevStop_zero (device : Device) :
    ∀ idx, (vhostDevStop device).2.lastAvailIdx idx = 0 :=
  fun idx => stopQueues_zero (.inr (List.mem_finRange idx))

end VhostUser.Qemu
