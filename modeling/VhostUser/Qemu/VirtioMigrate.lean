import VhostUser.Lib.BitWord
import VhostUser.Lib.Decoder
import VhostUser.Qemu.VirtioDevice

/-!
Contract: saving a virtio device to the migration stream and loading it into a new device of
its class (`virtio_save`, `virtio_load`).

The stream has the queues up to the first one without entries, and of a queue its size, its
address, its index into the available ring and, for some transports, its alignment. The
addresses of the rings are not in the stream: `virtio_load` computes them if the queue has an
address, and leaves them zero if it has none.

Owns: which devices come back as they were.

Does not own: what the hooks of the transport write; they read back what they wrote.
-/

namespace VhostUser.Qemu.Virtio

open VhostUser.Lib
open VhostUser.Lib.Decoder

/-! ### The stream -/

inductive LoadError where
  | hook (ret : Int)
  | features (features supported : UInt32)
  | index (i : Nat) (num : UInt32) (guest host nheads : UInt16)
  | address (i : Nat) (host : UInt16)
  /-- The source would write behind the array of queues. -/
  | outOfBounds (i : Nat)

/-- The transport, with what its hooks write and how they read it. A hook that is not there does
nothing. -/
structure MigrationBus extends Transport where
  saveConfig : List UInt8
  loadConfig : Decoder LoadError Unit
  saveQueue : Nat → List UInt8
  loadQueue : Nat → Decoder LoadError Unit
  config_reads : Reads loadConfig saveConfig ()
  queue_reads : ∀ i, Reads (loadQueue i) (saveQueue i) ()

section Stream

variable (bus : MigrationBus)

def saveRing (vdev : VirtIODevice) (i : Nat) : List UInt8 :=
  put32 (vdev.vq i).vring.num ++
    ((if bus.hasVariableVringAlignment then put32 (vdev.vq i).vring.align else []) ++
      (put64 (vdev.vq i).pa ++ (put16 (vdev.vq i).lastAvailIdx ++ bus.saveQueue i)))

def virtioSave (vdev : VirtIODevice) : List UInt8 :=
  bus.saveConfig ++ ([vdev.status] ++ ([vdev.isr] ++ (put16 vdev.queueSel ++
    (put32 vdev.guestFeatures ++ (put32 (UInt32.ofNat vdev.config.length) ++ (vdev.config ++
      (put32 (UInt32.ofNat (queueCount vdev)) ++
        (List.range (queueCount vdev)).flatMap (saveRing bus vdev))))))))

/-- The addresses and the checks behind the fields of a queue. `lduw` is `lduw_phys`. -/
def checkRing (lduw : UInt64 → UInt16) (i : Nat) (vq : VirtQueue) : Except LoadError VirtQueue :=
  if vq.pa ≠ 0 then
    let vq := virtqueueInit vq
    let guest := lduw (vq.vring.avail + 2)
    let nheads := guest - vq.lastAvailIdx
    if vq.vring.num.toNat < nheads.toNat then
      .error (.index i vq.vring.num guest vq.lastAvailIdx nheads)
    else .ok vq
  else if vq.lastAvailIdx ≠ 0 then .error (.address i vq.lastAvailIdx)
  else .ok vq

/-- The alignment is in the stream for transports that let the guest choose it. -/
def getAlign (own : UInt32) : Decoder LoadError UInt32 :=
  if bus.hasVariableVringAlignment then get32 else pure own

def loadRing (lduw : UInt64 → UInt16) (i : Nat) (vdev : VirtIODevice) :
    Decoder LoadError VirtIODevice :=
  if queueMax ≤ i then throw (.outOfBounds i)
  else do
    let vq := vdev.vq i
    let num ← get32
    let align ← getAlign bus vq.vring.align
    let pa ← get64
    let lastAvailIdx ← get16
    let vq ← (checkRing lduw i
      { vq with
        vring := { vq.vring with num, align }
        pa, lastAvailIdx
        signalledUsedValid := false
        notification := true } : Except LoadError VirtQueue)
    bus.loadQueue i
    return vdev.setQueue i vq

def loadRings (lduw : UInt64 → UInt16) : Nat → Nat → VirtIODevice → Decoder LoadError VirtIODevice
  | 0, _, vdev => pure vdev
  | count + 1, i, vdev => do
      let vdev ← loadRing bus lduw i vdev
      loadRings lduw count (i + 1) vdev

def loadFeatures (vdev : VirtIODevice) (features : UInt32) : Decoder LoadError VirtIODevice :=
  let (good, vdev) := virtioSetFeatures vdev bus.supported features
  if !good then throw (.features features bus.supported) else pure vdev

/-- A count that the source takes for an `int`: nothing is read for a negative one. -/
def intCount (count : UInt32) : Nat := if count.toNat < 2 ^ 31 then count.toNat else 0

/-- The part of `virtio_load` before the queues, with `config_len` and the number of queues. A
short stream leaves the rest of the configuration as it was. -/
def loadDevice (vdev : VirtIODevice) : Decoder LoadError (VirtIODevice × UInt32 × UInt32) := do
  bus.loadConfig
  let status ← takeByte
  let isr ← takeByte
  let queueSel ← get16
  let features ← get32
  let vdev ← loadFeatures bus { vdev with status, isr, queueSel } features
  let configLen ← get32
  let config ← takeBytes (intCount configLen)
  let num ← get32
  return ({ vdev with config := config ++ vdev.config.drop config.length }, configLen, num)

def virtioLoad (lduw : UInt64 → UInt16) (vdev : VirtIODevice) : Decoder LoadError VirtIODevice := do
  let (vdev, _, num) ← loadDevice bus vdev
  loadRings bus lduw (intCount num) 0 vdev

end Stream

/-! ### Reading back -/

theorem and_eq_self_of_and_not {word mask : UInt32} (inside : word &&& ~~~mask = 0) :
    word &&& mask = word := by
  rw [← UInt32.toBitVec_inj] at inside ⊢
  refine BitWord.and_eq_self_of_covered ?_
  rw [BitVec.and_comm]
  exact inside

/-- The check of `virtio_load`, on the side that saves. -/
def PassesLoad (lduw : UInt64 → UInt16) (vq : VirtQueue) : Prop :=
  if vq.pa ≠ 0 then (lduw (vq.vring.avail + 2) - vq.lastAvailIdx).toNat ≤ vq.vring.num.toNat
  else vq.lastAvailIdx = 0

instance (lduw : UInt64 → UInt16) (vq : VirtQueue) : Decidable (PassesLoad lduw vq) := by
  unfold PassesLoad
  infer_instance

section ReadBack

variable {bus : MigrationBus} {lduw : UInt64 → UInt16} {vdev : VirtIODevice} {vq : VirtQueue}
  {i : Nat}

/-- The queue that `virtio_load` makes of a saved one, over the queue of the new device. -/
def restoredQueue (bus : MigrationBus) (new saved : VirtQueue) : VirtQueue :=
  let vq :=
    { new with
      vring := { new.vring with
        num := saved.vring.num
        align := if bus.hasVariableVringAlignment then saved.vring.align else new.vring.align }
      pa := saved.pa
      lastAvailIdx := saved.lastAvailIdx
      signalledUsedValid := false
      notification := true }
  if saved.pa ≠ 0 then virtqueueInit vq else vq

theorem avail_of_placed (placed : virtqueueInit vq = vq) :
    vq.vring.avail = vq.pa + vq.vring.num.toUInt64 * 16 := by
  rw [← placed]
  rfl

theorem checkRing_placed (address : vq.pa ≠ 0)
    (few : (lduw ((virtqueueInit vq).vring.avail + 2) - vq.lastAvailIdx).toNat ≤
      vq.vring.num.toNat) : checkRing lduw i vq = .ok (virtqueueInit vq) := by
  rw [checkRing, if_pos address]
  exact if_neg (Nat.not_lt.mpr few)

theorem checkRing_unplaced (address : vq.pa = 0) (unused : vq.lastAvailIdx = 0) :
    checkRing lduw i vq = .ok vq := by
  rw [checkRing, if_neg (not_not.mpr address), if_neg (not_not.mpr unused)]

theorem reads_checkRing {result : VirtQueue} (checked : checkRing lduw i vq = .ok result) :
    Reads (liftM (checkRing lduw i vq) : Decoder LoadError VirtQueue) [] result := by
  intro rest
  rw [checked]
  rfl

theorem reads_loadRing {new : VirtIODevice} (inside : i < queueMax)
    (placed : (vdev.vq i).pa ≠ 0 → virtqueueInit (vdev.vq i) = vdev.vq i)
    (passes : PassesLoad lduw (vdev.vq i)) :
    Reads (loadRing bus lduw i new) (saveRing bus vdev i)
      (new.setQueue i (restoredQueue bus (new.vq i) (vdev.vq i))) := by
  have checked : checkRing lduw i
      { new.vq i with
        vring := { (new.vq i).vring with
          num := (vdev.vq i).vring.num
          align := if bus.hasVariableVringAlignment then (vdev.vq i).vring.align
            else (new.vq i).vring.align }
        pa := (vdev.vq i).pa
        lastAvailIdx := (vdev.vq i).lastAvailIdx
        signalledUsedValid := false
        notification := true } = .ok (restoredQueue bus (new.vq i) (vdev.vq i)) := by
    rw [PassesLoad] at passes
    rw [restoredQueue]
    split at passes
    next address =>
      rw [avail_of_placed (placed address)] at passes
      rw [if_pos address]
      exact checkRing_placed address passes
    next noAddress =>
      rw [if_neg noAddress]
      exact checkRing_unplaced (not_not.mp noAddress) passes
  have aligned : Reads (getAlign bus (new.vq i).vring.align)
      (if bus.hasVariableVringAlignment then put32 (vdev.vq i).vring.align else [])
      (if bus.hasVariableVringAlignment then (vdev.vq i).vring.align
        else (new.vq i).vring.align) := by
    rw [getAlign]
    cases bus.hasVariableVringAlignment with
    | true => exact reads_get32 _
    | false => exact Reads.pure _
  have hook : Reads (do
      bus.loadQueue i
      return new.setQueue i (restoredQueue bus (new.vq i) (vdev.vq i))) (bus.saveQueue i)
      (new.setQueue i (restoredQueue bus (new.vq i) (vdev.vq i))) := by
    rw [← List.append_nil (bus.saveQueue i)]
    exact (bus.queue_reads i).bind (Reads.pure _)
  rw [loadRing, if_neg (Nat.not_le.mpr inside), saveRing]
  exact (reads_get32 _).bind (aligned.bind ((reads_get64 _).bind ((reads_get16 _).bind
    ((reads_checkRing checked).bind hook))))

/-- The new device with its queues from `first` up to `last` replaced. -/
def restoreQueues (bus : MigrationBus) (vdev : VirtIODevice) (first last : Nat)
    (new : VirtIODevice) : VirtIODevice :=
  { new with
    vq := fun i =>
      if first ≤ i ∧ i < last then restoredQueue bus (new.vq i) (vdev.vq i) else new.vq i }

theorem reads_loadRings {count first : Nat} {new : VirtIODevice}
    (bounded : first + count ≤ queueMax)
    (placed : ∀ i < queueMax, (vdev.vq i).pa ≠ 0 → virtqueueInit (vdev.vq i) = vdev.vq i)
    (passes : ∀ i < first + count, PassesLoad lduw (vdev.vq i)) :
    Reads (loadRings bus lduw count first new)
      ((List.range' first count).flatMap (saveRing bus vdev))
      (restoreQueues bus vdev first (first + count) new) := by
  induction count generalizing first new with
  | zero =>
    have same : restoreQueues bus vdev first first new = new := by
      rw [restoreQueues]
      congr
      funext i
      rw [if_neg (by omega)]
    rw [Nat.add_zero, same]
    exact Reads.pure new
  | succ count ih =>
    have later := @ih (first + 1)
      (new.setQueue first (restoredQueue bus (new.vq first) (vdev.vq first)))
      (by omega) fun i inside => passes i (by omega)
    have split : restoreQueues bus vdev (first + 1) (first + 1 + count)
        (new.setQueue first (restoredQueue bus (new.vq first) (vdev.vq first))) =
        restoreQueues bus vdev first (first + (count + 1)) new := by
      simp only [restoreQueues, VirtIODevice.setQueue]
      congr
      funext i
      rcases eq_or_ne i first with rfl | other
      · rw [Function.update_self, if_neg (by omega), if_pos (by omega)]
      · rw [Function.update_of_ne other]
        simp only [show first + 1 ≤ i ∧ i < first + 1 + count ↔
          first ≤ i ∧ i < first + (count + 1) by omega]
    rw [split] at later
    rw [List.range'_succ, List.flatMap_cons]
    refine (reads_loadRing (by omega) (placed first (by omega)) ?_).bind later
    exact passes first (by omega)

def loadedDevice (bus : MigrationBus) (vdev : VirtIODevice) (count : Nat) (new : VirtIODevice) :
    VirtIODevice :=
  restoreQueues bus vdev 0 count
    { vdev with guestFeatures := vdev.guestFeatures &&& bus.supported, vq := new.vq }

theorem intCount_ofNat {count : Nat} (small : count < 2 ^ 31) :
    intCount (UInt32.ofNat count) = count := by
  have same : (UInt32.ofNat count).toNat = count := by
    rw [UInt32.toNat_ofNat']
    omega
  rw [intCount, same, if_pos small]

theorem reads_virtioLoad {cls : DeviceClass} {new : VirtIODevice}
    (shaped : Shaped cls bus.toTransport vdev) (bounded : cls.sizes.length ≤ queueMax)
    (passes : ∀ i < cls.sizes.length, PassesLoad lduw (vdev.vq i))
    (sameSize : new.config.length = cls.configSize) :
    Reads (virtioLoad bus lduw new) (virtioSave bus vdev)
      (loadedDevice bus vdev cls.sizes.length new) := by
  have count : queueCount vdev = cls.sizes.length := queueCount_eq bounded shaped.present
  have features : Reads (loadFeatures bus
      { new with status := vdev.status, isr := vdev.isr, queueSel := vdev.queueSel }
      vdev.guestFeatures) []
      { new with
        status := vdev.status, isr := vdev.isr, queueSel := vdev.queueSel
        guestFeatures := vdev.guestFeatures &&& bus.supported } := by
    simp only [loadFeatures, virtioSetFeatures, shaped.features, decide_true, Bool.not_true]
    exact Reads.pure _
  have length : intCount (UInt32.ofNat vdev.config.length) = vdev.config.length :=
    intCount_ofNat (shaped.config.trans_lt cls.configSmall)
  have number : intCount (UInt32.ofNat cls.sizes.length) = cls.sizes.length := by
    rw [queueMax] at bounded
    exact intCount_ofNat (by omega)
  have config : Reads (takeBytes (intCount (UInt32.ofNat vdev.config.length)) :
      Decoder LoadError (List UInt8)) vdev.config vdev.config := by
    rw [length]
    exact reads_takeBytes _
  have rings := @reads_loadRings bus lduw vdev cls.sizes.length 0
    { vdev with guestFeatures := vdev.guestFeatures &&& bus.supported, vq := new.vq }
    (by omega) shaped.placed (by simpa using passes)
  rw [Nat.zero_add, ← List.range_eq_range'] at rings
  have whole : vdev.config ++ new.config.drop vdev.config.length = vdev.config := by
    rw [shaped.config, ← sameSize, List.drop_length, List.append_nil]
  rw [virtioSave, count, virtioLoad]
  simp only [loadDevice, bind_assoc, pure_bind]
  refine bus.config_reads.bind ((reads_takeByte _).bind ((reads_takeByte _).bind
    ((reads_get16 _).bind ((reads_get32 _).bind ?_))))
  rw [← List.nil_append (put32 (UInt32.ofNat vdev.config.length) ++ _)]
  refine features.bind ((reads_get32 _).bind (config.bind ((reads_get32 _).bind ?_)))
  rw [number, whole]
  exact rings

end ReadBack

/-! ### What comes back -/

structure HeaderRestored (saved loaded : VirtIODevice) : Prop where
  status : loaded.status = saved.status
  isr : loaded.isr = saved.isr
  queueSel : loaded.queueSel = saved.queueSel
  guestFeatures : loaded.guestFeatures = saved.guestFeatures
  config : loaded.config = saved.config

/-- Size, alignment and addresses of the rings are in `vring`. -/
structure QueueRestored (saved loaded : VirtQueue) : Prop where
  vring : loaded.vring = saved.vring
  pa : loaded.pa = saved.pa
  lastAvailIdx : loaded.lastAvailIdx = saved.lastAvailIdx
  ready : virtioQueueReady loaded = virtioQueueReady saved

/-- A queue of the class without an address has no rings either, and one that does not exist was not
touched. -/
def Restorable (cls : DeviceClass) (i : Nat) (vq : VirtQueue) : Prop :=
  if i < cls.sizes.length then
    vq.pa = 0 → vq.vring.desc = 0 ∧ vq.vring.avail = 0 ∧ vq.vring.used = 0
  else vq.vring = blankQueue.vring ∧ vq.pa = 0 ∧ vq.lastAvailIdx = 0

instance (cls : DeviceClass) (i : Nat) (vq : VirtQueue) : Decidable (Restorable cls i vq) := by
  unfold Restorable
  infer_instance

theorem queueRestored_iff {saved loaded : VirtQueue} : QueueRestored saved loaded ↔
    loaded.vring = saved.vring ∧ loaded.pa = saved.pa ∧
      loaded.lastAvailIdx = saved.lastAvailIdx := by
  refine ⟨fun restored => ⟨restored.vring, restored.pa, restored.lastAvailIdx⟩, ?_⟩
  rintro ⟨vring, pa, lastAvailIdx⟩
  exact ⟨vring, pa, lastAvailIdx, by rw [virtioQueueReady, virtioQueueReady, vring]⟩

theorem restoredQueue_iff {bus : MigrationBus} {new saved : VirtQueue}
    (blank : new.vring.desc = 0 ∧ new.vring.avail = 0 ∧ new.vring.used = 0)
    (align : bus.hasVariableVringAlignment = false → saved.vring.align = new.vring.align)
    (placed : saved.pa ≠ 0 → virtqueueInit saved = saved) :
    QueueRestored saved (restoredQueue bus new saved) ↔
      (saved.pa = 0 →
        saved.vring.desc = 0 ∧ saved.vring.avail = 0 ∧ saved.vring.used = 0) := by
  have aligned : (if bus.hasVariableVringAlignment then saved.vring.align else new.vring.align) =
      saved.vring.align := by
    cases variable_ : bus.hasVariableVringAlignment with
    | true => rfl
    | false => exact (align variable_).symm
  rw [queueRestored_iff, restoredQueue, aligned]
  by_cases address : saved.pa = 0
  · rw [if_neg (not_not.mpr address)]
    obtain ⟨desc, avail, used⟩ := blank
    simp only [desc, avail, used, address, and_true, forall_const]
    constructor
    · intro same
      rw [← same]
      exact ⟨rfl, rfl, rfl⟩
    · rintro ⟨savedDesc, savedAvail, savedUsed⟩
      obtain ⟨⟨num, alignment, savedDesc, savedAvail, savedUsed⟩⟩ := saved
      simp_all only
  · rw [if_pos address]
    refine ⟨fun _ zero => absurd zero address, fun _ => ⟨?_, rfl, rfl⟩⟩
    have vring := congrArg VirtQueue.vring (placed address)
    exact vring

theorem classQueue_blank (sizes : List UInt32) (i : Nat) :
    (classQueue sizes i).vring.desc = 0 ∧ (classQueue sizes i).vring.avail = 0 ∧
      (classQueue sizes i).vring.used = 0 := by
  rw [classQueue]
  split <;> exact ⟨rfl, rfl, rfl⟩

/-- In every state that the operations reach, a new device loads what `virtio_save` writes without
an error, the header and the configuration come back, and a queue comes back exactly if it is
restorable. -/
theorem virtioLoad_restores_iff {cls : DeviceClass} {bus : MigrationBus} {lduw : UInt64 → UInt16}
    {vdev new : VirtIODevice} (created : cls.create = some new)
    (reached : (deviceMachine cls bus.toTransport).Reached Machine.anyAction vdev)
    (passes : ∀ i < cls.sizes.length, PassesLoad lduw (vdev.vq i)) :
    ∃ loaded, (virtioLoad bus lduw new).run (virtioSave bus vdev) = .ok (loaded, []) ∧
      HeaderRestored vdev loaded ∧
      ∀ i < queueMax, QueueRestored (vdev.vq i) (loaded.vq i) ↔ Restorable cls i (vdev.vq i) := by
  have shaped := reached_shaped reached
  obtain ⟨bounded, rfl⟩ := create_eq cls.positive created
  have reads := @reads_virtioLoad bus lduw vdev cls
    { virtioInit cls.configSize with vq := classQueue cls.sizes } shaped bounded passes
    List.length_replicate
  have run := reads []
  rw [List.append_nil] at run
  refine ⟨_, run, ⟨rfl, rfl, rfl, ?_, rfl⟩, fun i inside => ?_⟩
  · exact and_eq_self_of_and_not shaped.features
  simp only [loadedDevice, restoreQueues, Nat.zero_le, true_and]
  rw [Restorable]
  by_cases existing : i < cls.sizes.length
  · rw [if_pos existing, if_pos existing]
    exact restoredQueue_iff (classQueue_blank _ _) (fun fixed => shaped.align fixed i inside)
      (shaped.placed i inside)
  · rw [if_neg existing, if_neg existing, queueRestored_iff]
    have blank : classQueue cls.sizes i = blankQueue := by
      rw [classQueue, List.getElem?_eq_none (Nat.le_of_not_lt existing)]
    rw [blank]
    simp only [blankQueue, eq_comm]

/-! ### Two devices -/

def oneQueue : DeviceClass := ⟨[128], 4, by simp, by norm_num⟩

def plainBus : MigrationBus where
  hasVariableVringAlignment := true
  supported := 0x30000000
  saveConfig := []
  loadConfig := pure ()
  saveQueue _ := []
  loadQueue _ := pure ()
  config_reads := Reads.pure ()
  queue_reads _ := Reads.pure ()

def firstQueue : Fin queueMax := ⟨0, by decide⟩

def placedRun : List DeviceAction :=
  [.setNum firstQueue 64, .setAddr firstQueue 0x10000, .setFeatures 0x10000000]

def unplacedRun : List DeviceAction := [.setNum firstQueue 64]

theorem virtioLoad_restores_placed :
    ∃ vdev new loaded, oneQueue.create = some new ∧
      (deviceMachine oneQueue plainBus.toTransport).Reached Machine.anyAction vdev ∧
      (virtioLoad plainBus (fun _ => 0) new).run (virtioSave plainBus vdev) = .ok (loaded, []) ∧
      (vdev.vq 0).vring.avail = 0x10400 ∧ QueueRestored (vdev.vq 0) (loaded.vq 0) := by
  have ends : (oneQueue.create.bind fun new =>
      ((deviceMachine oneQueue plainBus.toTransport).run placedRun new).map fun vdev =>
        vdev.vq 0) =
      some ⟨⟨64, 4096, 0x10000, 0x10400, 0x11000⟩, 0x10000, 0, 0, false, false, 0⟩ := by
    decide +kernel
  obtain ⟨new, created, later⟩ := Option.bind_eq_some_iff.mp ends
  obtain ⟨vdev, reached, queue⟩ := Machine.evaluate_any later created
  have passes : ∀ i < oneQueue.sizes.length, PassesLoad (fun _ => 0) (vdev.vq i) := by
    intro i inside
    obtain rfl : i = 0 := Nat.lt_one_iff.mp inside
    rw [queue]
    decide
  obtain ⟨loaded, run, -, restored⟩ := virtioLoad_restores_iff created reached passes
  refine ⟨vdev, new, loaded, created, reached, run, by rw [queue], ?_⟩
  refine (restored 0 (by decide)).mpr ?_
  rw [queue]
  decide

/-- A queue with a size and no address comes back without its rings. -/
theorem virtioLoad_loses_unplaced :
    ¬ ∀ (cls : DeviceClass) (bus : MigrationBus) (lduw : UInt64 → UInt16) (vdev new : VirtIODevice),
      cls.create = some new →
      (deviceMachine cls bus.toTransport).Reached Machine.anyAction vdev →
      (∀ i < queueMax, PassesLoad lduw (vdev.vq i)) →
      ∃ loaded, (virtioLoad bus lduw new).run (virtioSave bus vdev) = .ok (loaded, []) ∧
        ∀ i < cls.sizes.length, QueueRestored (vdev.vq i) (loaded.vq i) := by
  intro always
  have ends : (oneQueue.create.bind fun new =>
      ((deviceMachine oneQueue plainBus.toTransport).run unplacedRun new).map fun vdev =>
        (decide (∀ i < queueMax, PassesLoad (fun _ => 0) (vdev.vq i)),
          (vdev.vq 0).vring.avail,
          ((virtioLoad plainBus (fun _ => 0) new).run (virtioSave plainBus vdev)).toOption.map
            fun loaded => (loaded.1.vq 0).vring.avail)) = some (true, 1024, some 0) := by
    decide +kernel
  obtain ⟨new, created, later⟩ := Option.bind_eq_some_iff.mp ends
  obtain ⟨vdev, reached, values⟩ := Machine.evaluate_any later created
  simp only [Prod.mk.injEq, decide_eq_true_eq] at values
  obtain ⟨passes, saved, loadedAvail⟩ := values
  obtain ⟨loaded, run, restored⟩ := always oneQueue plainBus _ vdev new created reached passes
  have vring := (restored 0 (by decide)).vring
  rw [run] at loadedAvail
  have avail : (loaded.vq 0).vring.avail = 0 := Option.some.inj loadedAvail
  rw [vring, saved] at avail
  exact absurd avail (by decide)

end VhostUser.Qemu.Virtio
