import VhostUser.Lib.Machine
import VhostUser.Qemu.VirtQueue
import Mathlib.Algebra.Order.Ring.Nat
import Mathlib.Data.List.Induction

/-!
Contract: the state of a virtio device that the guest's driver and the transport set up
(`hw/virtio/virtio.c`): the header, the configuration space and the array of queues.

A class of devices fixes the sizes of its queues, which `virtio_add_queue` creates, and the
size of its configuration space. The hooks of device classes and transports are left out
where they touch nothing of this state.

Owns: the operations on a device and what holds in every state they reach.
-/

namespace VhostUser.Qemu.Virtio

open VhostUser.Lib

def queueMax : Nat := 64

structure VirtIODevice where
  status : UInt8
  isr : UInt8
  queueSel : UInt16
  guestFeatures : UInt32
  config : List UInt8
  /-- The array of queues, of which the first `queueMax` are there. -/
  vq : Nat → VirtQueue

/-! ### Creation -/

def blankQueue : VirtQueue := ⟨⟨0, 0, 0, 0, 0⟩, 0, 0, 0, false, false, 0⟩

def virtioInit (configSize : Nat) : VirtIODevice where
  status := 0
  isr := 0
  queueSel := 0
  guestFeatures := 0
  config := List.replicate configSize 0
  vq _ := blankQueue

def queueCount (vdev : VirtIODevice) : Nat :=
  (List.range queueMax).findIdx fun i => decide ((vdev.vq i).vring.num = 0)

def virtioAddQueue (vdev : VirtIODevice) (queueSize : UInt32) : Option VirtIODevice :=
  let i := queueCount vdev
  let vq := vdev.vq i
  if i = queueMax ∨ virtqueueMaxSize < queueSize.toNat then none
  else
    -- `VIRTIO_PCI_VRING_ALIGN`
    some { vdev with
      vq := Function.update vdev.vq i
        { vq with vring := { vq.vring with num := queueSize, align := 4096 } } }

structure DeviceClass where
  sizes : List UInt32
  configSize : Nat
  positive : ∀ size ∈ sizes, size ≠ 0
  configSmall : configSize < 2 ^ 31

def DeviceClass.create (cls : DeviceClass) : Option VirtIODevice :=
  cls.sizes.foldlM virtioAddQueue (virtioInit cls.configSize)

section Operations

variable (vdev : VirtIODevice) (n : Nat)

def VirtIODevice.setQueue (vq : VirtQueue) : VirtIODevice :=
  { vdev with vq := Function.update vdev.vq n vq }

def virtioQueueSetAddr (addr : UInt64) : VirtIODevice :=
  vdev.setQueue n (virtqueueInit { vdev.vq n with pa := addr })

def virtioQueueSetNum (num : Int) : VirtIODevice :=
  let vq := vdev.vq n
  if decide (num ≠ 0) ≠ decide (vq.vring.num ≠ 0) ∨ virtqueueMaxSize < num ∨ num < 0 then vdev
  else vdev.setQueue n
    (virtqueueInit { vq with vring := { vq.vring with num := UInt32.ofNat num.toNat } })

/-- `virtio_queue_set_align`, behind its assertion. -/
def virtioQueueSetAlign (align : UInt32) : VirtIODevice :=
  let vq := vdev.vq n
  vdev.setQueue n (virtqueueInit { vq with vring := { vq.vring with align } })

def resetQueue (vq : VirtQueue) : VirtQueue :=
  { vq with
    vring := { vq.vring with desc := 0, avail := 0, used := 0 }
    lastAvailIdx := 0
    pa := 0
    signalledUsed := 0
    signalledUsedValid := false
    notification := true }

def virtioReset : VirtIODevice :=
  { vdev with
    guestFeatures := 0
    queueSel := 0
    status := 0
    isr := 0
    vq := fun i => resetQueue (vdev.vq i) }

/-- A write to the configuration space, for `virtio_config_writeb`, `w` and `l`. -/
def virtioConfigWrite (addr : UInt32) (val : List UInt8) : VirtIODevice :=
  if vdev.config.length < addr.toNat + val.length then vdev
  else { vdev with
    config := vdev.config.take addr.toNat ++ val ++ vdev.config.drop (addr.toNat + val.length) }

def virtioConfigWriteb (addr data : UInt32) : VirtIODevice :=
  virtioConfigWrite vdev addr [data.toUInt8]

def virtioConfigWritew (addr data : UInt32) : VirtIODevice :=
  virtioConfigWrite vdev addr [data.toUInt8, (data >>> 8).toUInt8]

def virtioConfigWritel (addr data : UInt32) : VirtIODevice :=
  virtioConfigWrite vdev addr
    [data.toUInt8, (data >>> 8).toUInt8, (data >>> 16).toUInt8, (data >>> 24).toUInt8]

/-- `virtio_set_features`: whether the features were good, and what is kept of them. -/
def virtioSetFeatures (supported val : UInt32) : Bool × VirtIODevice :=
  (decide (val &&& ~~~supported = 0), { vdev with guestFeatures := val &&& supported })

def virtioQueueReady (vq : VirtQueue) : Bool := decide (vq.vring.avail ≠ 0)

end Operations

/-- What processing a queue may change of it. -/
structure Processing where
  lastAvailIdx : UInt16
  signalledUsed : UInt16
  signalledUsedValid : Bool
  notification : Bool
  inuse : Int

def VirtQueue.process (vq : VirtQueue) (after : Processing) : VirtQueue :=
  { vq with
    lastAvailIdx := after.lastAvailIdx
    signalledUsed := after.signalledUsed
    signalledUsedValid := after.signalledUsedValid
    notification := after.notification
    inuse := after.inuse }

section Processing

variable {μ : Type} {access : RingAccess μ} {vq after : VirtQueue} {mem left : μ}

theorem virtqueuePop_process {eventIdx : Bool} {map : GuestMap} {result : Option VirtQueueElement}
    (returned : virtqueuePop access eventIdx map vq mem = .ok (result, left, after)) :
    ∃ changes, after = vq.process changes := by
  rcases virtqueuePop_ok returned with ⟨-, -, rfl⟩ | ⟨elem, -, popped⟩
  · exact ⟨⟨_, _, _, _, _⟩, rfl⟩
  · obtain ⟨-, -, -, -, rfl⟩ := popHead_ok popped
    exact ⟨⟨_, _, _, _, _⟩, rfl⟩

theorem virtqueueFlush_process (count : Nat) :
    ∃ changes, (virtqueueFlush access vq count mem).2 = vq.process changes :=
  ⟨⟨_, _, _, _, _⟩, rfl⟩

theorem vringNotify_process (notifyOnEmpty eventIdx : Bool) :
    ∃ changes, (vringNotify access notifyOnEmpty eventIdx vq mem).2 = vq.process changes := by
  rw [vringNotify]
  split
  · exact ⟨⟨_, _, _, _, _⟩, rfl⟩
  · split
    · exact ⟨⟨_, _, _, _, _⟩, rfl⟩
    · exact ⟨⟨_, _, _, _, _⟩, rfl⟩

end Processing

/-! ### The machine -/

inductive DeviceAction where
  | setAddr (n : Fin queueMax) (addr : UInt64)
  | setNum (n : Fin queueMax) (num : Int)
  | setAlign (n : Fin queueMax) (align : UInt32)
  | reset
  | configWriteb (addr data : UInt32)
  | configWritew (addr data : UInt32)
  | configWritel (addr data : UInt32)
  | process (n : Fin queueMax) (after : Processing)
  | setFeatures (val : UInt32)
  | setStatus (val : UInt8)
  | select (n : UInt16)
  | setIsr (val : UInt8)

structure Transport where
  hasVariableVringAlignment : Bool
  supported : UInt32

def deviceMachine (cls : DeviceClass) (transport : Transport) :
    Machine VirtIODevice DeviceAction where
  start vdev := cls.create = some vdev
  step vdev
    | .setAddr n addr => some (virtioQueueSetAddr vdev n addr)
    | .setNum n num => some (virtioQueueSetNum vdev n num)
    | .setAlign n align =>
      if transport.hasVariableVringAlignment then some (virtioQueueSetAlign vdev n align)
      else none
    | .reset => some (virtioReset vdev)
    | .configWriteb addr data => some (virtioConfigWriteb vdev addr data)
    | .configWritew addr data => some (virtioConfigWritew vdev addr data)
    | .configWritel addr data => some (virtioConfigWritel vdev addr data)
    | .process n after => some (vdev.setQueue n ((vdev.vq n).process after))
    | .setFeatures val => some (virtioSetFeatures vdev transport.supported val).2
    | .setStatus status => some { vdev with status }
    | .select queueSel => some { vdev with queueSel }
    | .setIsr isr => some { vdev with isr }

/-! ### What creation leaves -/

variable {vdev : VirtIODevice} {sizes : List UInt32}

theorem queueCount_eq {count : Nat} (bounded : count ≤ queueMax)
    (present : ∀ i < queueMax, (vdev.vq i).vring.num ≠ 0 ↔ i < count) :
    queueCount vdev = count := by
  rcases Nat.lt_or_eq_of_le bounded with inside | rfl
  · have inRange : count < (List.range queueMax).length := by rwa [List.length_range]
    refine (List.findIdx_eq inRange).mpr ⟨?_, fun j before => ?_⟩
    · rw [List.getElem_range, decide_eq_true_eq]
      exact not_not.mp fun exists_ => Nat.lt_irrefl count ((present count inside).mp exists_)
    · rw [List.getElem_range, decide_eq_false_iff_not]
      exact (present j (Nat.lt_trans before inside)).mpr before
  · have none : queueCount vdev = (List.range queueMax).length := by
      refine List.findIdx_eq_length.mpr fun i member => ?_
      rw [decide_eq_false_iff_not]
      exact (present i (List.mem_range.mp member)).mpr (List.mem_range.mp member)
    rw [none, List.length_range]

def classQueue (sizes : List UInt32) (i : Nat) : VirtQueue :=
  match sizes[i]? with
  | some num => { blankQueue with vring := { blankQueue.vring with num, align := 4096 } }
  | none => blankQueue

section

variable (positive : ∀ size ∈ sizes, size ≠ 0)
include positive

theorem classQueue_num (i : Nat) : (classQueue sizes i).vring.num ≠ 0 ↔ i < sizes.length := by
  rw [classQueue]
  cases found : sizes[i]? with
  | none => simp [blankQueue, List.getElem?_eq_none_iff.mp found]
  | some size =>
    have inside := (List.getElem?_eq_some_iff.mp found).1
    simp [inside, positive size (List.mem_of_getElem? found)]

theorem virtioAddQueue_created {size : UInt32} {next : VirtIODevice}
    (bounded : sizes.length ≤ queueMax)
    (queues : vdev.vq = classQueue sizes) (added : virtioAddQueue vdev size = some next) :
    sizes.length < queueMax ∧ next = { vdev with vq := classQueue (sizes ++ [size]) } := by
  have count : queueCount vdev = sizes.length := by
    refine queueCount_eq bounded fun i _ => ?_
    rw [queues]
    exact classQueue_num positive i
  simp only [virtioAddQueue, count] at added
  rw [Option.ite_none_left_eq_some, not_or] at added
  obtain ⟨⟨room, -⟩, added⟩ := added
  cases added
  have same : Function.update vdev.vq sizes.length
      { vdev.vq sizes.length with
        vring := { (vdev.vq sizes.length).vring with num := size, align := 4096 } } =
      classQueue (sizes ++ [size]) := by
    funext i
    rw [queues]
    rcases Nat.lt_trichotomy i sizes.length with before | rfl | behind
    · rw [Function.update_of_ne (by omega), classQueue, classQueue,
        List.getElem?_append_left before]
    · rw [Function.update_self, classQueue, classQueue]
      simp
    have absent : sizes[i]? = none := List.getElem?_eq_none (by omega)
    have stillAbsent : (sizes ++ [size])[i]? = none :=
      List.getElem?_eq_none (by rw [List.length_append]; exact behind)
    rw [Function.update_of_ne (by omega), classQueue, classQueue, absent, stillAbsent]
  exact ⟨by omega, by rw [same]⟩

theorem create_eq {configSize : Nat}
    (created : sizes.foldlM virtioAddQueue (virtioInit configSize) = some vdev) :
    sizes.length ≤ queueMax ∧ vdev = { virtioInit configSize with vq := classQueue sizes } := by
  induction sizes using List.reverseRecOn generalizing vdev with
  | nil =>
    cases created
    exact ⟨Nat.zero_le _, rfl⟩
  | append_singleton sizes size ih =>
    rw [List.foldlM_append] at created
    obtain ⟨before, createdBefore, added⟩ := Option.bind_eq_some_iff.mp created
    have positiveBefore : ∀ size ∈ sizes, size ≠ 0 :=
      fun size member => positive size (List.mem_append_left _ member)
    obtain ⟨bounded, rfl⟩ := ih positiveBefore createdBefore
    have addedOne : virtioAddQueue
        { virtioInit configSize with vq := classQueue sizes } size = some vdev := by
      simpa using added
    obtain ⟨room, rfl⟩ := virtioAddQueue_created positiveBefore bounded rfl addedOne
    rw [List.length_append]
    exact ⟨room, rfl⟩

end

/-! ### What every state has -/

/-- The queues of the class exist, their addresses are those of `virtqueue_init` if they have one,
and the rest is as the class and the transport have it. -/
structure Shaped (cls : DeviceClass) (transport : Transport) (vdev : VirtIODevice) : Prop where
  present : ∀ i < queueMax, (vdev.vq i).vring.num ≠ 0 ↔ i < cls.sizes.length
  config : vdev.config.length = cls.configSize
  features : vdev.guestFeatures &&& ~~~transport.supported = 0
  align : transport.hasVariableVringAlignment = false →
    ∀ i < queueMax, (vdev.vq i).vring.align = (classQueue cls.sizes i).vring.align
  placed : ∀ i < queueMax, (vdev.vq i).pa ≠ 0 → virtqueueInit (vdev.vq i) = vdev.vq i

section Shape

variable {cls : DeviceClass} {transport : Transport} {vdev : VirtIODevice}

theorem Shaped.create (created : cls.create = some vdev) : Shaped cls transport vdev := by
  obtain ⟨-, rfl⟩ := create_eq cls.positive created
  refine ⟨fun i _ => classQueue_num cls.positive i, List.length_replicate, ?_, fun _ _ _ => rfl, ?_⟩
  · exact UInt32.zero_and
  intro i _ address
  have none : (classQueue cls.sizes i).pa = 0 := by
    rw [classQueue]
    split <;> rfl
  exact absurd none address

theorem setQueue_forall {P : Nat → VirtQueue → Prop} {n : Nat} {vq : VirtQueue}
    (each : ∀ i < queueMax, P i (vdev.vq i)) (new : n < queueMax → P n vq) :
    ∀ i < queueMax, P i ((vdev.setQueue n vq).vq i) :=
  (Function.forall_update_iff vdev.vq fun i vq => i < queueMax → P i vq).mpr
    ⟨new, fun i _ => each i⟩

theorem Shaped.setQueue (shaped : Shaped cls transport vdev) {n : Nat} {vq : VirtQueue}
    (present : vq.vring.num ≠ 0 ↔ (vdev.vq n).vring.num ≠ 0)
    (align : transport.hasVariableVringAlignment = false → vq.vring.align = (vdev.vq n).vring.align)
    (placed : n < queueMax → vq.pa ≠ 0 → virtqueueInit vq = vq) :
    Shaped cls transport (vdev.setQueue n vq) where
  present := setQueue_forall (P := fun i vq => vq.vring.num ≠ 0 ↔ i < cls.sizes.length)
    shaped.present fun inside => present.trans (shaped.present n inside)
  config := shaped.config
  features := shaped.features
  align fixed := setQueue_forall
    (P := fun i vq => vq.vring.align = (classQueue cls.sizes i).vring.align) (shaped.align fixed)
    fun inside => (align fixed).trans (shaped.align fixed n inside)
  placed := setQueue_forall (P := fun _ vq => vq.pa ≠ 0 → virtqueueInit vq = vq) shaped.placed
    placed

theorem virtioQueueSetNum_cases (vdev : VirtIODevice) (n : Nat) (num : Int) :
    virtioQueueSetNum vdev n num = vdev ∨ ∃ size,
      (size ≠ 0 ↔ (vdev.vq n).vring.num ≠ 0) ∧ virtioQueueSetNum vdev n num = vdev.setQueue n
        (virtqueueInit { vdev.vq n with vring := { (vdev.vq n).vring with num := size } }) := by
  rw [virtioQueueSetNum]
  split
  · exact .inl rfl
  next guard =>
    rw [not_or, not_or, not_not, decide_eq_decide] at guard
    obtain ⟨same, small, positive⟩ := guard
    refine .inr ⟨_, ?_, rfl⟩
    have value : (UInt32.ofNat num.toNat).toNat = num.toNat := by
      rw [UInt32.toNat_ofNat']
      simp only [virtqueueMaxSize] at small
      omega
    rw [← same, ne_eq, ne_eq, ← UInt32.toNat_inj, value, UInt32.toNat_zero]
    omega

theorem virtioConfigWrite_length (addr : UInt32) (val : List UInt8) :
    (virtioConfigWrite vdev addr val).config.length = vdev.config.length := by
  rw [virtioConfigWrite]
  split
  · rfl
  · simp only [List.length_append, List.length_take, List.length_drop]
    omega

theorem Shaped.configWrite (shaped : Shaped cls transport vdev) (addr : UInt32)
    (val : List UInt8) : Shaped cls transport (virtioConfigWrite vdev addr val) := by
  have length := (virtioConfigWrite_length addr val).trans shaped.config
  rw [virtioConfigWrite] at length ⊢
  split
  · exact shaped
  next inside =>
    rw [if_neg inside] at length
    exact { shaped with config := length }

theorem Shaped.step {action : DeviceAction} {next : VirtIODevice}
    (shaped : Shaped cls transport vdev)
    (taken : (deviceMachine cls transport).step vdev action = some next) :
    Shaped cls transport next := by
  cases action with
  | setAddr n addr =>
    cases taken
    exact shaped.setQueue Iff.rfl (fun _ => rfl) fun _ _ => rfl
  | setNum n num =>
    cases taken
    obtain same | ⟨size, present, resized⟩ := virtioQueueSetNum_cases vdev n num
    · rwa [same]
    · rw [resized]
      exact shaped.setQueue present (fun _ => rfl) fun _ _ => rfl
  | setAlign n align =>
    simp only [deviceMachine, Option.ite_none_right_eq_some, Option.some.injEq] at taken
    obtain ⟨variable_, rfl⟩ := taken
    refine shaped.setQueue Iff.rfl (fun fixed => ?_) fun _ _ => rfl
    rw [variable_] at fixed
    cases fixed
  | reset =>
    cases taken
    exact ⟨shaped.present, shaped.config, UInt32.zero_and, shaped.align,
      fun _ _ address => absurd rfl address⟩
  | configWriteb addr data =>
    cases taken
    exact shaped.configWrite _ _
  | configWritew addr data =>
    cases taken
    exact shaped.configWrite _ _
  | configWritel addr data =>
    cases taken
    exact shaped.configWrite _ _
  | process n after =>
    cases taken
    refine shaped.setQueue Iff.rfl (fun _ => rfl) fun inside address => ?_
    have placed := shaped.placed n inside address
    exact congrArg (VirtQueue.process · after) placed
  | setFeatures val =>
    cases taken
    refine { shaped with features := ?_ }
    simp only [virtioSetFeatures]
    rw [UInt32.and_assoc, UInt32.and_not_self, UInt32.and_zero]
  | setStatus status =>
    cases taken
    exact { shaped with }
  | select queueSel =>
    cases taken
    exact { shaped with }
  | setIsr isr =>
    cases taken
    exact { shaped with }

theorem reached_shaped {allowed : VirtIODevice → DeviceAction → Prop}
    (reached : (deviceMachine cls transport).Reached allowed vdev) : Shaped cls transport vdev :=
  reached.invariant (fun _ => Shaped.create) fun _ _ _ shaped _ taken => shaped.step taken

end Shape

end VhostUser.Qemu.Virtio
