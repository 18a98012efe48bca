import VhostUser.Qemu.Dataplane
import VhostUser.Qemu.QueueFifo

/-!
Contract: the dataplane and `virtio.c` on the used ring of one queue, and their decisions to
interrupt.

The dataplane tests `guest_features & VIRTIO_F_NOTIFY_ON_EMPTY` and
`guest_features & VIRTIO_RING_F_EVENT_IDX`, with 24 and 29 as masks; `virtio.c` tests the bits 24
and 29.

Owns: for which feature words the two agree in every history.
-/

namespace VhostUser.Qemu.Virtio

/-! ### Histories -/

inductive UsedStep where
  /-- The driver writes its side, where the slot behind the ring is `used_event`. -/
  | driver (availFlags availIdx : UInt16) (availRing : Nat → UInt16)
  | complete (head len : UInt32)
  | notify

/-- `features & (1 << feature)`. -/
def featureSet (features feature : UInt32) : Bool := features &&& (1 <<< feature) ≠ 0

/-- What a step shows: the decision, `signalled_used` and `signalled_used_valid`. -/
abbrev Signal := Option Bool × UInt16 × Bool

def Rings.drive (rings : Rings) (availFlags availIdx : UInt16) (availRing : Nat → UInt16) : Rings :=
  { rings with availFlags, availIdx, availRing }

def dataplaneStep (features : UInt32) (vring : Vring) (rings : Rings) :
    UsedStep → Option Bool × Rings × Vring
  | .driver availFlags availIdx availRing =>
    (none, rings.drive availFlags availIdx availRing, vring)
  | .complete head len =>
    let taken := { vring with lastAvailIdx := vring.lastAvailIdx + 1 }
    (none, vringPush ringsAccess taken head len rings)
  | .notify =>
    let decided := vringShouldNotify ringsAccess features vring rings
    (some decided.1, rings, decided.2)

def virtioStep (features : UInt32) (vq : VirtQueue) (rings : Rings) :
    UsedStep → Option Bool × Rings × VirtQueue
  | .driver availFlags availIdx availRing => (none, rings.drive availFlags availIdx availRing, vq)
  | .complete head len =>
    let taken := { vq with lastAvailIdx := vq.lastAvailIdx + 1, inuse := vq.inuse + 1 }
    (none, virtqueuePush ringsAccess taken ⟨head, [], []⟩ len rings)
  | .notify =>
    let decided :=
      vringNotify ringsAccess (featureSet features 24) (featureSet features 29) vq rings
    (some decided.1, rings, decided.2)

def dataplaneRun (features : UInt32) : List UsedStep → Vring → Rings → List (Signal × Rings)
  | [], _, _ => []
  | step :: rest, vring, rings =>
    let next := dataplaneStep features vring rings step
    ((next.1, next.2.2.signalledUsed, next.2.2.signalledUsedValid), next.2.1) ::
      dataplaneRun features rest next.2.2 next.2.1

def virtioRun (features : UInt32) : List UsedStep → VirtQueue → Rings → List (Signal × Rings)
  | [], _, _ => []
  | step :: rest, vq, rings =>
    let next := virtioStep features vq rings step
    ((next.1, next.2.2.signalledUsed, next.2.2.signalledUsedValid), next.2.1) ::
      virtioRun features rest next.2.2 next.2.1

/-- Both sides of one queue, with all elements completed. -/
structure SameQueue (vring : Vring) (vq : VirtQueue) (rings : Rings) : Prop where
  intact : vring.broken = false
  num : vring.vr.num = vq.vring.num
  lastAvailIdx : vring.lastAvailIdx = vq.lastAvailIdx
  lastUsedIdx : vring.lastUsedIdx = rings.usedIdx
  signalledUsed : vring.signalledUsed = vq.signalledUsed
  valid : vring.signalledUsedValid = vq.signalledUsedValid
  idle : vq.inuse = 0

/-- Every history shows the same on both sides. -/
def DecideAlike (features : UInt32) : Prop :=
  ∀ history vring vq rings, SameQueue vring vq rings →
    dataplaneRun features history vring rings = virtioRun features history vq rings

/-- The masks of the dataplane find what the bits say. -/
def MasksAlike (features : UInt32) : Prop :=
  (features &&& 24 ≠ 0 ↔ featureSet features 24 = true) ∧
    (features &&& 29 ≠ 0 ↔ featureSet features 29 = true)

section Agreement

variable {features : UInt32} {vring : Vring} {vq : VirtQueue} {rings : Rings}

theorem SameQueue.complete (same : SameQueue vring vq rings) (head len : UInt32) :
    let left := dataplaneStep features vring rings (.complete head len)
    let right := virtioStep features vq rings (.complete head len)
    left.2.1 = right.2.1 ∧ SameQueue left.2.2 right.2.2 right.2.1 := by
  have flushed : (rings.usedIdx + UInt16.ofNat 1 - rings.usedIdx).toNat = 1 := by
    rw [show rings.usedIdx + UInt16.ofNat 1 - rings.usedIdx = 1 by grind]
    rfl
  obtain ⟨intact, num, lastAvailIdx, lastUsedIdx, signalledUsed, valid, idle⟩ := same
  simp only [dataplaneStep, virtioStep, virtqueuePush, virtqueueFill_rings]
  simp only [vringPush, virtqueueFlush, ringsAccess, intact, flushed, lastUsedIdx, num,
    Nat.zero_add]
  constructor
  · simp
  · constructor
    all_goals simp [*]

theorem SameQueue.notify (same : SameQueue vring vq rings) (alike : MasksAlike features) :
    let left := dataplaneStep features vring rings .notify
    let right := virtioStep features vq rings .notify
    left.1 = right.1 ∧ SameQueue left.2.2 right.2.2 rings := by
  obtain ⟨onEmpty, eventIdx⟩ := alike
  simp only [dataplaneStep, virtioStep, vringShouldNotify, vringNotify, emptyNotifies, onEmpty,
    same.lastAvailIdx, same.idle, decide_true, Bool.and_true, Bool.and_eq_true, decide_eq_true_eq]
  split
  · exact ⟨rfl, same⟩
  cases event : featureSet features 29 with
  | false =>
    have unmasked : features &&& 29 = 0 := by simpa [event] using eventIdx
    rw [if_pos unmasked]
    exact ⟨rfl, same⟩
  | true =>
    rw [if_neg (eventIdx.mpr event)]
    constructor
    · simp [ringsAccess, same.lastUsedIdx, same.signalledUsed, same.valid, same.num]
    · constructor
      all_goals simp [ringsAccess, same.intact, same.num, same.lastUsedIdx]

theorem SameQueue.run (alike : MasksAlike features) (history : List UsedStep)
    (same : SameQueue vring vq rings) :
    dataplaneRun features history vring rings = virtioRun features history vq rings := by
  induction history generalizing vring vq rings with
  | nil => rfl
  | cons step rest ih =>
    have steps : (dataplaneStep features vring rings step).1 =
          (virtioStep features vq rings step).1 ∧
        (dataplaneStep features vring rings step).2.1 = (virtioStep features vq rings step).2.1 ∧
        SameQueue (dataplaneStep features vring rings step).2.2
          (virtioStep features vq rings step).2.2 (virtioStep features vq rings step).2.1 := by
      cases step with
      | driver => exact ⟨rfl, rfl, { same with }⟩
      | complete head len => exact ⟨rfl, same.complete head len⟩
      | notify => exact ⟨(same.notify alike).1, rfl, (same.notify alike).2⟩
    obtain ⟨decision, contents, next⟩ := steps
    rw [dataplaneRun, virtioRun, decision, contents, next.signalledUsed, next.valid, ih next]

end Agreement

def judged (availFlags availIdx : UInt16) : Vring × VirtQueue × Rings :=
  (⟨[], ⟨4, 0, 0, 0⟩, 0, 0, 0, true, false⟩, ⟨⟨4, 4096, 0, 0, 0⟩, 0, 0, 0, true, true, 0⟩,
    ⟨availFlags, availIdx, fun _ => 0, 0, 0, fun _ => ⟨0, 0⟩, fun _ _ => ⟨0, 0, 0, 0⟩⟩)

theorem judged_same (availFlags availIdx : UInt16) :
    SameQueue (judged availFlags availIdx).1 (judged availFlags availIdx).2.1
      (judged availFlags availIdx).2.2 :=
  ⟨rfl, rfl, rfl, rfl, rfl, rfl, rfl⟩

/-- The dataplane and `virtio.c` show the same in every history exactly if the masks find what the
bits say. -/
theorem decideAlike_iff (features : UInt32) : DecideAlike features ↔ MasksAlike features := by
  constructor
  · intro alike
    -- one decision tells the tests apart: on an empty ring with interrupts off, and on one that
    -- is not empty with interrupts on
    have shown (availFlags availIdx : UInt16) :=
      alike [.notify] _ _ _ (judged_same availFlags availIdx)
    have empty := shown 1 0
    have filled := shown 0 1
    simp [dataplaneRun, virtioRun, dataplaneStep, virtioStep, vringShouldNotify, vringNotify,
      emptyNotifies, ringsAccess, judged, vringNeedEvent] at empty filled
    constructor
    · grind
    · grind
  · intro alike history vring vq rings same
    exact same.run alike history

/-- With the feature bit 0 alone the dataplane goes by `used_event`, which the driver never
writes, and does not interrupt. -/
theorem dataplane_loses_interrupt :
    ((dataplaneRun 1 [.complete 0 0, .notify, .complete 1 0, .notify] (judged 0 4).1
        (judged 0 4).2.2).map fun shown => shown.1.1) = [none, some true, none, some false] ∧
      ((virtioRun 1 [.complete 0 0, .notify, .complete 1 0, .notify] (judged 0 4).2.1
        (judged 0 4).2.2).map fun shown => shown.1.1) = [none, some true, none, some true] := by
  decide

end VhostUser.Qemu.Virtio
