import VhostUser.Qemu.QueueFifo

/-!
Contract: the device's account of one virtqueue, whatever the driver writes to its part of the
rings.

Every element that was popped is in the used ring, in the batch that is not flushed yet, or
held by the device. The account follows the calls of the device: a pop adds a held element, a
fill moves it to the batch, a flush moves the batch to the used ring.

Owns: the account and its step rules, and how many pops the rings allow.

Does not own: the order that the driver sees (`QueueFifo`).
-/

namespace VhostUser.Qemu.Virtio

open VhostUser.Lib

/-! ### The calls of a device -/

namespace Run

def popElem (eventIdx : Bool) (map : GuestMap) (run : Run) :
    Except Exit (Option VirtQueueElement × Run) := do
  let (popped, rings, vq) ← virtqueuePop ringsAccess eventIdx map run.vq run.rings
  match popped with
  | none => .ok (none, { run with rings, vq })
  | some elem =>
    .ok (some elem, { run with
      rings, vq
      inFlight := run.inFlight ++ [elem]
      popped := run.popped ++ [elem.index] })

def notify (notifyOnEmpty eventIdx : Bool) (run : Run) : Run :=
  { run with vq := (vringNotify ringsAccess notifyOnEmpty eventIdx run.vq run.rings).2 }

def setNotification (eventIdx enable : Bool) (run : Run) : Run :=
  let (rings, vq) := virtioQueueSetNotification ringsAccess eventIdx enable run.vq run.rings
  { run with rings, vq }

/-- The stores of `virtio_queue_set_notification`, behind a load of the driver's index. -/
def setNotificationAt (eventIdx enable : Bool) (seen : UInt16) (run : Run) : Run :=
  let vq := { run.vq with notification := enable }
  { run with
    vq
    rings := if eventIdx then vringAvailEvent ringsAccess vq seen run.rings else run.rings }

def drive (availFlags availIdx : UInt16) (availRing : Nat → UInt16)
    (descs : UInt64 → Nat → VRingDesc) (run : Run) : Run :=
  { run with rings := { run.rings with availFlags, availIdx, availRing, descs } }

def heads (run : Run) : Nat := (run.rings.availIdx - run.vq.lastAvailIdx).toNat

def front (map : GuestMap) (run : Run) : Option VirtQueueElement :=
  match virtqueueGetHead ringsAccess run.vq run.vq.lastAvailIdx.toNat run.rings with
  | .ok head => (popChain map run.vq head run.rings.descs).toOption
  | .error _ => none

end Run

/-! ### What a call leaves alone -/

/-- The two differ in what asks for kicks and interrupts only. -/
structure SameLedger (run next : Run) : Prop where
  vring : next.vq.vring = run.vq.vring
  lastAvailIdx : next.vq.lastAvailIdx = run.vq.lastAvailIdx
  inuse : next.vq.inuse = run.vq.inuse
  rings : ∃ availEvent, next.rings = { run.rings with availEvent }
  inFlight : next.inFlight = run.inFlight
  batch : next.batch = run.batch
  popped : next.popped = run.popped
  completed : next.completed = run.completed

theorem SameLedger.trans {first second third : Run} (one : SameLedger first second)
    (two : SameLedger second third) : SameLedger first third := by
  obtain ⟨event, rings⟩ := one.rings
  obtain ⟨later, ringsLater⟩ := two.rings
  refine ⟨two.vring.trans one.vring, two.lastAvailIdx.trans one.lastAvailIdx,
    two.inuse.trans one.inuse, ⟨later, ?_⟩, two.inFlight.trans one.inFlight,
    two.batch.trans one.batch, two.popped.trans one.popped, two.completed.trans one.completed⟩
  rw [ringsLater, rings]

theorem vringNotify_vq (notifyOnEmpty eventIdx : Bool) (vq : VirtQueue) (rings : Rings) :
    ∃ signalledUsed signalledUsedValid,
      (vringNotify ringsAccess notifyOnEmpty eventIdx vq rings).2 =
        { vq with signalledUsed, signalledUsedValid } := by
  unfold vringNotify
  split_ifs
  · exact ⟨_, _, rfl⟩
  · exact ⟨_, _, rfl⟩
  · exact ⟨_, _, rfl⟩

theorem notify_same (notifyOnEmpty eventIdx : Bool) (run : Run) :
    SameLedger run (run.notify notifyOnEmpty eventIdx) := by
  obtain ⟨signalledUsed, signalledUsedValid, noted⟩ :=
    vringNotify_vq notifyOnEmpty eventIdx run.vq run.rings
  rw [Run.notify, noted]
  exact ⟨rfl, rfl, rfl, ⟨run.rings.availEvent, rfl⟩, rfl, rfl, rfl, rfl⟩

theorem setNotificationAt_same (eventIdx enable : Bool) (seen : UInt16) (run : Run) :
    SameLedger run (run.setNotificationAt eventIdx enable seen) := by
  refine ⟨rfl, rfl, rfl, ?_, rfl, rfl, rfl, rfl⟩
  exact availEvent_rings eventIdx { run.vq with notification := enable } _ run.rings

theorem setNotification_same (eventIdx enable : Bool) (run : Run) :
    SameLedger run (run.setNotification eventIdx enable) :=
  setNotificationAt_same eventIdx enable run.rings.availIdx run

/-! ### The account -/

/-- The used ring and the batch have every popped element but those held, in the order of the
pops; the last entries are in their slots. -/
structure Accounted (num : UInt32) (held : List VirtQueueElement) (run : Run) : Prop where
  size : run.vq.vring.num = num
  inFlight : run.inFlight = held
  returned : run.popped =
    (run.completed ++ run.batch).map VRingUsedElem.id ++ held.map VirtQueueElement.index
  inuse : run.vq.inuse = run.batch.length + held.length
  usedIdx : run.rings.usedIdx = UInt16.ofNat run.completed.length
  entries : RingLog num.toNat run.rings.usedRing (run.completed ++ run.batch)
    ((run.completed ++ run.batch).length - num.toNat)

section Account

variable {num : UInt32} {held : List VirtQueueElement} {run next : Run} {eventIdx : Bool}
  {map : GuestMap} {elem : VirtQueueElement}

theorem Accounted.same (accounted : Accounted num held run) (same : SameLedger run next) :
    Accounted num held next := by
  obtain ⟨vring, lastAvailIdx, inuse, ⟨availEvent, rings⟩, inFlight, batch, popped, completed⟩ :=
    same
  constructor
  · rw [vring]
    exact accounted.size
  · rw [inFlight]
    exact accounted.inFlight
  · rw [popped, completed, batch]
    exact accounted.returned
  · rw [inuse, batch]
    exact accounted.inuse
  · rw [rings, completed]
    exact accounted.usedIdx
  · rw [rings, completed, batch]
    exact accounted.entries

theorem Accounted.drive (accounted : Accounted num held run) (availFlags availIdx : UInt16)
    (availRing : Nat → UInt16) (descs : UInt64 → Nat → VRingDesc) :
    Accounted num held (run.drive availFlags availIdx availRing descs) :=
  { accounted with }

theorem popElem_ok {popped : Option VirtQueueElement}
    (taken : run.popElem eventIdx map = .ok (popped, next)) :
    popped = none ∧ next = run ∨
      ∃ elem availEvent, popped = some elem ∧ run.front map = some elem ∧
        next = { run with
          rings := { run.rings with availEvent }
          vq := { run.vq with lastAvailIdx := run.vq.lastAvailIdx + 1, inuse := run.vq.inuse + 1 }
          inFlight := run.inFlight ++ [elem]
          popped := run.popped ++ [elem.index] } := by
  obtain ⟨⟨result, rings, vq⟩, returned, built⟩ := bind_ok_iff.mp taken
  obtain ⟨rfl, rfl, rfl⟩ | ⟨elem, rfl, popped⟩ := virtqueuePop_ok returned
  · cases built
    exact .inl ⟨rfl, rfl⟩
  cases built
  refine .inr ?_
  obtain ⟨availEvent, asked⟩ :=
    availEvent_rings eventIdx run.vq (ringsAccess.availIdx run.rings) run.rings
  obtain ⟨head, got, chain⟩ := bind_ok_iff.mp popped
  obtain ⟨same, collected, values⟩ := bind_ok_iff.mp chain
  cases values
  refine ⟨elem, availEvent, rfl, ?_, ?_⟩
  · rw [asked] at collected
    rw [Run.front, got]
    exact congrArg Except.toOption collected
  · rw [asked]

theorem popElem_event (taken : run.popElem true map = .ok (some elem, next))
    (on : run.vq.notification = true) : next.rings.availEvent = run.rings.availIdx := by
  obtain ⟨⟨result, rings, vq⟩, returned, built⟩ := bind_ok_iff.mp taken
  obtain ⟨rfl, -, -⟩ | ⟨elem, rfl, popped⟩ := virtqueuePop_ok returned
  · cases built
  cases built
  obtain ⟨head, -, -, left, -⟩ := popHead_ok popped
  rw [if_pos rfl, vringAvailEvent, on] at left
  rw [left]
  rfl

theorem Accounted.popElem (accounted : Accounted num held run)
    (taken : run.popElem eventIdx map = .ok (some elem, next)) :
    Accounted num (held ++ [elem]) next := by
  obtain ⟨none, -⟩ | ⟨same, availEvent, popped, -, rfl⟩ := popElem_ok taken
  · cases none
  cases popped
  refine { accounted with inFlight := ?_, returned := ?_, inuse := ?_ }
  · rw [accounted.inFlight]
  · simp [accounted.returned]
  · rw [accounted.inuse, List.length_append, List.length_singleton]
    push_cast
    rw [Int.add_assoc]

theorem Accounted.fill (accounted : Accounted num [elem] run) (divides : num.toNat ∣ 65536)
    (len : UInt32) : Accounted num [] (run.fill elem len) := by
  have slot : (run.batch.length + run.rings.usedIdx.toNat) % run.vq.vring.num.toNat =
      (run.completed ++ run.batch).length % num.toNat := by
    rw [accounted.usedIdx, accounted.size, Nat.add_mod, counter_slot divides, ← Nat.add_mod,
      List.length_append, Nat.add_comm]
  have window : (run.completed ++ run.batch).length - num.toNat ≤
      (run.completed ++ run.batch).length + 1 - num.toNat := by omega
  have written := (accounted.entries.later window).write (by omega) ⟨elem.index, len⟩
  rw [← slot, List.append_assoc] at written
  constructor
  · exact accounted.size
  · simp [Run.fill, accounted.inFlight]
  · simp [Run.fill, accounted.returned]
  · rw [Run.fill]
    simp [accounted.inuse]
  · rw [Run.fill, virtqueueFill_rings]
    exact accounted.usedIdx
  · rw [Run.fill, virtqueueFill_rings]
    have length : (run.completed ++ (run.batch ++ [VRingUsedElem.mk elem.index len])).length =
        (run.completed ++ run.batch).length + 1 := by
      rw [← List.append_assoc, List.length_append, List.length_singleton]
    rw [length]
    exact written

theorem Accounted.flush (accounted : Accounted num held run) : Accounted num held run.flush := by
  constructor
  · exact accounted.size
  · exact accounted.inFlight
  · simpa [Run.flush] using accounted.returned
  · simp only [Run.flush, virtqueueFlush, accounted.inuse, List.length_nil]
    omega
  · simp only [Run.flush, virtqueueFlush, ringsAccess, accounted.usedIdx, counter_add,
      List.length_append]
  · simpa [Run.flush, virtqueueFlush, ringsAccess] using accounted.entries

structure Settled (num : UInt32) (held : List VirtQueueElement) (run : Run) : Prop
    extends Accounted num held run where
  closed : run.batch = []

theorem Settled.same (settled : Settled num held run) (same : SameLedger run next) :
    Settled num held next :=
  ⟨settled.toAccounted.same same, same.batch.trans settled.closed⟩

theorem Settled.drive (settled : Settled num held run) (availFlags availIdx : UInt16)
    (availRing : Nat → UInt16) (descs : UInt64 → Nat → VRingDesc) :
    Settled num held (run.drive availFlags availIdx availRing descs) :=
  ⟨settled.toAccounted.drive _ _ _ _, settled.closed⟩

theorem Settled.popElem (settled : Settled num held run)
    (taken : run.popElem eventIdx map = .ok (some elem, next)) :
    Settled num (held ++ [elem]) next := by
  refine ⟨settled.toAccounted.popElem taken, ?_⟩
  obtain ⟨none, -⟩ | ⟨same, availEvent, -, -, rfl⟩ := popElem_ok taken
  · cases none
  · exact settled.closed

theorem Settled.push (settled : Settled num [elem] run) (divides : num.toNat ∣ 65536)
    (len : UInt32) : Settled num [] (run.push elem len) := by
  rw [push_eq settled.closed]
  exact ⟨(settled.toAccounted.fill divides len).flush, rfl⟩

/-! ### How long a loop of pops is -/

theorem SameLedger.heads (same : SameLedger run next) : next.heads = run.heads := by
  obtain ⟨availEvent, rings⟩ := same.rings
  rw [Run.heads, Run.heads, rings, same.lastAvailIdx]

theorem fill_heads (elem : VirtQueueElement) (len : UInt32) (run : Run) :
    (run.fill elem len).heads = run.heads := by
  rw [Run.heads, Run.fill, virtqueueFill_rings]
  rfl

theorem push_heads (elem : VirtQueueElement) (len : UInt32) (run : Run) :
    (run.push elem len).heads = run.heads := by
  have same := fill_heads elem len { run with batch := [] }
  exact same

theorem virtqueueNumHeads_ok {heads : Nat}
    (available : virtqueueNumHeads ringsAccess run.vq run.vq.lastAvailIdx run.rings = .ok heads) :
    heads = run.heads ∧ run.heads ≤ run.vq.vring.num.toNat := by
  unfold virtqueueNumHeads at available
  dsimp only at available
  split_ifs at available with few
  cases available
  exact ⟨rfl, Nat.le_of_not_lt few⟩

theorem popElem_heads (taken : run.popElem eventIdx map = .ok (some elem, next)) :
    next.heads + 1 = run.heads ∧ run.heads ≤ run.vq.vring.num.toNat := by
  obtain ⟨⟨result, rings, vq⟩, returned, built⟩ := bind_ok_iff.mp taken
  obtain ⟨heads, available, -⟩ := bind_ok_iff.mp returned
  rw [virtqueuePop_heads available] at returned
  obtain ⟨rfl, bounded⟩ := virtqueueNumHeads_ok available
  obtain ⟨none, -⟩ | ⟨same, availEvent, -, -, rfl⟩ := popElem_ok taken
  · cases none
  refine ⟨?_, bounded⟩
  split_ifs at returned with empty
  · cases returned
    cases built
  simp only [Run.heads] at empty ⊢
  rw [UInt16.toNat_sub] at empty ⊢
  rw [UInt16.toNat_sub, UInt16.toNat_add]
  have last := run.vq.lastAvailIdx.toNat_lt
  have one : (1 : UInt16).toNat = 1 := rfl
  rw [one]
  omega

theorem popElem_none (taken : run.popElem eventIdx map = .ok (none, next)) :
    run.heads = 0 ∧ next = run := by
  obtain ⟨⟨result, rings, vq⟩, returned, built⟩ := bind_ok_iff.mp taken
  obtain ⟨-, same⟩ | ⟨elem, -, popped, -⟩ := popElem_ok taken
  swap
  · cases popped
  refine ⟨?_, same⟩
  obtain ⟨heads, available, -⟩ := bind_ok_iff.mp returned
  rw [virtqueuePop_heads available] at returned
  obtain ⟨rfl, -⟩ := virtqueueNumHeads_ok available
  by_contra more
  rw [if_neg more] at returned
  cases result with
  | some elem => cases built
  | none =>
    cases popped : popHead ringsAccess eventIdx map run.vq run.rings with
    | error exit =>
      rw [popped] at returned
      cases returned
    | ok values =>
      rw [popped] at returned
      cases returned

end Account

end VhostUser.Qemu.Virtio
