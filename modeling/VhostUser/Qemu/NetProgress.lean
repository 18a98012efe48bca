import VhostUser.Qemu.NetQueues

/-!
Contract: the transmit work of a virtio network device is not forgotten: while entries are
published and not popped, the peer has a packet, a timer or bottom half is scheduled, or a kick
is to be delivered.

The device runs and its driver is ready. The guest publishes between any two accesses of the
handlers. A flush that was not asked for by the bottom half does not come back when its burst is
over, so the entries that it leaves wait for the next kick.

Owns: the runs in which nothing is forgotten, and how long they can be without the guest.
-/

namespace VhostUser.Qemu.Virtio

open VhostUser.Lib

/-! ### The machine -/

def running : DeviceStatus := ⟨true, true⟩

inductive TxEvent where
  | publish (publication : Publication)
  | kick
  | deferred
  | complete

/-- An event with what its handler meets, and what the guest publishes beside it. -/
structure TxStep where
  env : TxEnv
  ahead : List Publication
  event : TxEvent

def txMachine (n : VirtIONet) (tx : TxConfig) (num : UInt32) : Machine TxQueue TxStep where
  start q := q.run.Fresh num ∧ q.run.vq.notification = true ∧ q.run.rings.availEvent = 0 ∧
    q.asyncTx.outSg = [] ∧ q.waiting = false ∧ q.scheduled = false ∧ q.sending = false ∧
    q.kick = false
  step q action :=
    let busy := { q with ahead := action.ahead }
    match action.event with
    | .publish publication => some (q.publish n publication)
    | .kick => (handleTxKick n action.env tx running busy).toOption
    | .deferred =>
      if q.scheduled then (runTxDeferred n action.env tx running busy).toOption else none
    | .complete =>
      if q.sending then (virtioNetTxComplete n action.env tx running busy).toOption else none

def entries (publications : List Publication) : Nat :=
  (publications.map fun publication => publication.count.toNat).sum

/-- A flush that nothing follows finds no more entries than its burst. -/
def BurstFits (tx : TxConfig) (q : TxQueue) (action : TxStep) : Prop :=
  match action.event with
  | .publish _ => True
  | .kick => tx.timer = true → q.waiting = true →
      ((q.run.heads + entries action.ahead : Nat) : Int) ≤ tx.burst
  | .deferred => tx.timer = true → ((q.run.heads + entries action.ahead : Nat) : Int) ≤ tx.burst
  | .complete =>
    q.scheduled = false → ((q.run.heads + entries action.ahead : Nat) : Int) ≤ tx.burst

/-! ### The ring beside a handler -/

def TxQueue.work (q : TxQueue) : Nat := q.run.heads + entries q.ahead

structure RingBounded (num : UInt32) (q : TxQueue) : Prop where
  size : q.run.vq.vring.num = num
  few : q.run.heads ≤ num.toNat

def Armed (n : VirtIONet) (q : TxQueue) : Prop :=
  if n.eventIdx then q.run.rings.availEvent = q.run.rings.availIdx
  else q.run.vq.notification = true

/-- Notification is on, and the event is at an entry that was not popped or at the next one. -/
structure Watching (n : VirtIONet) (q : TxQueue) : Prop where
  on : q.run.vq.notification = true
  event : n.eventIdx = true → (q.run.rings.availIdx - q.run.rings.availEvent).toNat ≤ q.run.heads

structure Touched (q next : TxQueue) : Prop where
  waiting : next.waiting = q.waiting
  scheduled : next.scheduled = q.scheduled
  asyncTx : next.asyncTx = q.asyncTx
  sending : next.sending = q.sending
  quiet : q.ahead = [] → next.ahead = [] ∧ next.kick = q.kick

theorem Touched.refl (q : TxQueue) : Touched q q := ⟨rfl, rfl, rfl, rfl, fun none => ⟨none, rfl⟩⟩

theorem Touched.trans {first second third : TxQueue} (one : Touched first second)
    (two : Touched second third) : Touched first third := by
  refine ⟨two.waiting.trans one.waiting, two.scheduled.trans one.scheduled,
    two.asyncTx.trans one.asyncTx, two.sending.trans one.sending, fun none => ?_⟩
  obtain ⟨ahead, kick⟩ := one.quiet none
  obtain ⟨aheadLater, kickLater⟩ := two.quiet ahead
  exact ⟨aheadLater, kickLater.trans kick⟩

section Access

variable {n : VirtIONet} {num : UInt32} {q next : TxQueue}

theorem Touched.async (touched : Touched q next)
    (async : q.sending = true ↔ q.asyncTx.outSg ≠ []) :
    next.sending = true ↔ next.asyncTx.outSg ≠ [] := by
  rw [touched.sending, touched.asyncTx]
  exact async

theorem RingBounded.of_run (bounded : RingBounded num q) (same : next.run = q.run) :
    RingBounded num next := by
  constructor
  all_goals rw [same]
  · exact bounded.size
  · exact bounded.few

theorem Watching.armed (watching : Watching n q) (empty : q.run.heads = 0) : Armed n q := by
  unfold Armed
  split
  next eventIdx =>
    have distance := watching.event eventIdx
    rw [empty, Nat.le_zero, UInt16.toNat_sub] at distance
    have avail := q.run.rings.availIdx.toNat_lt
    have event := q.run.rings.availEvent.toNat_lt
    exact UInt16.toNat_inj.mp (by omega)
  · exact watching.on

theorem drive_heads (small : num.toNat < 65536) (bounded : RingBounded num q) {count : UInt16}
    (room : q.run.heads + count.toNat ≤ q.run.vq.vring.num.toNat) (availFlags : UInt16)
    (availRing : Nat → UInt16) (descs : UInt64 → Nat → VRingDesc) :
    (q.run.drive availFlags (q.run.rings.availIdx + count) availRing descs).heads =
      q.run.heads + count.toNat := by
  rw [bounded.size] at room
  simp only [Run.heads, Run.drive] at room ⊢
  rw [UInt16.toNat_sub] at room ⊢
  rw [UInt16.toNat_sub, UInt16.toNat_add]
  omega

theorem publish_touched (n : VirtIONet) (publication : Publication) (q : TxQueue) :
    (q.publish n publication).waiting = q.waiting ∧
      (q.publish n publication).scheduled = q.scheduled ∧
      (q.publish n publication).asyncTx = q.asyncTx ∧
      (q.publish n publication).sending = q.sending ∧
      (q.publish n publication).ahead = q.ahead ∧
      (q.kick = true → (q.publish n publication).kick = true) := by
  unfold TxQueue.publish
  split
  · exact ⟨rfl, rfl, rfl, rfl, rfl, fun kick => by simp [kick]⟩
  · exact ⟨rfl, rfl, rfl, rfl, rfl, id⟩

/-- What the guest does to the ring: its index moves by the entries that are new. -/
structure Published (n : VirtIONet) (num : UInt32) (q next : TxQueue) : Prop where
  bounded : RingBounded num next
  work : next.work ≤ q.work
  watching : Watching n q → Watching n next
  moved : (next.run.rings.availIdx - q.run.rings.availIdx).toNat ≤ next.run.heads

theorem Published.same (bounded : RingBounded num next) (run : next.run = q.run)
    (work : next.work ≤ q.work) : Published n num q next := by
  refine ⟨bounded, work, fun watching => ?_, ?_⟩
  · refine ⟨?_, fun eventIdx => ?_⟩
    · rw [run]
      exact watching.on
    · rw [run]
      exact watching.event eventIdx
  · rw [run, UInt16.sub_self]
    exact Nat.zero_le _

theorem RingBounded.publish (bounded : RingBounded num q) (small : num.toNat < 65536)
    (publication : Publication) :
    RingBounded num (q.publish n publication) ∧
      (q.publish n publication).run.heads ≤ q.run.heads + publication.count.toNat ∧
      (Watching n q → Watching n (q.publish n publication)) ∧
      ((q.publish n publication).run.rings.availIdx - q.run.rings.availIdx).toNat ≤
        (q.publish n publication).run.heads := by
  unfold TxQueue.publish
  split
  next room =>
    have heads := drive_heads small bounded room q.run.rings.availFlags publication.availRing
      publication.descs
    have size := bounded.size
    rw [size] at room
    have avail := q.run.rings.availIdx.toNat_lt
    refine ⟨⟨size, heads.le.trans room⟩, heads.le,
      fun watching => ⟨watching.on, fun eventIdx => ?_⟩, ?_⟩
    · have distance := watching.event eventIdx
      simp only [heads]
      simp only [Run.drive]
      rw [UInt16.toNat_sub] at distance ⊢
      rw [UInt16.toNat_add]
      omega
    · simp only [heads]
      simp only [Run.drive]
      rw [UInt16.toNat_sub, UInt16.toNat_add]
      omega
  · refine ⟨bounded, Nat.le_add_right _ _, id, ?_⟩
    rw [UInt16.sub_self]
    exact Nat.zero_le _

theorem interfere_touched (n : VirtIONet) (q : TxQueue) : Touched q (q.interfere n) := by
  unfold TxQueue.interfere
  split
  · exact Touched.refl q
  next publication rest next =>
    obtain ⟨waiting, scheduled, asyncTx, sending, -, -⟩ :=
      publish_touched n publication { q with ahead := rest }
    exact ⟨waiting, scheduled, asyncTx, sending, fun none => by rw [next] at none; cases none⟩

section

variable (bounded : RingBounded num q) (small : num.toNat < 65536)
include bounded small

theorem RingBounded.interfere : Published n num q (q.interfere n) := by
  unfold TxQueue.interfere
  split
  · exact Published.same bounded rfl (Nat.le_refl _)
  next publication rest next =>
    have waits : RingBounded num { q with ahead := rest } := bounded.of_run rfl
    obtain ⟨kept, heads, watches, moved⟩ := waits.publish (n := n) small publication
    obtain ⟨-, -, -, -, ahead, -⟩ := publish_touched n publication { q with ahead := rest }
    refine ⟨kept, ?_, fun watching => watches ⟨watching.on, watching.event⟩, moved⟩
    rw [TxQueue.work, TxQueue.work, ahead, next]
    simp only [entries, List.map_cons, List.sum_cons]
    dsimp only at heads
    omega

/-- The event is stored behind the load of the driver's index, so it is at most the new entries
behind it. -/
theorem RingBounded.setNotification (enable : Bool) :
    Touched q (q.setNotification n enable) ∧ RingBounded num (q.setNotification n enable) ∧
      (q.setNotification n enable).work ≤ q.work ∧
      (enable = true → Watching n (q.setNotification n enable)) := by
  have guest := bounded.interfere (n := n) small
  have touched := interfere_touched n q
  have same := setNotificationAt_same n.eventIdx enable q.run.rings.availIdx (q.interfere n).run
  have heads : (q.setNotification n enable).run.heads = (q.interfere n).run.heads := same.heads
  refine ⟨{ touched with }, ⟨?_, ?_⟩, ?_, ?_⟩
  · exact (congrArg VRing.num same.vring).trans guest.bounded.size
  · rw [heads]
    exact guest.bounded.few
  · rw [TxQueue.work, heads]
    exact guest.work
  rintro rfl
  refine ⟨rfl, fun eventIdx => ?_⟩
  rw [heads]
  have stored : (q.setNotification n true).run.rings.availIdx -
      (q.setNotification n true).run.rings.availEvent =
      (q.interfere n).run.rings.availIdx - q.run.rings.availIdx := by
    rw [TxQueue.setNotification, eventIdx]
    rfl
  rw [stored]
  exact guest.moved

theorem RingBounded.popNone {map : GuestMap} (taken : q.pop n map = .ok (none, next)) :
    Touched q next ∧ Published n num q next ∧ next.run.heads = 0 := by
  obtain ⟨run, returned, rfl⟩ := pop_ok taken
  obtain ⟨empty, rfl⟩ := popElem_none returned
  exact ⟨interfere_touched n q, bounded.interfere small, empty⟩

/-- A pop that returns an element takes it off the work. With notification on it asks for the
next entry that the guest will publish. -/
theorem RingBounded.popSome {map : GuestMap} {elem : VirtQueueElement}
    (taken : q.pop n map = .ok (some elem, next)) :
    Touched q next ∧ RingBounded num next ∧ next.work + 1 ≤ q.work ∧
      (Watching n q → Watching n next) := by
  obtain ⟨run, returned, rfl⟩ := pop_ok taken
  have guest := bounded.interfere (n := n) small
  have touched := interfere_touched n q
  have less := (popElem_heads returned).1
  have few : run.heads ≤ num.toNat := by
    have := guest.bounded.few
    omega
  have work : run.heads + entries (q.interfere n).ahead + 1 ≤ q.work := by
    have := guest.work
    rw [TxQueue.work] at this
    omega
  have event : n.eventIdx = true → (q.interfere n).run.vq.notification = true → _ :=
    fun eventIdx on => popElem_event (eventIdx ▸ returned) on
  obtain ⟨none, -⟩ | ⟨same, availEvent, -, -, rfl⟩ := popElem_ok returned
  · cases none
  refine ⟨{ touched with }, ⟨guest.bounded.size, few⟩, work, fun watching => ?_⟩
  have on := (guest.watching watching).on
  refine ⟨on, fun eventIdx => ?_⟩
  have asked := event eventIdx on
  rw [asked, UInt16.sub_self]
  exact Nat.zero_le _

end

theorem push_touched (n : VirtIONet) (elem : VirtQueueElement) (q : TxQueue) :
    Touched q (q.push n elem) :=
  ⟨rfl, rfl, rfl, rfl, fun none => ⟨none, rfl⟩⟩

theorem push_rings (elem : VirtQueueElement) (len : UInt32) (run : Run) :
    (run.push elem len).rings.availIdx = run.rings.availIdx ∧
      (run.push elem len).rings.availEvent = run.rings.availEvent ∧
      (run.push elem len).vq.notification = run.vq.notification ∧
      (run.push elem len).vq.vring = run.vq.vring := by
  simp only [Run.push, virtqueuePush, virtqueueFill_rings]
  exact ⟨rfl, rfl, rfl, rfl⟩

theorem notify_rings (notifyOnEmpty eventIdx : Bool) (run : Run) :
    (run.notify notifyOnEmpty eventIdx).rings = run.rings ∧
      (run.notify notifyOnEmpty eventIdx).vq.notification = run.vq.notification := by
  obtain ⟨signalledUsed, signalledUsedValid, noted⟩ :=
    vringNotify_vq notifyOnEmpty eventIdx run.vq run.rings
  rw [Run.notify, noted]
  exact ⟨rfl, rfl⟩

theorem RingBounded.push (bounded : RingBounded num q) (elem : VirtQueueElement) :
    RingBounded num (q.push n elem) ∧ (q.push n elem).work = q.work ∧
      (Watching n q → Watching n (q.push n elem)) := by
  have same := notify_same n.notifyOnEmpty n.eventIdx (q.run.push elem 0)
  obtain ⟨rings, notification⟩ := notify_rings n.notifyOnEmpty n.eventIdx (q.run.push elem 0)
  obtain ⟨availIdx, availEvent, pushNotification, vring⟩ := push_rings elem 0 q.run
  have heads : (q.push n elem).run.heads = q.run.heads := same.heads.trans (push_heads _ _ _)
  refine ⟨⟨?_, ?_⟩, ?_, fun watching => ⟨?_, fun eventIdx => ?_⟩⟩
  · exact (congrArg VRing.num (same.vring.trans vring)).trans bounded.size
  · rw [heads]
    exact bounded.few
  · rw [TxQueue.work, heads]
    rfl
  · exact (notification.trans pushNotification).trans watching.on
  · rw [heads, TxQueue.push, rings, availIdx, availEvent]
    exact watching.event eventIdx

end Access

/-! ### A flush -/

variable {ret : Int}

section Flush

variable {n : VirtIONet} {env : TxEnv} {tx : TxConfig} {num : UInt32} {q next : TxQueue}
  {slack : Nat}

/-- What the loop of `virtio_net_flush_tx` did, from `numPackets` packets on. -/
def TxOutcome.Progress (n : VirtIONet) (tx : TxConfig) (numPackets : Nat) (q next : TxQueue) :
    TxOutcome → Prop
  | .busy elem => elem.outSg ≠ [] ∧ next.work + 1 ≤ q.work
  | .flushed count => numPackets ≤ count ∧ next.work + count ≤ q.work + numPackets ∧
      (next.run.heads = 0 ∨ tx.burst ≤ count) ∧ (Watching n q → Watching n next)

theorem flushLoop_progress {outcome : TxOutcome} {fuel numPackets : Nat}
    (bounded : RingBounded num q) (small : num.toNat < 65536)
    (flushed : flushLoop n env tx fuel numPackets q = .ok (outcome, next)) :
    Touched q next ∧ RingBounded num next ∧ outcome.Progress n tx numPackets q next := by
  -- each round takes one entry off the work, and notification stays on
  induction fuel generalizing numPackets q with
  | zero => cases flushed
  | succ fuel ih =>
    obtain ⟨taken, rfl⟩ | ⟨elem, mid, taken, buffers, round⟩ := flushLoop_round flushed
    · obtain ⟨touched, guest, empty⟩ := bounded.popNone small taken
      refine ⟨touched, guest.bounded, Nat.le_refl _, ?_, .inl empty, guest.watching⟩
      exact Nat.add_le_add_right guest.work _
    obtain ⟨popTouched, popBounded, popWork, popWatching⟩ := bounded.popSome small taken
    obtain ⟨rfl, rfl⟩ | ⟨burst, rfl, rfl⟩ | ⟨-, rest⟩ := round
    · obtain ⟨touched, kept, work, -⟩ := popBounded.setNotification (n := n) small false
      refine ⟨popTouched.trans touched, kept, buffers, ?_⟩
      omega
    · obtain ⟨kept, work, watching⟩ := popBounded.push (n := n) elem
      refine ⟨popTouched.trans (push_touched n elem mid), kept, Nat.le_succ _, ?_,
        .inr (by push_cast; exact burst), fun watches => watching (popWatching watches)⟩
      omega
    obtain ⟨kept, work, watching⟩ := popBounded.push (n := n) elem
    obtain ⟨touched, last, progress⟩ := ih kept rest
    refine ⟨(popTouched.trans (push_touched n elem mid)).trans touched, last, ?_⟩
    cases outcome with
    | busy elem =>
      obtain ⟨buffers, less⟩ := progress
      exact ⟨buffers, by omega⟩
    | flushed count =>
      obtain ⟨more, less, ends, watchingLater⟩ := progress
      refine ⟨by omega, by omega, ends, fun watches => ?_⟩
      exact watchingLater (watching (popWatching watches))

/-- A packet was under way before, or one is now, or none is and the ring is empty or the burst is
over. -/
structure FlushEffect (n : VirtIONet) (tx : TxConfig) (num : UInt32) (q : TxQueue) (ret : Int)
    (next : TxQueue) : Prop where
  waiting : next.waiting = q.waiting
  scheduled : next.scheduled = q.scheduled
  bounded : RingBounded num next
  async : next.sending = true ↔ next.asyncTx.outSg ≠ []
  quiet : q.ahead = [] → next.ahead = [] ∧ next.kick = q.kick
  ends : (q.sending = true ∧ next.sending = true ∧ ret = 0 ∧ next.work ≤ q.work) ∨
    (q.sending = false ∧ next.sending = true ∧ ret = -ebusy ∧ next.work + 1 ≤ q.work) ∨
    q.sending = false ∧ next.sending = false ∧ ∃ count : Nat, ret = count ∧
      next.work + count ≤ q.work ∧ (next.run.heads = 0 ∨ tx.burst ≤ count) ∧
      (Watching n q → Watching n next)

theorem flush_effect (bounded : RingBounded num q) (small : num.toNat < 65536)
    (async : q.sending = true ↔ q.asyncTx.outSg ≠ [])
    (flushed : virtioNetFlushTx n env tx running q = .ok (ret, next)) :
    FlushEffect n tx num q ret next := by
  obtain ⟨ready, -, -⟩ | ⟨pending, rfl, rfl⟩ | ⟨empty, outcome, mid, looped, ends⟩ :=
    virtioNetFlushTx_ok flushed
  · cases ready
  · obtain ⟨touched, kept, work, -⟩ := bounded.setNotification (n := n) small false
    have sending := async.mpr pending
    exact ⟨touched.waiting, touched.scheduled, kept, touched.async async, touched.quiet,
      .inl ⟨sending, touched.sending.trans sending, rfl, work⟩⟩
  have idle : q.sending = false := by
    by_contra sending
    exact async.mp (Bool.eq_true_of_not_eq_false sending) empty
  obtain ⟨touched, kept, progress⟩ := flushLoop_progress bounded small looped
  obtain ⟨count, rfl, rfl, rfl⟩ | ⟨elem, rfl, rfl, rfl⟩ := ends
  · obtain ⟨-, work, stops, watching⟩ := progress
    exact ⟨touched.waiting, touched.scheduled, kept, touched.async async, touched.quiet,
      .inr (.inr ⟨idle, touched.sending.trans idle, count, rfl, work, stops, watching⟩)⟩
  · obtain ⟨buffers, work⟩ := progress
    exact ⟨touched.waiting, touched.scheduled, kept.of_run rfl, iff_of_true rfl buffers,
      touched.quiet, .inr (.inl ⟨idle, rfl, rfl, work⟩)⟩

/-- How long the device can go on without the guest. -/
def TxQueue.rank (q : TxQueue) : Nat :=
  4 * q.run.heads + 2 * q.kick.toNat + q.scheduled.toNat + q.sending.toNat

theorem TxQueue.work_alone (alone : q.ahead = []) : q.work = q.run.heads := by
  rw [TxQueue.work, alone]
  rfl

/-- Without the guest the rank falls at least by `slack`. -/
def Eases (slack : Nat) (q next : TxQueue) : Prop :=
  q.ahead = [] → next.ahead = [] ∧ next.rank + slack ≤ q.rank

theorem Eases.refl (q : TxQueue) : Eases 0 q q := fun alone => ⟨alone, Nat.le_refl _⟩

theorem Eases.trans {mid : TxQueue} {more : Nat} (first : Eases slack q mid)
    (second : Eases more mid next) : Eases (slack + more) q next := by
  intro alone
  obtain ⟨still, less⟩ := first alone
  obtain ⟨ahead, lessLater⟩ := second still
  exact ⟨ahead, by omega⟩

theorem Eases.flags {mid : TxQueue} {more : Nat} (eases : Eases more q mid)
    (ahead : next.ahead = mid.ahead) (run : next.run = mid.run)
    (less : 2 * next.kick.toNat + next.scheduled.toNat + next.sending.toNat + slack ≤ 2 *
      mid.kick.toNat + mid.scheduled.toNat + mid.sending.toNat + more) : Eases slack q next := by
  intro alone
  obtain ⟨still, lower⟩ := eases alone
  refine ⟨ahead.trans still, ?_⟩
  rw [TxQueue.rank] at lower ⊢
  rw [run]
  omega

/-- A flush that the burst did not stop leaves a packet with the peer, or an empty ring whose next
publication kicks. -/
theorem FlushEffect.live (effect : FlushEffect n tx num q ret next) (watching : Watching n q)
    (below : ret < tx.burst ∨ (q.work : Int) ≤ tx.burst) :
    next.sending = true ∨ next.run.heads = 0 ∧ Armed n next := by
  obtain ⟨-, sending, -⟩ | ⟨-, sending, -⟩ | ⟨-, -, count, rfl, work, stops, watches⟩ :=
    effect.ends
  · exact .inl sending
  · exact .inl sending
  · have fewer : next.run.heads ≤ next.work := Nat.le_add_right _ _
    have empty : next.run.heads = 0 := by omega
    exact .inr ⟨empty, (watches watching).armed empty⟩

theorem FlushEffect.eases (effect : FlushEffect n tx num q ret next)
    (few : slack = 0 ∨ slack ≤ 4 ∧ 0 < ret) : Eases slack q next := by
  intro alone
  obtain ⟨still, kick⟩ := effect.quiet alone
  have ends := effect.ends
  rw [TxQueue.work_alone alone, TxQueue.work_alone still] at ends
  refine ⟨still, ?_⟩
  rw [TxQueue.rank, TxQueue.rank, kick, effect.scheduled]
  obtain ⟨before, after, rfl, less⟩ | ⟨before, after, rfl, less⟩ |
    ⟨before, after, count, rfl, less, -⟩ := ends
  · rw [before, after]
    omega
  · rw [before, after, Bool.toNat_true, Bool.toNat_false]
    rw [ebusy] at few
    omega
  · rw [before, after]
    omega

theorem Touched.eases (touched : Touched q next) (work : next.work ≤ q.work) : Eases 0 q next := by
  intro alone
  obtain ⟨still, kick⟩ := touched.quiet alone
  rw [TxQueue.work_alone alone, TxQueue.work_alone still] at work
  refine ⟨still, ?_⟩
  rw [TxQueue.rank, TxQueue.rank, kick, touched.scheduled, touched.sending]
  omega

end Flush

/-! ### Every step -/

/-- Something will look at the ring, or the ring is empty and the next publication kicks. -/
structure Remembered (n : VirtIONet) (num : UInt32) (q : TxQueue) : Prop where
  bounded : RingBounded num q
  waits : q.waiting = q.scheduled
  async : q.sending = true ↔ q.asyncTx.outSg ≠ []
  live : q.sending = true ∨ q.scheduled = true ∨ q.kick = true ∨ (q.run.heads = 0 ∧ Armed n q)

section Steps

variable {n : VirtIONet} {env : TxEnv} {tx : TxConfig} {num : UInt32} {q next : TxQueue}

theorem wantsKick_armed (armed : Armed n q) {count : UInt16} (some : count ≠ 0) :
    q.wantsKick n (q.run.rings.availIdx + count) = true := by
  have moved : q.run.rings.availIdx + count - q.run.rings.availIdx = count := by grind
  unfold Armed at armed
  unfold TxQueue.wantsKick
  split
  next eventIdx =>
    rw [if_pos eventIdx] at armed
    rw [armed, vringNeedEvent, moved, decide_eq_true_eq, UInt16.lt_iff_toNat_lt, UInt16.toNat_sub]
    have positive : count.toNat ≠ 0 := fun zero => some (UInt16.toNat_inj.mp zero)
    have one : (1 : UInt16).toNat = 1 := rfl
    omega
  next flags =>
    rw [if_neg flags] at armed
    rw [armed, Bool.true_and, decide_eq_true_eq]
    intro same
    rw [same, UInt16.sub_self] at moved
    exact some moved.symm

theorem Remembered.publish (remembered : Remembered n num q) (small : num.toNat < 65536)
    (publication : Publication) : Remembered n num (q.publish n publication) := by
  obtain ⟨waiting, scheduled, asyncTx, sending, -, kick⟩ := publish_touched n publication q
  refine ⟨(remembered.bounded.publish small publication).1, ?_, ?_, ?_⟩
  · rw [waiting, scheduled]
    exact remembered.waits
  · rw [sending, asyncTx]
    exact remembered.async
  rw [sending, scheduled]
  obtain pending | pending | pending | ⟨empty, armed⟩ := remembered.live
  · exact .inl pending
  · exact .inr (.inl pending)
  · exact .inr (.inr (.inl (kick pending)))
  refine .inr (.inr ?_)
  unfold TxQueue.publish
  split
  next room =>
    by_cases none : publication.count = 0
    · refine .inr ?_
      rw [none] at room ⊢
      refine ⟨?_, ?_⟩
      · have heads := drive_heads small remembered.bounded room q.run.rings.availFlags
          publication.availRing publication.descs
        rw [empty] at heads
        exact heads
      · simp only [Armed, Run.drive, UInt16.add_zero]
        exact armed
    · refine .inl ?_
      dsimp only
      rw [wantsKick_armed armed none, Bool.or_true]
  · exact .inr ⟨empty, armed⟩

theorem Remembered.flush (bounded : RingBounded num q) (small : num.toNat < 65536)
    (watching : Watching n q) (waits : q.waiting = q.scheduled)
    (async : q.sending = true ↔ q.asyncTx.outSg ≠ [])
    (fits : q.scheduled = false → (q.work : Int) ≤ tx.burst)
    (flushed : virtioNetFlushTx n env tx running q = .ok (ret, next)) :
    Remembered n num next ∧ Eases 0 q next := by
  have effect := flush_effect bounded small async flushed
  refine ⟨⟨effect.bounded, ?_, effect.async, ?_⟩, effect.eases (.inl rfl)⟩
  · rw [effect.waiting, effect.scheduled]
    exact waits
  cases later : q.scheduled with
  | true => exact .inr (.inl (effect.scheduled.trans later))
  | false =>
    obtain sending | quiet := effect.live watching (.inr (fits later))
    · exact .inl sending
    · exact .inr (.inr (.inr quiet))

/-- Notification goes off, and the timer or the bottom half will look at the ring. -/
theorem Remembered.defer (bounded : RingBounded num q) (small : num.toNat < 65536)
    (async : q.sending = true ↔ q.asyncTx.outSg ≠ []) (waiting : q.waiting = true)
    (scheduled : q.scheduled = true) :
    Remembered n num (q.setNotification n false) ∧ Eases 0 q (q.setNotification n false) := by
  obtain ⟨touched, kept, work, -⟩ := bounded.setNotification (n := n) small false
  refine ⟨⟨kept, ?_, touched.async async, .inr (.inl (touched.scheduled.trans scheduled))⟩,
    touched.eases work⟩
  rw [touched.waiting, touched.scheduled, waiting, scheduled]

section

variable (remembered : Remembered n num q) (small : num.toNat < 65536)
include remembered small

theorem Remembered.timerKick (fits : q.waiting = true → (q.work : Int) ≤ tx.burst)
    (kicked : virtioNetHandleTxTimer n env tx running { q with kick := false } = .ok next) :
    Remembered n num next ∧ (q.kick = true → Eases 1 q next) := by
  have bounded : RingBounded num { q with kick := false } := remembered.bounded.of_run rfl
  unfold virtioNetHandleTxTimer at kicked
  by_cases waiting : q.waiting = true
  · rw [if_pos waiting] at kicked
    obtain ⟨touched, kept, work, watching⟩ := bounded.setNotification (n := n) small true
    obtain ⟨⟨ret, last⟩, flushed, built⟩ := bind_ok_iff.mp kicked
    cases built
    have turned := touched.eases work
    have async := touched.async remembered.async
    replace work : (_ : Int) ≤ tx.burst := le_trans (Int.ofNat_le.mpr work) (fits waiting)
    generalize TxQueue.setNotification n true { q with kick := false } = mid at *
    obtain ⟨after, lower⟩ := Remembered.flush
      (q := { mid with scheduled := false, waiting := false }) (kept.of_run rfl) small
      ⟨(watching rfl).on, (watching rfl).event⟩ rfl async (fun _ => work) flushed
    refine ⟨after, fun kick => ?_⟩
    have unkicked : Eases 1 q { q with kick := false } :=
      (Eases.refl q).flags rfl rfl (by simp [kick])
    have cleared : Eases 1 q { mid with scheduled := false, waiting := false } :=
      (unkicked.trans turned).flags rfl rfl (by simp)
    exact cleared.trans lower
  · rw [if_neg waiting] at kicked
    cases kicked
    have idle : q.scheduled = false := by
      rw [← remembered.waits]
      exact Bool.eq_false_of_not_eq_true waiting
    obtain ⟨after, lower⟩ := Remembered.defer (n := n)
      (q := { q with kick := false, scheduled := true, waiting := true })
      (bounded.of_run rfl) small remembered.async rfl rfl
    refine ⟨after, fun kick => ?_⟩
    have busy : Eases 1 q { q with kick := false, scheduled := true, waiting := true } :=
      (Eases.refl q).flags rfl rfl (by simp [kick, idle])
    exact busy.trans lower

theorem Remembered.bhKick
    (kicked : virtioNetHandleTxBh n running { q with kick := false } = .ok next) :
    Remembered n num next ∧ (q.kick = true → Eases 1 q next) := by
  unfold virtioNetHandleTxBh at kicked
  by_cases waiting : q.waiting = true
  · rw [if_pos waiting] at kicked
    cases kicked
    have scheduled : q.scheduled = true := remembered.waits.symm.trans waiting
    exact ⟨⟨remembered.bounded.of_run rfl, remembered.waits, remembered.async,
      .inr (.inl scheduled)⟩, fun kick => (Eases.refl q).flags rfl rfl (by simp [kick])⟩
  rw [if_neg waiting, if_neg (by decide)] at kicked
  cases kicked
  have bounded : RingBounded num { q with kick := false, waiting := true } :=
    remembered.bounded.of_run rfl
  obtain ⟨touched, kept, work, -⟩ := bounded.setNotification (n := n) small false
  refine ⟨⟨kept.of_run rfl, touched.waiting, touched.async remembered.async, .inr (.inl rfl)⟩,
    fun kick => ?_⟩
  have unkicked : Eases 2 q { q with kick := false, waiting := true } :=
    (Eases.refl q).flags rfl rfl (by simp [kick]; omega)
  refine (unkicked.trans (touched.eases work)).flags rfl rfl ?_
  simp only [Bool.toNat_true]
  omega

theorem Remembered.kicked (fits : tx.timer = true → q.waiting = true → (q.work : Int) ≤ tx.burst)
    (handled : handleTxKick n env tx running q = .ok next) :
    Remembered n num next ∧ (q.kick = true → Eases 1 q next) := by
  unfold handleTxKick at handled
  split at handled
  next timer => exact remembered.timerKick small (fits timer) handled
  · exact remembered.bhKick small handled

end

theorem unscheduled_eases (scheduled : q.scheduled = true) :
    Eases 1 q { q with scheduled := false, waiting := false } :=
  (Eases.refl q).flags rfl rfl (by simp [scheduled])

theorem Remembered.timer (remembered : Remembered n num q) (small : num.toNat < 65536)
    (fits : (q.work : Int) ≤ tx.burst) (scheduled : q.scheduled = true)
    (ran : virtioNetTxTimer n env tx running { q with scheduled := false } = .ok next) :
    Remembered n num next ∧ Eases 1 q next := by
  have bounded : RingBounded num { q with scheduled := false, waiting := false } :=
    remembered.bounded.of_run rfl
  obtain ⟨touched, kept, work, watching⟩ := bounded.setNotification (n := n) small true
  obtain ⟨⟨ret, last⟩, flushed, built⟩ := bind_ok_iff.mp ran
  cases built
  obtain ⟨after, lower⟩ := Remembered.flush kept small (watching rfl)
    (touched.waiting.trans touched.scheduled.symm) (touched.async remembered.async)
    (fun _ => le_trans (Int.ofNat_le.mpr work) fits) flushed
  exact ⟨after, ((unscheduled_eases scheduled).trans (touched.eases work)).trans lower⟩

theorem FlushEffect.busy (effect : FlushEffect n tx num q ret next) (busy : ret = -ebusy) :
    next.sending = true := by
  obtain ⟨-, sending, -⟩ | ⟨-, sending, -⟩ | ⟨-, -, count, rfl, -⟩ := effect.ends
  · exact sending
  · exact sending
  · rw [ebusy] at busy
    omega

section

variable (remembered : Remembered n num q) (small : num.toNat < 65536)
include remembered small

/-- The bottom half comes back by itself whenever the burst stopped it. -/
theorem Remembered.bh (positive : 1 ≤ tx.burst) (scheduled : q.scheduled = true)
    (ran : virtioNetTxBh n env tx running { q with scheduled := false } = .ok next) :
    Remembered n num next ∧ Eases 1 q next := by
  have lower := unscheduled_eases scheduled
  obtain ⟨ready, -⟩ | ⟨ret, mid, flushed, rest⟩ := virtioNetTxBh_ok ran
  · cases ready
  have bounded : RingBounded num { q with scheduled := false, waiting := false } :=
    remembered.bounded.of_run rfl
  have once := flush_effect bounded small remembered.async flushed
  have idle : mid.waiting = mid.scheduled := once.waiting.trans once.scheduled.symm
  obtain ⟨busy, rfl⟩ | ⟨-, burst, rfl⟩ | ⟨-, -, again, last, flushedAgain, ends⟩ := rest
  · exact ⟨⟨once.bounded, idle, once.async, .inl (once.busy busy)⟩,
      lower.trans (once.eases (.inl rfl))⟩
  · have enough := lower.trans (once.eases (.inr ⟨Nat.le_refl 4, by omega⟩))
    refine ⟨⟨once.bounded.of_run rfl, rfl, once.async, .inr (.inl rfl)⟩, enough.flags rfl rfl ?_⟩
    simp only [Bool.toNat_true]
    omega
  obtain ⟨touched, kept, work, watching⟩ := once.bounded.setNotification (n := n) small true
  have twice := flush_effect kept small (touched.async once.async) flushedAgain
  have turned := (lower.trans (once.eases (.inl rfl))).trans (touched.eases work)
  obtain ⟨more, rfl⟩ | ⟨none, rfl⟩ := ends
  · obtain ⟨off, keptOff, workOff, -⟩ := twice.bounded.setNotification (n := n) small false
    have enough := turned.trans (twice.eases (.inr ⟨Nat.le_refl 4, by omega⟩))
    refine ⟨⟨keptOff.of_run rfl, rfl, off.async twice.async, .inr (.inl rfl)⟩,
      (enough.trans (off.eases workOff)).flags rfl rfl ?_⟩
    simp only [Bool.toNat_true]
    omega
  · refine ⟨⟨twice.bounded, ?_, twice.async, ?_⟩, turned.trans (twice.eases (.inl rfl))⟩
    · rw [twice.waiting, twice.scheduled, touched.waiting, touched.scheduled]
      exact idle
    · obtain sending | quiet := twice.live (watching rfl) (.inl (by omega))
      · exact .inl sending
      · exact .inr (.inr (.inr quiet))

theorem Remembered.deferred
    (positive : 1 ≤ tx.burst) (fits : tx.timer = true → (q.work : Int) ≤ tx.burst)
    (scheduled : q.scheduled = true) (ran : runTxDeferred n env tx running q = .ok next) :
    Remembered n num next ∧ Eases 1 q next := by
  unfold runTxDeferred at ran
  split at ran
  next timer => exact remembered.timer small (fits timer) scheduled ran
  · exact remembered.bh small positive scheduled ran

theorem Remembered.completed
    (fits : q.scheduled = false → (q.work : Int) ≤ tx.burst) (pending : q.sending = true)
    (ran : virtioNetTxComplete n env tx running q = .ok next) :
    Remembered n num next ∧ Eases 1 q next := by
  obtain ⟨⟨ret, last⟩, flushed, built⟩ := bind_ok_iff.mp ran
  cases built
  have unsent : RingBounded num { q with sending := false } := remembered.bounded.of_run rfl
  obtain ⟨given, same, -⟩ := unsent.push (n := n) q.asyncTx
  have pushed := push_touched n q.asyncTx { q with sending := false }
  have unpended : Eases 1 q { q with sending := false } :=
    (Eases.refl q).flags rfl rfl (by simp [pending])
  have cleared := unpended.trans (pushed.eases same.le)
  generalize TxQueue.push n q.asyncTx { q with sending := false } = mid at *
  obtain ⟨touched, kept, work, watching⟩ :=
    RingBounded.setNotification (q := { mid with asyncTx := { mid.asyncTx with outSg := [] } })
      (n := n) (given.of_run rfl) small true
  have turned := touched.eases work
  generalize TxQueue.setNotification n true
    { mid with asyncTx := { mid.asyncTx with outSg := [] } } = on at *
  have waits : on.waiting = on.scheduled := by
    rw [touched.waiting, touched.scheduled]
    rw [pushed.waiting, pushed.scheduled]
    exact remembered.waits
  have async : on.sending = true ↔ on.asyncTx.outSg ≠ [] := by
    rw [touched.sending, touched.asyncTx]
    rw [pushed.sending]
    exact iff_of_false Bool.false_ne_true fun some => some rfl
  have fewer : on.work ≤ q.work := work.trans same.le
  have idle : on.scheduled = q.scheduled := touched.scheduled.trans pushed.scheduled
  obtain ⟨after, lower⟩ := Remembered.flush kept small (watching rfl) waits async
    (fun later => le_trans (Int.ofNat_le.mpr fewer) (fits (idle.symm.trans later))) flushed
  exact ⟨after, ((cleared.flags rfl rfl (Nat.le_refl _)).trans turned).trans lower⟩

end

theorem Remembered.start (initial : (txMachine n tx num).start q) : Remembered n num q := by
  obtain ⟨⟨size, availIdx, -, lastAvailIdx, -⟩, on, event, async, waiting, scheduled, sending,
    -⟩ := initial
  have empty : q.run.heads = 0 := by
    rw [Run.heads, availIdx, lastAvailIdx]
    rfl
  refine ⟨⟨size, by omega⟩, waiting.trans scheduled.symm, ?_, .inr (.inr (.inr ⟨empty, ?_⟩))⟩
  · exact iff_of_false (by rw [sending]; exact Bool.false_ne_true) (by simp [async])
  unfold Armed
  split
  · rw [event, availIdx]
  · exact on

/-- The device alone handles an event that is due. -/
structure Quiet (tx : TxConfig) (q : TxQueue) (action : TxStep) : Prop where
  fits : BurstFits tx q action
  alone : action.ahead = []
  due : match action.event with
    | .publish _ => False
    | .kick => q.kick = true
    | .deferred => q.scheduled = true
    | .complete => q.sending = true

/-- The rank does not look at what the guest will publish. -/
theorem Remembered.step (remembered : Remembered n num q) (small : num.toNat < 65536)
    (positive : 1 ≤ tx.burst) {action : TxStep} (fits : BurstFits tx q action)
    (taken : (txMachine n tx num).step q action = some next) :
    Remembered n num next ∧ (Quiet tx q action → next.rank < q.rank) := by
  have met : Remembered n num { q with ahead := action.ahead } :=
    { remembered with bounded := remembered.bounded.of_run rfl }
  obtain ⟨env, ahead, event⟩ := action
  dsimp only [txMachine] at taken
  cases event with
  | publish publication =>
    cases taken
    exact ⟨remembered.publish small publication, fun quiet => quiet.due.elim⟩
  | kick =>
    obtain ⟨kept, lower⟩ := met.kicked small fits (toOption_eq_some.mp taken)
    exact ⟨kept, fun quiet => (lower quiet.due quiet.alone).2⟩
  | deferred =>
    dsimp only at taken
    split at taken
    next scheduled =>
      obtain ⟨kept, lower⟩ :=
        met.deferred small positive fits scheduled (toOption_eq_some.mp taken)
      exact ⟨kept, fun quiet => (lower quiet.alone).2⟩
    · cases taken
  | complete =>
    dsimp only at taken
    split at taken
    next sending =>
      obtain ⟨kept, lower⟩ := met.completed small fits sending (toOption_eq_some.mp taken)
      exact ⟨kept, fun quiet => (lower quiet.alone).2⟩
    · cases taken

theorem Remembered.reached (small : num.toNat < 65536) (positive : 1 ≤ tx.burst)
    (reached : (txMachine n tx num).Reached (BurstFits tx) q) : Remembered n num q :=
  reached.invariant (fun _ initial => Remembered.start initial)
    fun _ _ _ remembered fits taken => (remembered.step small positive fits taken).1

theorem Remembered.pending (remembered : Remembered n num q) (entries : q.run.heads ≠ 0) :
    q.sending = true ∨ q.scheduled = true ∨ q.kick = true := by
  obtain sending | scheduled | kick | ⟨empty, -⟩ := remembered.live
  · exact .inl sending
  · exact .inr (.inl scheduled)
  · exact .inr (.inr kick)
  · exact absurd empty entries

/-- While the ring holds entries something is due. Without the guest the device handles only so
many events, and then the ring is empty. -/
theorem txWork_notForgotten (small : num.toNat < 65536) (positive : 1 ≤ tx.burst)
    (reached : (txMachine n tx num).Reached (BurstFits tx) q) :
    (q.run.heads ≠ 0 → q.sending = true ∨ q.scheduled = true ∨ q.kick = true) ∧
      ∀ (actions : List TxStep) (final : TxQueue),
        (txMachine n tx num).RunAllowed (Quiet tx) actions q →
        (txMachine n tx num).run actions q = some final →
        actions.length ≤ q.rank ∧ (final.sending = false → final.scheduled = false →
          final.kick = false → final.run.heads = 0) := by
  have remembered := Remembered.reached small positive reached
  refine ⟨remembered.pending, fun actions final quiet ran => ?_⟩
  have lowers : ∀ state action next, Remembered n num state → Quiet tx state action →
      (txMachine n tx num).step state action = some next →
      Remembered n num next ∧ next.rank < state.rank := by
    intro state action next holds permitted taken
    obtain ⟨kept, lower⟩ := holds.step small positive permitted.fits taken
    exact ⟨kept, lower permitted⟩
  obtain ⟨last, length⟩ := Machine.run_length_le lowers remembered quiet ran
  refine ⟨by omega, fun sending scheduled kick => ?_⟩
  by_contra entries
  rcases last.pending entries with due | due | due
  · rw [sending] at due
    cases due
  · rw [scheduled] at due
    cases due
  · rw [kick] at due
    cases due

end Steps

/-! ### Two runs -/

instance decidableBurstFits (tx : TxConfig) (q : TxQueue) (action : TxStep) :
    Decidable (BurstFits tx q action) := by
  rcases action with ⟨_, _, _ | _⟩ <;> dsimp only [BurstFits] <;> infer_instance

def flatTx (answer : Int) : TxEnv := ⟨fun addr len _ => some (addr, len), fun _ _ => answer⟩

def packets (count : UInt16) : Publication := ⟨count, fun _ => 0, fun _ _ => ⟨0x5000, 64, 0, 0⟩⟩

def twoPackets (answer : Int) : List TxStep :=
  [⟨flatTx answer, [], .publish (packets 2)⟩, ⟨flatTx answer, [], .kick⟩,
    ⟨flatTx answer, [], .deferred⟩]

theorem idleTx_start (tx : TxConfig) : (txMachine plainStart tx 256).start idleTx :=
  ⟨⟨rfl, rfl, rfl, rfl, rfl, rfl, rfl, rfl, rfl, rfl, rfl, rfl, rfl⟩, rfl, rfl, rfl, rfl, rfl, rfl,
    rfl⟩

theorem txWork_notForgotten_busy :
    ∃ q, (txMachine plainStart ⟨true, 256⟩ 256).Reached (BurstFits ⟨true, 256⟩) q ∧
      q.run.heads = 1 ∧ (q.sending = true ∨ q.scheduled = true ∨ q.kick = true) := by
  have ends : ((txMachine plainStart ⟨true, 256⟩ 256).run (twoPackets 0) idleTx).map
      (fun q => q.run.heads) = some 1 := by decide +kernel
  have start : (txMachine plainStart ⟨true, 256⟩ 256).Reached (BurstFits ⟨true, 256⟩) idleTx :=
    .start (idleTx_start ⟨true, 256⟩)
  obtain ⟨q, reached, heads⟩ := start.evaluate (by decide +kernel) ends
  refine ⟨q, reached, heads, ?_⟩
  exact (txWork_notForgotten (by decide) (by decide) reached).1 (by rw [heads]; decide)

/-- The timer flushes one burst, and nothing comes back for the rest. -/
theorem txTimer_forgets :
    ¬ ∀ (n : VirtIONet) (tx : TxConfig) (num : UInt32) (q : TxQueue), num.toNat < 65536 →
      1 ≤ tx.burst → (txMachine n tx num).Reached Machine.anyAction q → q.run.heads ≠ 0 →
      q.sending = true ∨ q.scheduled = true ∨ q.kick = true := by
  intro always
  have ends : ((txMachine plainStart ⟨true, 1⟩ 256).run (twoPackets 64) idleTx).map
      (fun q => (q.run.heads, q.sending, q.scheduled, q.kick)) =
      some (1, false, false, false) := by decide +kernel
  obtain ⟨q, reached, values⟩ := Machine.evaluate_any ends (idleTx_start ⟨true, 1⟩)
  simp only [Prod.mk.injEq] at values
  obtain ⟨heads, sending, scheduled, kick⟩ := values
  have due := always plainStart ⟨true, 1⟩ 256 q (by decide) (by decide) reached
    (by rw [heads]; decide)
  rw [sending, scheduled, kick] at due
  simp at due

end VhostUser.Qemu.Virtio
