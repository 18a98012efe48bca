import VhostUser.Qemu.NetBuffers

/-!
Contract: the transmit side of a virtio network device (`virtio_net_flush_tx`,
`virtio_net_tx_complete`, `virtio_net_handle_tx_timer`, `virtio_net_handle_tx_bh`,
`virtio_net_tx_timer`, `virtio_net_tx_bh`) on one queue.

The guest runs beside the handlers. It publishes entries between any two of their accesses to
the ring, and after each publication it looks at what the device asked for and remembers a kick
or not. When a timer or a bottom half runs, and when the peer completes a packet, is decided
outside.

Owns: the handlers, and which elements they give back.

Does not own: whether work is forgotten (`NetProgress`).
-/

namespace VhostUser.Qemu.Virtio

open VhostUser.Lib

/-! ### The queue -/

/-- The guest writes `count` entries behind those it published. -/
structure Publication where
  count : UInt16
  availRing : Nat → UInt16
  descs : UInt64 → Nat → VRingDesc

/-- `VirtIONetQueue`, its transmit part, with what is under way around it. -/
structure TxQueue where
  run : Run
  /-- `async_tx.elem`; it is there while it has buffers. -/
  asyncTx : VirtQueueElement
  /-- `tx_waiting`. -/
  waiting : Bool
  /-- The timer is pending, or the bottom half is scheduled. -/
  scheduled : Bool
  /-- The peer has a packet of this queue, and will call `virtio_net_tx_complete`. -/
  sending : Bool
  /-- A kick of the guest is to be delivered. -/
  kick : Bool
  /-- What the guest publishes while a handler runs, one publication at each access. -/
  ahead : List Publication

/-- `tx=timer` or `tx=bh`, and `x-txburst`. -/
structure TxConfig where
  timer : Bool
  burst : Int

structure DeviceStatus where
  vmRunning : Bool
  /-- `VIRTIO_CONFIG_S_DRIVER_OK`. -/
  driverOk : Bool
deriving DecidableEq, Repr

/-- The guest's memory, and the answer of `qemu_sendv_packet_async` to the packet of the element
with the given number. -/
structure TxEnv where
  map : GuestMap
  send : Nat → List (UInt64 × Nat) → Int

namespace TxQueue

variable (n : VirtIONet)

/-- Whether the guest kicks when its index becomes `new`: by the event, or by the flag that
follows `vq->notification`. -/
def wantsKick (new : UInt16) (q : TxQueue) : Bool :=
  if n.eventIdx then vringNeedEvent q.run.rings.availEvent new q.run.rings.availIdx
  else q.run.vq.notification && decide (new ≠ q.run.rings.availIdx)

/-- A publication, if the ring has room for it. -/
def publish (publication : Publication) (q : TxQueue) : TxQueue :=
  if q.run.heads + publication.count.toNat ≤ q.run.vq.vring.num.toNat then
    let new := q.run.rings.availIdx + publication.count
    { q with
      kick := q.kick || q.wantsKick n new
      run := q.run.drive q.run.rings.availFlags new publication.availRing publication.descs }
  else q

def interfere (q : TxQueue) : TxQueue :=
  match q.ahead with
  | [] => q
  | publication :: rest => { q with ahead := rest }.publish n publication

/-- `virtio_queue_set_notification`. The guest may publish between the load of its index and
the store of the event. -/
def setNotification (enable : Bool) (q : TxQueue) : TxQueue :=
  let seen := q.run.rings.availIdx
  let q := q.interfere n
  { q with run := q.run.setNotificationAt n.eventIdx enable seen }

def pop (map : GuestMap) (q : TxQueue) : Except NetExit (Option VirtQueueElement × TxQueue) := do
  let q := q.interfere n
  let (popped, run) ← q.run.popFor n map
  return (popped, { q with run })

def push (elem : VirtQueueElement) (q : TxQueue) : TxQueue :=
  { q with run := (q.run.push elem 0).notify n.notifyOnEmpty n.eventIdx }

end TxQueue

/-! ### Flushing -/

/-- The packet of an element: as it is, or with the header that the host wants. -/
def txPacket (n : VirtIONet) (elem : VirtQueueElement) : Except NetExit (List (UInt64 × Nat)) :=
  if n.guestHdrLen < n.hostHdrLen then .error .assertion
  else if n.hostHdrLen = n.guestHdrLen then
    .ok (elem.outSg.map fun sg => (sg.iovBase, sg.iovLen.toNat))
  else
    match iovCopy virtqueueMaxSize elem.outSg 0 n.hostHdrLen with
    | none => .error .assertion
    | some header =>
      match iovCopy (virtqueueMaxSize - header.length) elem.outSg n.guestHdrLen (2 ^ 64 - 1) with
      | none => .error .assertion
      | some rest => .ok (header ++ rest)

inductive TxOutcome where
  | flushed (numPackets : Nat)
  | busy (elem : VirtQueueElement)

def ebusy : Int := 16

section Handlers

variable (n : VirtIONet) (env : TxEnv) (tx : TxConfig) (status : DeviceStatus)

/-- The loop of `virtio_net_flush_tx`. It ends at the burst, so a fuel of one more round is
enough. -/
def flushLoop : Nat → Nat → TxQueue → Except NetExit (TxOutcome × TxQueue)
  | 0, _, _ => .error .outOfFuel
  | fuel + 1, numPackets, q => do
      let (popped, q) ← q.pop n env.map
      match popped with
      | none => .ok (.flushed numPackets, q)
      | some elem =>
        if elem.outSg.length < 1 then .error .noOutBuffers
        else do
          let packet ← txPacket n elem
          if env.send q.run.popped.length packet = 0 then
            .ok (.busy elem, q.setNotification n false)
          else
            let q := q.push n elem
            if tx.burst ≤ numPackets + 1 then .ok (.flushed (numPackets + 1), q)
            else flushLoop fuel (numPackets + 1) q

def virtioNetFlushTx (q : TxQueue) : Except NetExit (Int × TxQueue) :=
  if !status.driverOk then .ok (0, q)
  else if !status.vmRunning then .error .assertion
  else if q.asyncTx.outSg.length ≠ 0 then .ok (0, q.setNotification n false)
  else do
    let (outcome, q) ← flushLoop n env tx (tx.burst.toNat + 1) 0 q
    match outcome with
    | .flushed numPackets => .ok (numPackets, q)
    | .busy elem => .ok (-ebusy, { q with asyncTx := elem, sending := true })

def virtioNetTxComplete (q : TxQueue) : Except NetExit TxQueue := do
  let q := { q with sending := false }.push n q.asyncTx
  let q := { q with asyncTx := { q.asyncTx with outSg := [] } }.setNotification n true
  let (_, q) ← virtioNetFlushTx n env tx status q
  return q

def virtioNetHandleTxTimer (q : TxQueue) : Except NetExit TxQueue :=
  if !status.vmRunning then .ok { q with waiting := true }
  else if q.waiting then do
    let q := { q.setNotification n true with scheduled := false, waiting := false }
    let (_, q) ← virtioNetFlushTx n env tx status q
    return q
  else .ok ({ q with scheduled := true, waiting := true }.setNotification n false)

def virtioNetHandleTxBh (q : TxQueue) : Except NetExit TxQueue :=
  if q.waiting then .ok q
  else
    let q := { q with waiting := true }
    if !status.vmRunning then .ok q
    else .ok { q.setNotification n false with scheduled := true }

def virtioNetTxTimer (q : TxQueue) : Except NetExit TxQueue :=
  if !status.vmRunning then .error .assertion
  else
    let q := { q with waiting := false }
    if !status.driverOk then .ok q
    else do
      let (_, q) ← virtioNetFlushTx n env tx status (q.setNotification n true)
      return q

def virtioNetTxBh (q : TxQueue) : Except NetExit TxQueue :=
  if !status.vmRunning then .error .assertion
  else
    let q := { q with waiting := false }
    if !status.driverOk then .ok q
    else do
      let (ret, q) ← virtioNetFlushTx n env tx status q
      if ret = -ebusy then return q
      else if tx.burst ≤ ret then return { q with scheduled := true, waiting := true }
      else do
        let (ret, q) ← virtioNetFlushTx n env tx status (q.setNotification n true)
        if 0 < ret then
          return { q.setNotification n false with scheduled := true, waiting := true }
        else return q

def handleTxKick (q : TxQueue) : Except NetExit TxQueue :=
  if tx.timer then virtioNetHandleTxTimer n env tx status { q with kick := false }
  else virtioNetHandleTxBh n status { q with kick := false }

def runTxDeferred (q : TxQueue) : Except NetExit TxQueue :=
  if tx.timer then virtioNetTxTimer n env tx status { q with scheduled := false }
  else virtioNetTxBh n env tx status { q with scheduled := false }

end Handlers

/-! ### Which assertions fail -/

/-- A transmit element without the header of the guest, or whose header fills the array. -/
def TxShort (n : VirtIONet) (elem : VirtQueueElement) : Prop :=
  iovSize elem.outSg < n.guestHdrLen ∨ virtqueueMaxSize ≤ (pieces elem.outSg 0 n.hostHdrLen).length

/-- The host header is the longer one, or it is the shorter one and the element is short. -/
def TxBad (n : VirtIONet) (elem : VirtQueueElement) : Prop :=
  n.guestHdrLen < n.hostHdrLen ∨ n.hostHdrLen < n.guestHdrLen ∧ TxShort n elem

section Failure

variable (n : VirtIONet) (env : TxEnv) (tx : TxConfig) (status : DeviceStatus)

/-- The element comes off the queue in a flush: it is the next one, or the packet of the next one
is taken at once and the burst is not over. -/
inductive Flushes : Nat → TxQueue → VirtQueueElement → Prop
  | next {numPackets : Nat} {q mid : TxQueue} {elem : VirtQueueElement}
      (popped : q.pop n env.map = .ok (some elem, mid)) (buffers : elem.outSg ≠ []) :
      Flushes numPackets q elem
  | later {numPackets : Nat} {q mid : TxQueue} {first elem : VirtQueueElement}
      {packet : List (UInt64 × Nat)} (popped : q.pop n env.map = .ok (some first, mid))
      (buffers : first.outSg ≠ []) (built : txPacket n first = .ok packet)
      (sent : env.send mid.run.popped.length packet ≠ 0) (burst : ¬ tx.burst ≤ numPackets + 1)
      (rest : Flushes (numPackets + 1) (mid.push n first) elem) : Flushes numPackets q elem

/-- `virtio_net_flush_tx` fails an assertion: the driver is ready, and the machine is stopped, or
no packet waits and a bad element comes off the queue. -/
def TxCause (q : TxQueue) : Prop :=
  status.driverOk = true ∧ (status.vmRunning = false ∨
    q.asyncTx.outSg = [] ∧ ∃ elem, Flushes n env tx 0 q elem ∧ TxBad n elem)

/-- The handler of a kick fails: it takes the place of a timer that is pending, and flushes. -/
def KickCause (q : TxQueue) : Prop :=
  tx.timer = true ∧ status.vmRunning = true ∧ q.waiting = true ∧
    TxCause n env tx status { { q with kick := false }.setNotification n true with
      scheduled := false, waiting := false }

/-- The machine is stopped, or a flush fails. A bottom half flushes a second time after less than
a burst. -/
def DeferredCause (q : TxQueue) : Prop :=
  let woken := { q with scheduled := false, waiting := false }
  status.vmRunning = false ∨ status.driverOk = true ∧
    if tx.timer then TxCause n env tx status (woken.setNotification n true)
    else TxCause n env tx status woken ∨ ∃ ret mid,
      virtioNetFlushTx n env tx status woken = .ok (ret, mid) ∧ ret ≠ -ebusy ∧ ret < tx.burst ∧
        TxCause n env tx status (mid.setNotification n true)

/-- The completion of a packet fails, in the flush that follows it. -/
def CompleteCause (q : TxQueue) : Prop :=
  let done := { q with sending := false }.push n q.asyncTx
  TxCause n env tx status
    ({ done with asyncTx := { done.asyncTx with outSg := [] } }.setNotification n true)

theorem txPacket_fails (elem : VirtQueueElement) : FailsFor (TxBad n elem) (txPacket n elem) := by
  unfold txPacket
  split_ifs with inverted same
  · exact .assert (.inl inverted)
  · refine (FailsFor.ok _).never ?_
    rintro (inverted | ⟨shorter, -⟩) <;> omega
  rw [iovCopy_eq, if_neg (by omega)]
  dsimp only
  rw [iovCopy_eq, List.length_take]
  by_cases short : TxShort n elem
  · unfold TxShort at short
    rw [if_pos (by omega)]
    exact .assert (.inr ⟨by omega, short⟩)
  have long := not_or.mp short
  rw [if_neg (by omega)]
  refine (FailsFor.ok _).never ?_
  rintro (inverted | ⟨-, element⟩)
  · omega
  · exact short element

theorem txPop_fails (map : GuestMap) (q : TxQueue) : FailsFor False (q.pop n map) :=
  (popFor_fails n map _).before fun _ => .ok _

variable {n env tx status} {numPackets fuel : Nat} {q mid : TxQueue} {elem first : VirtQueueElement}

theorem Flushes.behind (flushes : Flushes n env tx numPackets q elem) :
    ∃ first mid, q.pop n env.map = .ok (some first, mid) ∧ first.outSg ≠ [] := by
  cases flushes with
  | next popped buffers => exact ⟨_, _, popped, buffers⟩
  | later popped buffers => exact ⟨_, _, popped, buffers⟩

theorem flushes_iff (popped : q.pop n env.map = .ok (some first, mid))
    (buffers : first.outSg ≠ []) :
    Flushes n env tx numPackets q elem ↔ elem = first ∨
      ∃ packet, txPacket n first = .ok packet ∧ env.send mid.run.popped.length packet ≠ 0 ∧
        ¬ tx.burst ≤ numPackets + 1 ∧
        Flushes n env tx (numPackets + 1) (mid.push n first) elem := by
  constructor
  · intro flushes
    cases flushes with
    | next same =>
      cases popped.symm.trans same
      exact .inl rfl
    | later same _ built sent burst rest =>
      cases popped.symm.trans same
      exact .inr ⟨_, built, sent, burst, rest⟩
  · rintro (rfl | ⟨packet, built, sent, burst, rest⟩)
    · exact .next popped buffers
    · exact .later popped buffers built sent burst rest

/-- A loop with fuel for the rest of its burst does not run out of it, and fails at a bad element
that comes off the queue. -/
theorem flushLoop_fails (positive : 0 < fuel) (enough : tx.burst ≤ numPackets + fuel) :
    FailsFor (∃ elem, Flushes n env tx numPackets q elem ∧ TxBad n elem)
      (flushLoop n env tx fuel numPackets q) := by
  induction fuel generalizing numPackets q with
  | zero => exact absurd positive (Nat.lt_irrefl 0)
  | succ fuel ih =>
    -- an element that comes off the queue is behind one that has buffers
    refine ((txPop_fails n env.map q).andThen (P := fun _ =>
      ∃ elem, Flushes n env tx numPackets q elem ∧ TxBad n elem) ?_).congr ?_
    swap
    · refine ⟨fun ⟨_, _, cause⟩ => cause, fun ⟨elem, flushes, bad⟩ => ?_⟩
      obtain ⟨first, mid, popped, -⟩ := flushes.behind
      exact ⟨_, popped, elem, flushes, bad⟩
    rintro ⟨_ | first, mid⟩ popped
    · refine (FailsFor.ok _).never ?_
      rintro ⟨elem, flushes, -⟩
      obtain ⟨first, after, some, -⟩ := flushes.behind
      cases popped.symm.trans some
    dsimp only
    by_cases empty : first.outSg.length < 1
    · rw [if_pos empty]
      refine FailsFor.never ⟨nofun, nofun, nofun⟩ ?_
      rintro ⟨elem, flushes, -⟩
      obtain ⟨other, after, same, buffers⟩ := flushes.behind
      cases popped.symm.trans same
      exact buffers (List.eq_nil_of_length_eq_zero (Nat.lt_one_iff.mp empty))
    have buffers : first.outSg ≠ [] := fun nil => empty (by rw [nil]; exact Nat.zero_lt_one)
    rw [if_neg empty]
    refine ((txPacket_fails n first).bind (P := fun packet =>
      env.send mid.run.popped.length packet ≠ 0 ∧ ¬ tx.burst ≤ numPackets + 1 ∧
        ∃ elem, Flushes n env tx (numPackets + 1) (mid.push n first) elem ∧ TxBad n elem)
      fun packet _ => ?_).congr ?_
    · split_ifs with busy burst
      · exact (FailsFor.ok _).never fun cause => cause.1 busy
      · exact (FailsFor.ok _).never fun cause => cause.2.1 burst
      · push_cast at enough
        refine (@ih (numPackets + 1) _ (by omega) (by push_cast; omega)).congr ?_
        rw [and_iff_right burst, and_iff_right busy]
    · simp only [flushes_iff popped buffers]
      constructor
      · rintro (bad | ⟨packet, built, sent, burst, elem, rest, bad⟩)
        · exact ⟨first, .inl rfl, bad⟩
        · exact ⟨elem, .inr ⟨packet, built, sent, burst, rest⟩, bad⟩
      · rintro ⟨elem, rfl | ⟨packet, built, sent, burst, rest⟩, bad⟩
        · exact .inl bad
        · exact .inr ⟨packet, built, sent, burst, elem, rest, bad⟩

theorem virtioNetFlushTx_fails (q : TxQueue) :
    FailsFor (TxCause n env tx status q) (virtioNetFlushTx n env tx status q) := by
  unfold virtioNetFlushTx
  split_ifs with unready stopped async
  · exact (FailsFor.ok _).never fun cause => by simp [cause.1] at unready
  · exact .assert ⟨by simpa using unready, .inl (by simpa using stopped)⟩
  · refine (FailsFor.ok _).never ?_
    rintro ⟨-, halted | ⟨empty, -⟩⟩
    · exact stopped (by rw [halted]; rfl)
    · exact async (by rw [empty]; rfl)
  refine FailsFor.congr (FailsFor.before (flushLoop_fails (Nat.succ_pos _) ?_) ?_) ?_
  · push_cast
    omega
  · rintro ⟨outcome, last⟩
    cases outcome <;> exact .ok _
  · rw [TxCause]
    simp at unready stopped async
    simp [unready, stopped, async]

theorem virtioNetTxBh_fails (q : TxQueue) (running : status.vmRunning = true)
    (ready : status.driverOk = true) :
    FailsFor (TxCause n env tx status { q with waiting := false } ∨ ∃ ret mid,
      virtioNetFlushTx n env tx status { q with waiting := false } = .ok (ret, mid) ∧
        ret ≠ -ebusy ∧ ret < tx.burst ∧ TxCause n env tx status (mid.setNotification n true))
      (virtioNetTxBh n env tx status q) := by
  unfold virtioNetTxBh
  rw [if_neg (by simp [running])]
  dsimp only
  rw [if_neg (by simp [ready])]
  refine FailsFor.congr ((virtioNetFlushTx_fails _).bind (P := fun values =>
    values.1 ≠ -ebusy ∧ values.1 < tx.burst ∧
      TxCause n env tx status (values.2.setNotification n true)) ?_) (or_congr_right Prod.exists)
  rintro ⟨ret, mid⟩ -
  split_ifs with busy burst
  · exact (FailsFor.ok _).never fun cause => cause.1 busy
  · exact (FailsFor.ok _).never fun cause => absurd burst (Int.not_le.mpr cause.2.1)
  refine ((virtioNetFlushTx_fails _).before ?_).congr ?_
  · rintro ⟨again, last⟩
    split_ifs <;> exact .ok _
  · rw [and_iff_right busy, and_iff_right (Int.not_le.mp burst)]

theorem handleTxKick_fails (q : TxQueue) :
    FailsFor (KickCause n env tx status q) (handleTxKick n env tx status q) := by
  unfold handleTxKick virtioNetHandleTxTimer virtioNetHandleTxBh KickCause
  dsimp only
  split_ifs with timer stopped waiting
  · exact (FailsFor.ok _).never fun cause => by simp [cause.2.1] at stopped
  · refine FailsFor.congr ((virtioNetFlushTx_fails _).before fun _ => .ok _) ?_
    simp at stopped
    simp [timer, stopped, waiting]
  · exact (FailsFor.ok _).never fun cause => waiting cause.2.2.1
  all_goals exact (FailsFor.ok _).never fun cause => timer cause.1

theorem runTxDeferred_fails (q : TxQueue) :
    FailsFor (DeferredCause n env tx status q) (runTxDeferred n env tx status q) := by
  cases running : status.vmRunning with
  | false =>
    unfold runTxDeferred virtioNetTxTimer virtioNetTxBh
    simp only [running, Bool.not_false, if_true]
    split <;> exact .assert (.inl running)
  | true =>
    cases ready : status.driverOk with
    | false =>
      unfold runTxDeferred virtioNetTxTimer virtioNetTxBh
      simp only [running, ready, Bool.not_false, Bool.not_true, Bool.false_eq_true, if_false,
        if_true]
      split <;> exact (FailsFor.ok _).never (by simp [DeferredCause, running, ready])
    | true =>
      have cause : DeferredCause n env tx status q ↔ _ :=
        (or_iff_right (by simp [running])).trans (and_iff_right ready)
      rw [cause]
      unfold runTxDeferred
      split_ifs with timer
      · unfold virtioNetTxTimer
        simp only [running, ready, Bool.not_true, Bool.false_eq_true, if_false]
        exact (virtioNetFlushTx_fails _).before fun _ => .ok _
      · exact virtioNetTxBh_fails { q with scheduled := false } running ready

theorem virtioNetTxComplete_fails (q : TxQueue) :
    FailsFor (CompleteCause n env tx status q) (virtioNetTxComplete n env tx status q) :=
  (virtioNetFlushTx_fails _).before fun _ => .ok _

end Failure

/-! ### What is given back -/

def TxQueue.held (q : TxQueue) : List VirtQueueElement :=
  if q.asyncTx.outSg = [] then [] else [q.asyncTx]

/-- Every popped element is in the used ring, or it waits, and then the peer has its packet. -/
structure TxSettled (num : UInt32) (q : TxQueue) : Prop where
  ledger : Settled num q.held q.run
  sending : q.sending = true ↔ q.asyncTx.outSg ≠ []

section Ledger

variable {n : VirtIONet} {env : TxEnv} {tx : TxConfig} {status : DeviceStatus} {num : UInt32}
  {held : List VirtQueueElement} {q next : TxQueue} {fuel numPackets : Nat} {map : GuestMap}
  {popped : Option VirtQueueElement} {outcome : TxOutcome} {ended : NetExit} {ret : Int}

theorem interfere_eq (n : VirtIONet) (q : TxQueue) :
    ∃ kick ahead availIdx availRing descs, q.interfere n =
      { q with
        kick, ahead
        run := q.run.drive q.run.rings.availFlags availIdx availRing descs } := by
  unfold TxQueue.interfere
  split
  · exact ⟨_, _, _, _, _, rfl⟩
  unfold TxQueue.publish
  split
  · exact ⟨_, _, _, _, _, rfl⟩
  · exact ⟨_, _, q.run.rings.availIdx, q.run.rings.availRing, q.run.rings.descs, rfl⟩

theorem setNotification_eq (n : VirtIONet) (enable : Bool) (q : TxQueue) :
    ∃ kick ahead availIdx availRing descs, q.setNotification n enable =
      { q with
        kick, ahead
        run := (q.run.drive q.run.rings.availFlags availIdx availRing descs).setNotificationAt
          n.eventIdx enable q.run.rings.availIdx } := by
  obtain ⟨kick, ahead, availIdx, availRing, descs, guest⟩ := interfere_eq n q
  exact ⟨kick, ahead, availIdx, availRing, descs, by rw [TxQueue.setNotification, guest]⟩

theorem Settled.setNotification (settled : Settled num held q.run) (enable : Bool) :
    Settled num held (q.setNotification n enable).run := by
  obtain ⟨kick, ahead, availIdx, availRing, descs, after⟩ := setNotification_eq n enable q
  rw [after]
  exact (settled.drive _ _ _ _).same (setNotificationAt_same _ _ _ _)

theorem pop_ok (taken : q.pop n map = .ok (popped, next)) :
    ∃ run, (q.interfere n).run.popElem n.eventIdx map = .ok (popped, run) ∧
      next = { q.interfere n with run } := by
  obtain ⟨⟨result, run⟩, returned, built⟩ := bind_ok_iff.mp taken
  cases built
  exact ⟨run, popFor_ok returned, rfl⟩

theorem Settled.txPop (settled : Settled num [] q.run) (taken : q.pop n map = .ok (popped, next)) :
    next.asyncTx = q.asyncTx ∧ next.sending = q.sending ∧ Settled num popped.toList next.run := by
  obtain ⟨run, returned, rfl⟩ := pop_ok taken
  obtain ⟨kick, ahead, availIdx, availRing, descs, guest⟩ := interfere_eq n q
  rw [guest] at returned ⊢
  refine ⟨rfl, rfl, ?_⟩
  have driven := settled.drive q.run.rings.availFlags availIdx availRing descs
  cases popped with
  | none =>
    obtain ⟨-, same⟩ | ⟨elem, -, popped, -⟩ := popElem_ok returned
    · rw [same]
      exact driven
    · cases popped
  | some elem => exact driven.popElem returned

theorem Settled.txPush {elem : VirtQueueElement} (settled : Settled num [elem] q.run)
    (divides : num.toNat ∣ 65536) : Settled num [] (q.push n elem).run :=
  (settled.push divides 0).same (notify_same _ _ _)

/-- A round of the loop: it found nothing, the peer was busy, the burst was over, or it goes on. -/
theorem flushLoop_round
    (flushed : flushLoop n env tx (fuel + 1) numPackets q = .ok (outcome, next)) :
    (q.pop n env.map = .ok (none, next) ∧ outcome = .flushed numPackets) ∨
      ∃ elem mid, q.pop n env.map = .ok (some elem, mid) ∧ elem.outSg ≠ [] ∧
        ((outcome = .busy elem ∧ next = mid.setNotification n false) ∨
          (tx.burst ≤ numPackets + 1 ∧ outcome = .flushed (numPackets + 1) ∧
            next = mid.push n elem) ∨
          (¬ tx.burst ≤ numPackets + 1 ∧
            flushLoop n env tx fuel (numPackets + 1) (mid.push n elem) = .ok (outcome, next))) := by
  obtain ⟨⟨popped, mid⟩, taken, rest⟩ := bind_ok_iff.mp flushed
  cases popped with
  | none =>
    cases rest
    exact .inl ⟨taken, rfl⟩
  | some elem =>
    refine .inr ⟨elem, mid, taken, ?_⟩
    dsimp only at rest
    split at rest
    · cases rest
    next buffers =>
      obtain ⟨packet, -, rest⟩ := bind_ok_iff.mp rest
      refine ⟨fun empty => buffers (by rw [empty]; exact Nat.zero_lt_one), ?_⟩
      split at rest
      · cases rest
        exact .inl ⟨rfl, rfl⟩
      split at rest
      next burst =>
        cases rest
        exact .inr (.inl ⟨burst, rfl, rfl⟩)
      next burst => exact .inr (.inr ⟨burst, rest⟩)

def TxOutcome.Settles (num : UInt32) (run : Run) : TxOutcome → Prop
  | .flushed _ => Settled num [] run
  | .busy elem => Settled num [elem] run ∧ elem.outSg ≠ []

theorem Settled.flushLoop (settled : Settled num [] q.run) (divides : num.toNat ∣ 65536)
    (flushed : flushLoop n env tx fuel numPackets q = .ok (outcome, next)) :
    next.asyncTx = q.asyncTx ∧ next.sending = q.sending ∧ outcome.Settles num next.run := by
  -- one round pops an element and pushes it, so the account is even before the next one
  induction fuel generalizing numPackets q with
  | zero => cases flushed
  | succ fuel ih =>
    obtain ⟨taken, rfl⟩ | ⟨elem, mid, taken, buffers, round⟩ := flushLoop_round flushed
    · exact settled.txPop taken
    obtain ⟨async, sending, account⟩ := settled.txPop taken
    obtain ⟨rfl, rfl⟩ | ⟨-, rfl, rfl⟩ | ⟨-, rest⟩ := round
    · obtain ⟨kick, ahead, availIdx, availRing, descs, after⟩ := setNotification_eq n false mid
      refine ⟨?_, ?_, account.setNotification false, buffers⟩
      · rw [after]
        exact async
      · rw [after]
        exact sending
    · exact ⟨async, sending, account.txPush divides⟩
    · obtain ⟨asyncLater, sendingLater, settles⟩ :=
        ih (account.txPush divides) rest
      exact ⟨asyncLater.trans async, sendingLater.trans sending, settles⟩

theorem TxQueue.held_none (empty : q.asyncTx.outSg = []) : q.held = [] := if_pos empty

theorem TxQueue.held_some (there : q.asyncTx.outSg ≠ []) : q.held = [q.asyncTx] := if_neg there

theorem virtioNetFlushTx_ok (flushed : virtioNetFlushTx n env tx status q = .ok (ret, next)) :
    (status.driverOk = false ∧ ret = 0 ∧ next = q) ∨
      (q.asyncTx.outSg ≠ [] ∧ ret = 0 ∧ next = q.setNotification n false) ∨
      q.asyncTx.outSg = [] ∧ ∃ outcome mid,
        flushLoop n env tx (tx.burst.toNat + 1) 0 q = .ok (outcome, mid) ∧
        ((∃ numPackets : Nat, outcome = .flushed numPackets ∧ ret = numPackets ∧ next = mid) ∨
          ∃ elem, outcome = .busy elem ∧ ret = -ebusy ∧
            next = { mid with asyncTx := elem, sending := true }) := by
  unfold virtioNetFlushTx at flushed
  split at flushed
  next unready =>
    cases flushed
    exact .inl ⟨by simpa using unready, rfl, rfl⟩
  split at flushed
  · cases flushed
  split at flushed
  next async =>
    cases flushed
    exact .inr (.inl ⟨fun empty => async (by rw [empty]; rfl), rfl, rfl⟩)
  next empty =>
    obtain ⟨⟨outcome, mid⟩, looped, rest⟩ := bind_ok_iff.mp flushed
    refine .inr (.inr ⟨by simpa using empty, outcome, mid, looped, ?_⟩)
    cases outcome with
    | flushed numPackets =>
      cases rest
      exact .inl ⟨numPackets, rfl, rfl, rfl⟩
    | busy elem =>
      cases rest
      exact .inr ⟨elem, rfl, rfl, rfl⟩

section

variable (settled : TxSettled num q)
include settled

theorem TxSettled.setNotification (enable : Bool) : TxSettled num (q.setNotification n enable) := by
  obtain ⟨kick, ahead, availIdx, availRing, descs, after⟩ := setNotification_eq n enable q
  have account := settled.ledger.setNotification (n := n) enable
  rw [after] at account ⊢
  exact ⟨account, settled.sending⟩

theorem TxSettled.flush (divides : num.toNat ∣ 65536)
    (flushed : virtioNetFlushTx n env tx status q = .ok (ret, next)) : TxSettled num next := by
  obtain ⟨-, -, rfl⟩ | ⟨-, -, rfl⟩ | ⟨empty, outcome, mid, looped, ends⟩ :=
    virtioNetFlushTx_ok flushed
  · exact settled
  · exact settled.setNotification false
  have account := settled.ledger
  rw [TxQueue.held_none empty] at account
  obtain ⟨async, sending, settles⟩ := account.flushLoop divides looped
  obtain ⟨numPackets, rfl, -, rfl⟩ | ⟨elem, rfl, -, rfl⟩ := ends
  · have stillEmpty : next.asyncTx.outSg = [] := by rw [async, empty]
    refine ⟨?_, ?_⟩
    · rw [TxQueue.held_none stillEmpty]
      exact settles
    · rw [sending, settled.sending, async]
  · obtain ⟨account, buffers⟩ := settles
    refine ⟨?_, iff_of_true rfl buffers⟩
    rw [TxQueue.held_some buffers]
    exact account

theorem TxSettled.complete (divides : num.toNat ∣ 65536) (pending : q.sending = true)
    (completed : virtioNetTxComplete n env tx status q = .ok next) : TxSettled num next := by
  have account := settled.ledger
  rw [TxQueue.held_some (settled.sending.mp pending)] at account
  obtain ⟨⟨ret, last⟩, flushed, built⟩ := bind_ok_iff.mp completed
  cases built
  refine TxSettled.flush (TxSettled.setNotification ⟨?_, ?_⟩ true) divides flushed
  · exact account.txPush divides
  · exact iff_of_false Bool.false_ne_true fun some => some rfl

theorem TxSettled.flags (waiting scheduled kick : Bool) :
    TxSettled num { q with waiting, scheduled, kick } :=
  ⟨settled.ledger, settled.sending⟩

theorem TxSettled.kick (divides : num.toNat ∣ 65536)
    (kicked : handleTxKick n env tx status q = .ok next) : TxSettled num next := by
  have taken := settled.flags q.waiting q.scheduled false
  unfold handleTxKick virtioNetHandleTxTimer virtioNetHandleTxBh at kicked
  split_ifs at kicked
  · cases kicked
    exact taken.flags _ _ _
  · obtain ⟨⟨ret, last⟩, flushed, built⟩ := bind_ok_iff.mp kicked
    cases built
    refine TxSettled.flush ?_ divides flushed
    exact (taken.setNotification true).flags _ _ _
  · cases kicked
    refine TxSettled.setNotification ?_ false
    exact settled.flags _ _ _
  · cases kicked
    exact taken
  · cases kicked
    exact settled.flags _ _ _
  · cases kicked
    refine TxSettled.flags (TxSettled.setNotification ?_ false) _ _ _
    exact settled.flags _ _ _

theorem TxSettled.timer (divides : num.toNat ∣ 65536)
    (ran : virtioNetTxTimer n env tx status q = .ok next) : TxSettled num next := by
  unfold virtioNetTxTimer at ran
  split_ifs at ran
  · cases ran
    exact settled.flags _ _ _
  obtain ⟨⟨ret, last⟩, flushed, built⟩ := bind_ok_iff.mp ran
  cases built
  refine TxSettled.flush (TxSettled.setNotification ?_ true) divides flushed
  exact settled.flags _ _ _

end

theorem virtioNetTxBh_ok (ran : virtioNetTxBh n env tx status q = .ok next) :
    (status.driverOk = false ∧ next = { q with waiting := false }) ∨
      ∃ ret mid, virtioNetFlushTx n env tx status { q with waiting := false } = .ok (ret, mid) ∧
        ((ret = -ebusy ∧ next = mid) ∨
          (ret ≠ -ebusy ∧ tx.burst ≤ ret ∧ next = { mid with scheduled := true, waiting := true }) ∨
          (ret ≠ -ebusy ∧ ¬ tx.burst ≤ ret ∧ ∃ again last,
            virtioNetFlushTx n env tx status (mid.setNotification n true) = .ok (again, last) ∧
              ((0 < again ∧
                next = { last.setNotification n false with scheduled := true, waiting := true }) ∨
              (¬ 0 < again ∧ next = last)))) := by
  unfold virtioNetTxBh at ran
  split at ran
  · cases ran
  split at ran
  next unready =>
    cases ran
    exact .inl ⟨by simpa using unready, rfl⟩
  obtain ⟨⟨ret, mid⟩, flushed, rest⟩ := bind_ok_iff.mp ran
  refine .inr ⟨ret, mid, flushed, ?_⟩
  dsimp only at rest
  split_ifs at rest with busy burst
  · cases rest
    exact .inl ⟨busy, rfl⟩
  · cases rest
    exact .inr (.inl ⟨busy, burst, rfl⟩)
  obtain ⟨⟨again, last⟩, flushedAgain, rest⟩ := bind_ok_iff.mp rest
  refine .inr (.inr ⟨busy, burst, again, last, flushedAgain, ?_⟩)
  split_ifs at rest with more
  · cases rest
    exact .inl ⟨more, rfl⟩
  · cases rest
    exact .inr ⟨more, rfl⟩

theorem TxSettled.bh (settled : TxSettled num q) (divides : num.toNat ∣ 65536)
    (ran : virtioNetTxBh n env tx status q = .ok next) : TxSettled num next := by
  have cleared := settled.flags false q.scheduled q.kick
  obtain ⟨-, rfl⟩ | ⟨ret, mid, flushed, rest⟩ := virtioNetTxBh_ok ran
  · exact cleared
  have once : TxSettled num mid := cleared.flush divides flushed
  obtain ⟨-, rfl⟩ | ⟨-, -, rfl⟩ | ⟨-, -, again, last, flushedAgain, ends⟩ := rest
  · exact once
  · exact once.flags _ _ _
  have twice : TxSettled num last := (once.setNotification true).flush divides flushedAgain
  obtain ⟨-, rfl⟩ | ⟨-, rfl⟩ := ends
  · exact (twice.setNotification false).flags _ _ _
  · exact twice

theorem TxSettled.deferred (settled : TxSettled num q) (divides : num.toNat ∣ 65536)
    (ran : runTxDeferred n env tx status q = .ok next) : TxSettled num next := by
  have cleared := settled.flags q.waiting false q.kick
  unfold runTxDeferred at ran
  split_ifs at ran
  · exact cleared.timer divides ran
  · exact cleared.bh divides ran

end Ledger

end VhostUser.Qemu.Virtio
