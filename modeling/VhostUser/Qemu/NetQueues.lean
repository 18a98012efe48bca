import VhostUser.Qemu.NetMigrate
import VhostUser.Qemu.NetTx

/-!
Contract: the queues of a virtio network device over every sequence of packets received, kicks,
timers and bottom halves, completions and control commands.

The guest writes what it likes to its part of the rings between two handlers, and publishes
transmit entries beside them.

Owns: the receive and control handlers (`virtio_net_receive`, `virtio_net_handle_ctrl`), and
which elements of the three kinds of queues come back.
-/

namespace VhostUser.Qemu.Virtio

open VhostUser.Lib

/-! ### Receiving -/

def lacksBuffers (n : VirtIONet) (bufsize : UInt32) (run : Run) : Except NetExit Bool :=
  if virtioQueueEmpty ringsAccess run.vq run.rings then .ok true
  else if n.mergeableRxBufs = 0 then .ok false
  else
    match virtqueueAvailBytes ringsAccess run.vq bufsize 0 run.rings with
    | .error exit => .error (.queue exit)
    | .ok enough => .ok !enough

def virtioNetHasBuffers (n : VirtIONet) (bufsize : UInt32) (run : Run) :
    Except NetExit (Bool × Run) := do
  let lacks ← lacksBuffers n bufsize run
  if !lacks then return (true, run.setNotification n.eventIdx false)
  else
    let run := run.setNotification n.eventIdx true
    let lacks ← lacksBuffers n bufsize run
    if lacks then return (false, run)
    else return (true, run.setNotification n.eventIdx false)

/-- Copying to an element at `guestOffset`: the offset in the packet after it, and the length
that the used ring will say. -/
def copyAt (size : UInt64) (offset guestOffset : Nat) (inSg : List Segment) :
    Except NetExit (Nat × Nat) :=
  match iovFromBuf (size - UInt64.ofNat offset).toNat inSg guestOffset 0 with
  | none => .error .assertion
  | some len => .ok (offset + len, guestOffset + len)

/-- The first part of a packet starts behind the headers, and with mergeable buffers the place of
`num_buffers` is looked up in it. -/
def copyIn (n : VirtIONet) (size : UInt64) (first : Bool) (offset : Nat) (inSg : List Segment) :
    Except NetExit (Nat × Nat) :=
  if !first then copyAt size offset 0 inSg
  else if n.mergeableRxBufs ≠ 0 ∧ (iovCopy virtqueueMaxSize inSg 10 2).isNone then
    .error .assertion
  else copyAt size n.hostHdrLen n.guestHdrLen inSg

inductive RxOutcome where
  | busy
  | dropped
  | filled
deriving DecidableEq, Repr

/-- The loop of `virtio_net_receive`. Its `i` is the length of the batch. -/
def receiveLoop (n : VirtIONet) (map : GuestMap) (size : UInt64) :
    Nat → Nat → Run → Except NetExit (RxOutcome × Run)
  | 0, _, _ => .error .outOfFuel
  | fuel + 1, offset, run =>
    if size.toNat ≤ offset then .ok (.filled, run)
    else do
      let (popped, run) ← run.popFor n map
      match popped with
      | none =>
        if run.batch.length = 0 then .ok (.busy, run)
        else .error (.emptyQueue run.batch.length n.mergeableRxBufs offset size.toNat
          n.guestHdrLen n.hostHdrLen n.guestFeatures)
      | some elem =>
        if elem.inSg.length < 1 then .error .noInBuffers
        else do
          let (offset, total) ← copyIn n size (run.batch.length = 0) offset elem.inSg
          if n.mergeableRxBufs = 0 ∧ offset < size.toNat then .ok (.dropped, run)
          else receiveLoop n map size fuel offset (run.fill elem (UInt32.ofNat total))

/-! ### The device -/

structure NetState where
  net : VirtIONet
  status : DeviceStatus
  rx : Nat → Run
  /-- With the `tx_waiting` of each queue. -/
  tx : Nat → TxQueue
  ctrl : Run

/-- What a handler meets: `mem` has the commands of the control elements, by number, and `ahead`
is what the guest publishes on the transmit queue. -/
structure NetEnv extends TxEnv where
  mem : Nat → UInt64 → UInt8
  ahead : List Publication

def virtioNetCanReceive (s : NetState) (i : Nat) : Bool :=
  s.status.vmRunning && decide (i < s.net.currQueues.toNat) && virtioQueueReady (s.rx i).vq &&
    s.status.driverOk

def NetState.setRx (s : NetState) (i : Nat) (run : Run) : NetState :=
  { s with rx := Function.update s.rx i run }

def NetState.setTx (s : NetState) (i : Nat) (q : TxQueue) : NetState :=
  { s with tx := Function.update s.tx i q }

def virtioNetReceive (map : GuestMap) (i : Nat) (buf : ByteImage) (size : UInt64) (s : NetState) :
    Except NetExit (Int × NetState) :=
  if !virtioNetCanReceive s i then .ok (-1, s)
  else do
    let bufsize := size.toUInt32 + UInt32.ofNat s.net.guestHdrLen - UInt32.ofNat s.net.hostHdrLen
    let (has, run) ← virtioNetHasBuffers s.net bufsize (s.rx i)
    if !has then return (0, s.setRx i run)
    else if !receiveFilter s.net buf then return (size.toNat, s.setRx i run)
    else do
      let (outcome, run) ← receiveLoop s.net map size (run.vq.vring.num.toNat + 1) 0 run
      match outcome with
      | .busy => return (-1, s.setRx i run)
      | .dropped => return (size.toNat, s.setRx i run)
      | .filled =>
        return (size.toNat, s.setRx i (run.flush.notify s.net.notifyOnEmpty s.net.eventIdx))

def virtioNetStarted (s : NetState) : Bool :=
  s.status.driverOk && decide (s.net.status &&& 1 ≠ 0) && s.status.vmRunning

/-- `virtio_net_set_status` without a vhost backend: timers and bottom halves of queues that
wait are started or stopped. -/
def virtioNetSetStatus (config : NetConfig) (s : NetState) : NetState :=
  { s with
    tx := fun i =>
      if i < config.maxQueues.toNat ∧ (s.tx i).waiting then
        { s.tx i with
          scheduled := virtioNetStarted s && decide (i < s.net.currQueues.toNat) &&
            (s.net.multiqueue || decide (i = 0)) }
      else s.tx i }

def setsQueues (out : List UInt8) (status : CtrlAck) : Bool :=
  decide (out.head? = some 4) && decide (status = .ok)

def ctrlLoop (config : NetConfig) (map : GuestMap) (mem : Nat → UInt64 → UInt8) :
    Nat → CtrlAck → NetState → Except NetExit NetState
  | 0, _, _ => .error .outOfFuel
  | fuel + 1, status, s => do
      let (popped, run) ← s.ctrl.popFor s.net map
      match popped with
      | none => .ok { s with ctrl := run }
      | some elem =>
        let out := iovBytes (mem run.popped.length) elem.outSg
        match virtioNetHandleCtrl config status out (iovSize elem.inSg) s.net with
        | none => .error .ctrl
        | some (status, net) =>
          let s := { s with
            net
            ctrl := (run.push elem 1).notify s.net.notifyOnEmpty s.net.eventIdx }
          ctrlLoop config map mem fuel status
            (if setsQueues out status then virtioNetSetStatus config s else s)

/-! ### The machine -/

structure GuestWrite where
  availFlags : UInt16
  availIdx : UInt16
  availRing : Nat → UInt16
  descs : UInt64 → Nat → VRingDesc

def GuestWrite.apply (write : GuestWrite) (run : Run) : Run :=
  run.drive write.availFlags write.availIdx write.availRing write.descs

inductive NetEvent where
  | writeRx (i : Nat) (write : GuestWrite)
  | writeTx (i : Nat) (write : GuestWrite)
  | writeCtrl (write : GuestWrite)
  | receive (i : Nat) (buf : ByteImage) (size : UInt64)
  | kick (i : Nat)
  /-- The timer or the bottom half of a queue, if it is scheduled. -/
  | deferred (i : Nat)
  /-- The peer completes a packet, if it has one. -/
  | complete (i : Nat)
  | ctrl
  | status (status : DeviceStatus)

section Machine

variable (config : NetConfig) (tx : TxConfig)

def onTx (handler : TxQueue → Except NetExit TxQueue) (env : NetEnv) (i : Nat) (s : NetState) :
    Except NetExit NetState := do
  let q ← handler { s.tx i with ahead := env.ahead }
  return s.setTx i q

def netHandle (env : NetEnv) (s : NetState) : NetEvent → Except NetExit NetState
  | .writeRx i write => .ok (s.setRx i (write.apply (s.rx i)))
  | .writeTx i write => .ok (s.setTx i { s.tx i with run := write.apply (s.tx i).run })
  | .writeCtrl write => .ok { s with ctrl := write.apply s.ctrl }
  | .receive i buf size => do
      let (_, s) ← virtioNetReceive env.map i buf size s
      return s
  | .kick i => onTx (handleTxKick s.net env.toTxEnv tx s.status) env i s
  | .deferred i =>
    if (s.tx i).scheduled then onTx (runTxDeferred s.net env.toTxEnv tx s.status) env i s
    else .ok s
  | .complete i =>
    if (s.tx i).sending then onTx (virtioNetTxComplete s.net env.toTxEnv tx s.status) env i s
    else .ok s
  | .ctrl => ctrlLoop config env.map env.mem (s.ctrl.vq.vring.num.toNat + 1) .err s
  | .status status => .ok { s with status }

/-- The sizes that the queues were added with. They are powers of two. -/
structure NetSizes where
  rx : UInt32
  tx : UInt32
  ctrl : UInt32
  rx_divides : rx.toNat ∣ 65536
  tx_divides : tx.toNat ∣ 65536
  ctrl_divides : ctrl.toNat ∣ 65536

def TxQueue.Fresh (num : UInt32) (q : TxQueue) : Prop :=
  q.run.Fresh num ∧ q.asyncTx.outSg = [] ∧ q.waiting = false ∧ q.scheduled = false ∧
    q.sending = false ∧ q.kick = false

def netMachine (sizes : NetSizes) : Machine NetState (NetEnv × NetEvent) where
  start s :=
    (∃ features, s.net = virtioNetSetFeatures config features (virtioNetDeviceRealize config)) ∧
      (∀ i, (s.rx i).Fresh sizes.rx) ∧ (∀ i, (s.tx i).Fresh sizes.tx) ∧ s.ctrl.Fresh sizes.ctrl
  step s event := (netHandle config tx event.1 s event.2).toOption

end Machine

/-! ### What a packet does to the receive queue -/

section Receive

variable {n : VirtIONet} {map : GuestMap} {size : UInt64} {num : UInt32} {run next : Run}
  {offset fuel : Nat} {outcome : RxOutcome}

theorem hasBuffers_same {bufsize : UInt32} {has : Bool}
    (looked : virtioNetHasBuffers n bufsize run = .ok (has, next)) : SameLedger run next := by
  obtain ⟨lacks, -, rest⟩ := bind_ok_iff.mp looked
  cases lacks with
  | false =>
    cases rest
    exact setNotification_same _ _ _
  | true =>
    obtain ⟨lacksAgain, -, rest⟩ := bind_ok_iff.mp rest
    have asked := setNotification_same n.eventIdx true run
    cases lacksAgain with
    | true =>
      cases rest
      exact asked
    | false =>
      cases rest
      exact asked.trans (setNotification_same _ _ _)

theorem SameLedger.front (same : SameLedger run next) : next.front map = run.front map := by
  obtain ⟨availEvent, rings⟩ := same.rings
  have head : virtqueueGetHead ringsAccess next.vq next.vq.lastAvailIdx.toNat next.rings =
      virtqueueGetHead ringsAccess run.vq run.vq.lastAvailIdx.toNat run.rings := by
    rw [virtqueueGetHead, virtqueueGetHead, same.vring, same.lastAvailIdx, rings]
    rfl
  have chain (first : Nat) : popChain map next.vq first next.rings.descs =
      popChain map run.vq first run.rings.descs := by
    rw [popChain, popChain, chainStart, chainStart, same.vring, rings]
  rw [Run.front, Run.front, head]
  split
  · rw [chain]
  · rfl

/-- A round of the loop: the packet is through, there was no element, the rest of the packet did
not fit, or it goes on. -/
theorem receiveLoop_round
    (ended : receiveLoop n map size (fuel + 1) offset run = .ok (outcome, next)) :
    (size.toNat ≤ offset ∧ outcome = .filled ∧ next = run) ∨
      (run.batch = [] ∧ outcome = .busy ∧ next = run) ∨
      offset < size.toNat ∧ ∃ elem mid after total,
        run.popElem n.eventIdx map = .ok (some elem, mid) ∧
        copyIn n size (mid.batch.length = 0) offset elem.inSg = .ok (after, total) ∧
        ((n.mergeableRxBufs = 0 ∧ after < size.toNat ∧ outcome = .dropped ∧ next = mid) ∨
          (¬ (n.mergeableRxBufs = 0 ∧ after < size.toNat) ∧
            receiveLoop n map size fuel after (mid.fill elem (UInt32.ofNat total)) =
              .ok (outcome, next))) := by
  rw [receiveLoop] at ended
  split_ifs at ended with through
  · cases ended
    exact .inl ⟨through, rfl, rfl⟩
  obtain ⟨⟨popped, mid⟩, taken, rest⟩ := bind_ok_iff.mp ended
  have returned := popFor_ok taken
  cases popped with
  | none =>
    obtain ⟨-, rfl⟩ | ⟨elem, -, popped, -⟩ := popElem_ok returned
    · dsimp only at rest
      split_ifs at rest with first
      cases rest
      exact .inr (.inl ⟨List.eq_nil_of_length_eq_zero first, rfl, rfl⟩)
    · cases popped
  | some elem =>
    dsimp only at rest
    split at rest
    · cases rest
    obtain ⟨⟨after, total⟩, copied, rest⟩ := bind_ok_iff.mp rest
    refine .inr (.inr ⟨Nat.lt_of_not_le through, elem, mid, after, total, returned, copied, ?_⟩)
    split_ifs at rest with dropped
    · cases rest
      exact .inl ⟨dropped.1, dropped.2, rfl, rfl⟩
    · exact .inr ⟨dropped, rest⟩

theorem copyIn_fits {after total : Nat} {inSg : List Segment}
    (copied : copyIn n size true offset inSg = .ok (after, total))
    (fits : size.toNat + n.guestHdrLen ≤ iovSize inSg + n.hostHdrLen) : size.toNat ≤ after := by
  unfold copyIn at copied
  rw [if_neg (by decide)] at copied
  split_ifs at copied
  unfold copyAt at copied
  rw [iovFromBuf_eq] at copied
  split_ifs at copied with short
  cases copied
  rcases Nat.lt_or_ge size.toNat n.hostHdrLen with runt | whole
  · omega
  have header : (UInt64.ofNat n.hostHdrLen).toNat = n.hostHdrLen := by
    have bounded := size.toNat_lt
    rw [UInt64.toNat_ofNat']
    omega
  have rest : (size - UInt64.ofNat n.hostHdrLen).toNat = size.toNat - n.hostHdrLen := by
    rw [UInt64.toNat_sub_of_le _ _ (UInt64.le_iff_toNat_le.mpr (by omega)), header]
  omega

/-- The loop of `virtio_net_receive` keeps the account, if buffers merge, if the packet is
through, or if it fits in the first element. -/
theorem Accounted.receiveLoop (accounted : Accounted num [] run) (divides : num.toNat ∣ 65536)
    (fits : n.mergeableRxBufs = 0 → size.toNat ≤ offset ∨ run.batch = [] ∧
      ∀ elem ∈ run.front map, size.toNat + n.guestHdrLen ≤ iovSize elem.inSg + n.hostHdrLen)
    (ended : receiveLoop n map size fuel offset run = .ok (outcome, next)) :
    Accounted num [] next ∧ (outcome = .filled ∨ outcome = .busy ∧ next.batch = []) := by
  induction fuel generalizing offset run with
  | zero => cases ended
  | succ fuel ih =>
    obtain ⟨-, rfl, rfl⟩ | ⟨closed, rfl, rfl⟩ |
      ⟨more, elem, mid, after, total, taken, copied, round⟩ := receiveLoop_round ended
    · exact ⟨accounted, .inl rfl⟩
    · exact ⟨accounted, .inr ⟨rfl, closed⟩⟩
    have popped := accounted.popElem taken
    -- without merging a packet is through after its first element
    have through (single : n.mergeableRxBufs = 0) : size.toNat ≤ after := by
      obtain done | ⟨closed, room⟩ := fits single
      · omega
      obtain ⟨none, -⟩ | ⟨same, availEvent, isSame, front, rfl⟩ := popElem_ok taken
      · cases none
      obtain rfl := Option.some.inj isSame
      rw [closed] at copied
      exact copyIn_fits copied (room elem front)
    obtain ⟨single, short, -⟩ | ⟨-, rest⟩ := round
    · have done := through single
      omega
    · refine ih (popped.fill divides _) ?_ rest
      exact fun single => .inl (through single)

end Receive

/-! ### What a run keeps -/

/-- A packet that the device takes without mergeable buffers has room in the next element of
its queue. -/
def NetFits (s : NetState) : NetEnv × NetEvent → Prop
  | (env, .receive i buf size) =>
    s.net.mergeableRxBufs = 0 → virtioNetCanReceive s i = true →
      receiveFilter s.net buf = true → ∀ elem ∈ (s.rx i).front env.map,
        size.toNat + s.net.guestHdrLen ≤ iovSize elem.inSg + s.net.hostHdrLen
  | _ => True

/-- The accounts are even: every element that was popped is in its used ring once, but for the one
that waits for the peer. -/
structure NetSettled (sizes : NetSizes) (s : NetState) : Prop where
  rx : ∀ i, Settled sizes.rx [] (s.rx i)
  tx : ∀ i, TxSettled sizes.tx (s.tx i)
  ctrl : Settled sizes.ctrl [] s.ctrl

section Steps

variable {config : NetConfig} {tx : TxConfig} {sizes : NetSizes} {s next : NetState} {i : Nat}
  {map : GuestMap}

section

variable (settled : NetSettled sizes s)
include settled

theorem NetSettled.setRx {run : Run}
    (account : Settled sizes.rx [] run) : NetSettled sizes (s.setRx i run) :=
  ⟨(Function.forall_update_iff s.rx fun _ => Settled sizes.rx []).mpr
    ⟨account, fun j _ => settled.rx j⟩, settled.tx, settled.ctrl⟩

theorem NetSettled.setTx {q : TxQueue}
    (account : TxSettled sizes.tx q) : NetSettled sizes (s.setTx i q) :=
  ⟨settled.rx, (Function.forall_update_iff s.tx fun _ => TxSettled sizes.tx).mpr
    ⟨account, fun j _ => settled.tx j⟩, settled.ctrl⟩

theorem NetSettled.receive {buf : ByteImage} {size : UInt64} {ret : Int}
    (fits : s.net.mergeableRxBufs = 0 → virtioNetCanReceive s i = true →
      receiveFilter s.net buf = true → ∀ elem ∈ (s.rx i).front map,
        size.toNat + s.net.guestHdrLen ≤ iovSize elem.inSg + s.net.hostHdrLen)
    (received : virtioNetReceive map i buf size s = .ok (ret, next)) : NetSettled sizes next := by
  unfold virtioNetReceive at received
  by_cases can : virtioNetCanReceive s i = true
  swap
  · rw [if_pos (by simp [can])] at received
    cases received
    exact settled
  rw [if_neg (by simp [can])] at received
  obtain ⟨⟨has, run⟩, looked, rest⟩ := bind_ok_iff.mp received
  have same := hasBuffers_same looked
  have account := (settled.rx i).same same
  cases has with
  | false =>
    cases rest
    exact settled.setRx account
  | true =>
    dsimp only at rest
    rw [if_neg (by decide)] at rest
    split_ifs at rest with refused
    · cases rest
      exact settled.setRx account
    rw [Bool.not_eq_true', Bool.not_eq_false] at refused
    obtain ⟨⟨outcome, last⟩, looped, rest⟩ := bind_ok_iff.mp rest
    have room : s.net.mergeableRxBufs = 0 → size.toNat ≤ 0 ∨ run.batch = [] ∧
        ∀ elem ∈ run.front map,
          size.toNat + s.net.guestHdrLen ≤ iovSize elem.inSg + s.net.hostHdrLen := by
      intro single
      rw [same.front]
      exact .inr ⟨account.closed, fits single can refused⟩
    obtain ⟨ended, rfl | ⟨rfl, closed⟩⟩ :=
      account.toAccounted.receiveLoop sizes.rx_divides room looped
    · cases rest
      refine settled.setRx (Settled.same ?_ (notify_same _ _ _))
      exact ⟨ended.flush, rfl⟩
    · cases rest
      exact settled.setRx ⟨ended, closed⟩

theorem NetSettled.setStatus : NetSettled sizes (virtioNetSetStatus config s) := by
  refine ⟨settled.rx, fun i => ?_, settled.ctrl⟩
  unfold virtioNetSetStatus
  dsimp only
  split
  · exact (settled.tx i).flags _ _ _
  · exact settled.tx i

theorem NetSettled.ctrlLoop {mem : Nat → UInt64 → UInt8} {fuel : Nat} {status : CtrlAck}
    (ended : ctrlLoop config map mem fuel status s = .ok next) :
    NetSettled sizes next := by
  -- one round pops an element and pushes it
  induction fuel generalizing status s with
  | zero => cases ended
  | succ fuel ih =>
    obtain ⟨⟨popped, run⟩, taken, rest⟩ := bind_ok_iff.mp ended
    have returned := popFor_ok taken
    cases popped with
    | none =>
      obtain ⟨-, rfl⟩ | ⟨elem, -, popped, -⟩ := popElem_ok returned
      · cases rest
        exact { settled with }
      · cases popped
    | some elem =>
      have account := settled.ctrl.popElem returned
      dsimp only at rest
      split at rest
      · cases rest
      next status net handled =>
        refine ih ?_ rest
        have pushed : NetSettled sizes { s with
            net
            ctrl := (run.push elem 1).notify s.net.notifyOnEmpty s.net.eventIdx } :=
          ⟨settled.rx, settled.tx, (account.push sizes.ctrl_divides 1).same (notify_same _ _ _)⟩
        split
        · exact pushed.setStatus
        · exact pushed

theorem NetSettled.onTx {handler : TxQueue → Except NetExit TxQueue} {env : NetEnv}
    (keeps : ∀ q, handler { s.tx i with ahead := env.ahead } = .ok q → TxSettled sizes.tx q)
    (handled : onTx handler env i s = .ok next) : NetSettled sizes next := by
  obtain ⟨q, ran, built⟩ := bind_ok_iff.mp handled
  cases built
  exact settled.setTx (keeps q ran)

theorem NetSettled.step {event : NetEnv × NetEvent} (fits : NetFits s event)
    (stepped : (netMachine config tx sizes).step s event = some next) :
    NetSettled sizes next := by
  obtain ⟨env, event⟩ := event
  have handled : netHandle config tx env s event = .ok next := toOption_eq_some.mp stepped
  have ahead (i : Nat) : TxSettled sizes.tx { s.tx i with ahead := env.ahead } :=
    ⟨(settled.tx i).ledger, (settled.tx i).sending⟩
  cases event with
  | writeRx i write =>
    cases handled
    exact settled.setRx ((settled.rx i).drive _ _ _ _)
  | writeTx i write =>
    cases handled
    exact settled.setTx ⟨(settled.tx i).ledger.drive _ _ _ _, (settled.tx i).sending⟩
  | writeCtrl write =>
    cases handled
    exact ⟨settled.rx, settled.tx, settled.ctrl.drive _ _ _ _⟩
  | receive i buf size =>
    obtain ⟨⟨ret, after⟩, received, built⟩ := bind_ok_iff.mp handled
    cases built
    exact settled.receive fits received
  | kick i =>
    exact settled.onTx (fun _ ran => (ahead i).kick sizes.tx_divides ran) handled
  | deferred i =>
    rw [netHandle] at handled
    split_ifs at handled
    · exact settled.onTx (fun _ ran => (ahead i).deferred sizes.tx_divides ran) handled
    · cases handled
      exact settled
  | complete i =>
    rw [netHandle] at handled
    split_ifs at handled with pending
    · exact settled.onTx (fun _ ran => (ahead i).complete sizes.tx_divides pending ran) handled
    · cases handled
      exact settled
  | ctrl => exact settled.ctrlLoop handled
  | status status =>
    cases handled
    exact { settled with }

end

end Steps

/-! ### Which assertions fail -/

def RxShort (n : VirtIONet) (elem : VirtQueueElement) : Prop :=
  iovSize elem.inSg < n.guestHdrLen ∨ n.mergeableRxBufs ≠ 0 ∧ iovSize elem.inSg < 10

/-- `virtio_net_receive` takes the packet, and the next element of the queue is short. The
elements after it are copied to from their front. -/
def RxCause (map : GuestMap) (i : Nat) (buf : ByteImage) (size : UInt64) (s : NetState) : Prop :=
  virtioNetCanReceive s i = true ∧ receiveFilter s.net buf = true ∧ 0 < size.toNat ∧
    ∃ run elem after, virtioNetHasBuffers s.net
      (size.toUInt32 + UInt32.ofNat s.net.guestHdrLen - UInt32.ofNat s.net.hostHdrLen) (s.rx i) =
        .ok (true, run) ∧
      run.popFor s.net map = .ok (some elem, after) ∧ elem.inSg ≠ [] ∧ RxShort s.net elem

/-- Why a handler fails an assertion on its queue. Commands on the control queue are no reason. -/
def AssertionCause (tx : TxConfig) (env : NetEnv) (s : NetState) : NetEvent → Prop
  | .receive i buf size => RxCause env.map i buf size s
  | .kick i => KickCause s.net env.toTxEnv tx s.status { s.tx i with ahead := env.ahead }
  | .deferred i => (s.tx i).scheduled = true ∧
    DeferredCause s.net env.toTxEnv tx s.status { s.tx i with ahead := env.ahead }
  | .complete i => (s.tx i).sending = true ∧
    CompleteCause s.net env.toTxEnv tx s.status { s.tx i with ahead := env.ahead }
  | _ => False

section Fuel

variable {n : VirtIONet} {map : GuestMap} {size : UInt64} {run : Run} {fuel offset i : Nat}
  {config : NetConfig} {s : NetState}

theorem copyAt_fails (size : UInt64) (offset guestOffset : Nat) (inSg : List Segment) :
    FailsFor (iovSize inSg < guestOffset) (copyAt size offset guestOffset inSg) := by
  rw [copyAt, iovFromBuf_eq]
  split_ifs with short
  · exact .assert short
  · exact (FailsFor.ok _).never short

theorem copyIn_fails (n : VirtIONet) (size : UInt64) (first : Bool) (offset : Nat)
    (elem : VirtQueueElement) :
    FailsFor (first = true ∧ RxShort n elem) (copyIn n size first offset elem.inSg) := by
  unfold copyIn
  cases first with
  | false =>
    refine (copyAt_fails _ _ _ _).congr (iff_of_false (Nat.not_lt_zero _) fun short => ?_)
    exact Bool.false_ne_true short.1
  | true =>
    have lost : (iovCopy virtqueueMaxSize elem.inSg 10 2).isNone ↔ iovSize elem.inSg < 10 := by
      rw [iovCopy_eq]
      by_cases short : iovSize elem.inSg < 10
      · rw [if_pos (.inl short)]
        exact iff_of_true rfl short
      · rw [if_neg (by simp [short, virtqueueMaxSize])]
        exact iff_of_false Bool.false_ne_true short
    rw [if_neg (by decide)]
    simp only [lost, true_and]
    split_ifs with merged
    · exact .assert (.inr merged)
    · exact (copyAt_fails _ _ _ _).congr (or_iff_left merged).symm

/-- More fuel than heads is enough; with more heads than the ring has entries the first pop
exits. -/
def FuelFor (fuel : Nat) (run : Run) : Prop :=
  0 < fuel ∧ (run.heads ≤ run.vq.vring.num.toNat → run.heads < fuel)

theorem FuelFor.ring (run : Run) : FuelFor (run.vq.vring.num.toNat + 1) run :=
  ⟨Nat.succ_pos _, fun few => Nat.lt_succ_of_le few⟩

theorem FuelFor.pop {eventIdx : Bool} {elem : VirtQueueElement} {next last : Run}
    (enough : FuelFor (fuel + 1) run) (taken : run.popElem eventIdx map = .ok (some elem, next))
    (same : last.heads = next.heads) : FuelFor fuel last := by
  obtain ⟨lower, few⟩ := popElem_heads taken
  have bound := enough.2 few
  exact ⟨by omega, fun _ => by omega⟩

theorem popFor_batch {popped : Option VirtQueueElement} {next : Run}
    (taken : run.popFor n map = .ok (popped, next)) : next.batch = run.batch := by
  obtain ⟨-, rfl⟩ | ⟨elem, availEvent, -, -, rfl⟩ := popElem_ok (popFor_ok taken)
  · rfl
  · rfl

/-- Only the first round can fail, since a later one copies to the front of its element. -/
theorem receiveLoop_fails (enough : FuelFor fuel run) :
    FailsFor (offset < size.toNat ∧ run.batch = [] ∧ ∃ elem after,
      run.popFor n map = .ok (some elem, after) ∧ elem.inSg ≠ [] ∧ RxShort n elem)
      (receiveLoop n map size fuel offset run) := by
  induction fuel generalizing offset run with
  | zero => exact absurd enough.1 (Nat.lt_irrefl 0)
  | succ fuel ih =>
    rw [receiveLoop]
    by_cases through : size.toNat ≤ offset
    · rw [if_pos through]
      exact (FailsFor.ok _).never fun cause => absurd through (Nat.not_le.mpr cause.1)
    rw [if_neg through]
    refine ((popFor_fails n map run).andThen (P := fun values => run.batch = [] ∧
      ∃ elem, values.1 = some elem ∧ elem.inSg ≠ [] ∧ RxShort n elem) ?_).congr ?_
    swap
    · rw [and_iff_right (Nat.lt_of_not_le through)]
      constructor
      · rintro ⟨⟨_, after⟩, taken, first, elem, rfl, buffers, short⟩
        exact ⟨first, elem, after, taken, buffers, short⟩
      · rintro ⟨first, elem, after, taken, buffers, short⟩
        exact ⟨(some elem, after), taken, first, elem, rfl, buffers, short⟩
    rintro ⟨_ | elem, mid⟩ taken
    · refine FailsFor.never ?_ nofun
      dsimp only
      split
      · exact .ok _
      · exact ⟨nofun, nofun, nofun⟩
    dsimp only
    split
    next empty =>
      refine FailsFor.never ⟨nofun, nofun, nofun⟩ ?_
      rintro ⟨-, _, ⟨⟩, buffers, -⟩
      exact buffers (List.eq_nil_of_length_eq_zero (Nat.lt_one_iff.mp empty))
    next buffers =>
      refine ((copyIn_fails n size _ offset elem).before ?_).congr ?_
      · rintro ⟨after, total⟩
        split
        · exact .ok _
        · exact (ih (enough.pop (popFor_ok taken) (fill_heads _ _ _))).congr
            (iff_of_false (fun cause => by simp [Run.fill] at cause) id)
      · rw [popFor_batch taken, decide_eq_true_iff, List.length_eq_zero_iff]
        refine and_congr_right fun _ => ⟨fun short => ⟨elem, rfl, ?_, short⟩, ?_⟩
        · exact fun nil => buffers (by rw [nil]; exact Nat.zero_lt_one)
        · rintro ⟨_, ⟨⟩, -, short⟩
          exact short

theorem ctrlLoop_fails {mem : Nat → UInt64 → UInt8} {status : CtrlAck}
    (enough : FuelFor fuel s.ctrl) : FailsFor False (ctrlLoop config map mem fuel status s) := by
  induction fuel generalizing status s with
  | zero => exact absurd enough.1 (Nat.lt_irrefl 0)
  | succ fuel ih =>
    refine ((popFor_fails s.net map s.ctrl).andThen (P := fun _ => False) ?_).congr
      ⟨fun ⟨_, _, never⟩ => never, False.elim⟩
    rintro ⟨_ | elem, mid⟩ taken
    · exact .ok _
    dsimp only
    split
    · exact ⟨nofun, nofun, nofun⟩
    next status net handled =>
      have heads : ((mid.push elem 1).notify s.net.notifyOnEmpty s.net.eventIdx).heads =
          mid.heads :=
        (notify_same _ _ _).heads.trans (push_heads _ _ _)
      refine ih ?_
      split
      · exact enough.pop (popFor_ok taken) heads
      · exact enough.pop (popFor_ok taken) heads

theorem lacksBuffers_fails (n : VirtIONet) (bufsize : UInt32) (run : Run) :
    FailsFor False (lacksBuffers n bufsize run) := by
  unfold lacksBuffers
  split_ifs
  · exact .ok _
  · exact .ok _
  · split
    · exact ⟨nofun, nofun, nofun⟩
    · exact .ok _

theorem hasBuffers_fails (n : VirtIONet) (bufsize : UInt32) (run : Run) :
    FailsFor False (virtioNetHasBuffers n bufsize run) := by
  refine (lacksBuffers_fails n bufsize run).before fun lacks => ?_
  cases lacks with
  | false => exact .ok _
  | true =>
    refine (lacksBuffers_fails n bufsize _).before fun lacks => ?_
    cases lacks <;> exact .ok _

/-- No packet is half received between two handlers. -/
theorem virtioNetReceive_fails (idle : (s.rx i).batch = []) (buf : ByteImage) :
    FailsFor (RxCause map i buf size s) (virtioNetReceive map i buf size s) := by
  unfold virtioNetReceive
  by_cases can : virtioNetCanReceive s i = true
  swap
  · rw [if_pos (by simp [can])]
    exact (FailsFor.ok _).never fun cause => can cause.1
  rw [if_neg (by simp [can])]
  refine ((hasBuffers_fails _ _ _).andThen (P := fun values => values.1 = true ∧
    receiveFilter s.net buf = true ∧ 0 < size.toNat ∧ ∃ elem after,
      values.2.popFor s.net map = .ok (some elem, after) ∧ elem.inSg ≠ [] ∧
        RxShort s.net elem) ?_).congr ?_
  swap
  · rw [RxCause, and_iff_right can]
    constructor
    · rintro ⟨⟨_, run⟩, looked, rfl, filter, some, elem, after, short⟩
      exact ⟨filter, some, run, elem, after, looked, short⟩
    · rintro ⟨filter, some, run, elem, after, looked, short⟩
      exact ⟨(true, run), looked, rfl, filter, some, elem, after, short⟩
  rintro ⟨has, run⟩ looked
  have same := (hasBuffers_same looked).batch
  cases has with
  | false => exact (FailsFor.ok _).never nofun
  | true =>
    dsimp only
    rw [if_neg (by decide)]
    split
    next refused => exact (FailsFor.ok _).never fun cause => by simp [cause.2.1] at refused
    next taken =>
      refine ((receiveLoop_fails (FuelFor.ring run)).before ?_).congr ?_
      · rintro ⟨outcome, last⟩
        cases outcome <;> exact .ok _
      · rw [and_iff_right (same.trans idle), and_iff_right rfl,
          and_iff_right (a := receiveFilter _ _ = true) (by simpa using taken)]

/-- It is the chain at the front of the queue that is short. -/
theorem RxCause.front {buf : ByteImage} (cause : RxCause map i buf size s) :
    ∃ elem ∈ (s.rx i).front map, RxShort s.net elem := by
  obtain ⟨-, -, -, run, elem, after, looked, taken, -, short⟩ := cause
  obtain ⟨none, -⟩ | ⟨same, availEvent, isSame, front, -⟩ := popElem_ok (popFor_ok taken)
  · cases none
  · cases isSame
    exact ⟨elem, (hasBuffers_same looked).front.symm.trans front, short⟩

theorem onTx_fails {handler : TxQueue → Except NetExit TxQueue} {env : NetEnv} {cause : Prop}
    (fails : FailsFor cause (handler { s.tx i with ahead := env.ahead })) :
    FailsFor cause (onTx handler env i s) :=
  fails.before fun _ => .ok _

/-- The handlers return or end the process, and an assertion fails exactly for one of the causes. -/
theorem netHandle_fails (config : NetConfig) (tx : TxConfig) (env : NetEnv)
    (idle : ∀ i, (s.rx i).batch = []) (event : NetEvent) :
    FailsFor (AssertionCause tx env s event) (netHandle config tx env s event) := by
  cases event with
  | writeRx | writeTx | writeCtrl | status => exact .ok _
  | kick i => exact onTx_fails (handleTxKick_fails _)
  | deferred i =>
    rw [netHandle]
    split
    next scheduled =>
      exact (onTx_fails (runTxDeferred_fails _)).congr (and_iff_right scheduled).symm
    next idle => exact (FailsFor.ok _).never fun cause => idle cause.1
  | complete i =>
    rw [netHandle]
    split
    next sending =>
      exact (onTx_fails (virtioNetTxComplete_fails _)).congr (and_iff_right sending).symm
    next idle => exact (FailsFor.ok _).never fun cause => idle cause.1
  | ctrl => exact ctrlLoop_fails (FuelFor.ring _)
  | receive i buf size => exact (virtioNetReceive_fails (idle i) buf).before fun _ => .ok _

end Fuel

/-! ### Every run -/

variable {num : UInt32} {run : Run}

theorem Settled.fresh (fresh : run.Fresh num) : Settled num [] run := by
  obtain ⟨size, -, usedIdx, -, inuse, -, -, inFlight, batch, -, popped, completed, -⟩ := fresh
  refine ⟨⟨size, inFlight, ?_, ?_, ?_, ?_⟩, batch⟩
  · simp [popped, completed, batch]
  · simp [inuse, batch]
  · simp [usedIdx, completed]
  · rw [completed, batch]
    exact RingLog.empty

theorem Settled.inuse_zero (settled : Settled num [] run) : run.vq.inuse = 0 := by
  rw [settled.inuse, settled.closed]
  rfl

/-- In every run in which each packet taken without mergeable buffers has room in the next
element, whatever the guest writes, the accounts of all queues are even between handlers, and
nothing is in use but what waits for the peer. -/
theorem netQueues_settled {config : NetConfig} {tx : TxConfig} {sizes : NetSizes} {s : NetState}
    (reached : (netMachine config tx sizes).Reached NetFits s) :
    NetSettled sizes s ∧ (∀ i, (s.rx i).vq.inuse = 0) ∧
      (∀ i, (s.tx i).sending = false → (s.tx i).run.vq.inuse = 0) ∧ s.ctrl.vq.inuse = 0 := by
  have settled : NetSettled sizes s := by
    refine reached.invariant ?_ fun before event after settled fits stepped =>
      settled.step fits stepped
    rintro start ⟨-, rx, tx, ctrl⟩
    refine ⟨fun i => Settled.fresh (rx i), fun i => ?_, Settled.fresh ctrl⟩
    obtain ⟨fresh, empty, -, -, sending, -⟩ := tx i
    refine ⟨?_, ?_⟩
    · rw [TxQueue.held_none empty]
      exact Settled.fresh fresh
    · rw [sending, empty]
      exact iff_of_false Bool.false_ne_true fun some => some rfl
  refine ⟨settled, fun i => (settled.rx i).inuse_zero, fun i idle => ?_, settled.ctrl.inuse_zero⟩
  obtain ⟨account, sending⟩ := settled.tx i
  have empty : (s.tx i).asyncTx.outSg = [] := by
    by_contra there
    rw [sending.mpr there] at idle
    cases idle
  rw [TxQueue.held_none empty] at account
  exact account.inuse_zero

/-! ### Two runs -/

def netSizes : NetSizes := ⟨256, 256, 64, by decide, by decide, by decide⟩

def idleRun (num : UInt32) : Run :=
  { freshRun num fun _ _ => ⟨0, 0, 0, 0⟩ with
    vq := ⟨⟨num, 4096, 0x1000, 0x2000, 0x3000⟩, 0x1000, 0, 0, false, true, 0⟩ }

def idleTx : TxQueue := ⟨idleRun 256, ⟨0, [], []⟩, false, false, false, false, []⟩

def idleNet : NetState where
  net := plainStart
  status := ⟨true, true⟩
  rx _ := idleRun 256
  tx _ := idleTx
  ctrl := idleRun 64

theorem idleNet_start (tx : TxConfig) : (netMachine plainNet tx netSizes).start idleNet :=
  ⟨⟨0, rfl⟩, fun _ => ⟨rfl, rfl, rfl, rfl, rfl, rfl, rfl, rfl, rfl, rfl, rfl, rfl, rfl⟩,
    fun _ => ⟨⟨rfl, rfl, rfl, rfl, rfl, rfl, rfl, rfl, rfl, rfl, rfl, rfl, rfl⟩, rfl, rfl, rfl, rfl,
      rfl⟩, rfl, rfl, rfl, rfl, rfl, rfl, rfl, rfl, rfl, rfl, rfl, rfl, rfl⟩

def offer (descs : Nat → VRingDesc) : GuestWrite := ⟨0, 1, fun _ => 0, fun _ => descs⟩

def flatEnv (answer : Int) : NetEnv where
  map addr len _ := some (addr, len)
  send _ _ := answer
  mem _ _ := 0
  ahead := []

def receiveInto (room : UInt32) : List (NetEnv × NetEvent) :=
  [(flatEnv 1, .writeRx 0 (offer fun _ => ⟨0x4000, room, 2, 0⟩)),
    (flatEnv 1, .receive 0 (fun _ => 0) 60)]

def sendLater : List (NetEnv × NetEvent) :=
  [(flatEnv 0, .writeTx 0 (offer fun _ => ⟨0x5000, 64, 0, 0⟩)), (flatEnv 0, .kick 0),
    (flatEnv 0, .deferred 0), (flatEnv 1, .complete 0)]

def promiscOff : List (NetEnv × NetEvent) :=
  [(flatEnv 1, .writeCtrl (offer fun i =>
      if i = 0 then ⟨0x6000, 3, 1, 1⟩ else ⟨0x7000, 1, 2, 0⟩)), (flatEnv 1, .ctrl)]

instance decidableNetFits (s : NetState) (event : NetEnv × NetEvent) :
    Decidable (NetFits s event) := by
  rcases event with ⟨_, _ | _⟩ <;> dsimp only [NetFits] <;> infer_instance

theorem netQueues_settled_allQueues :
    ∃ s, (netMachine plainNet ⟨false, 256⟩ netSizes).Reached NetFits s ∧
      (s.rx 0).completed = [⟨0, 70⟩] ∧ (s.tx 0).run.completed = [⟨0, 0⟩] ∧
      s.ctrl.completed = [⟨0, 1⟩] ∧ NetSettled netSizes s := by
  have ends : ((netMachine plainNet ⟨false, 256⟩ netSizes).run
      (receiveInto 128 ++ sendLater ++ promiscOff) idleNet).map (fun s =>
        ((s.rx 0).completed, (s.tx 0).run.completed, s.ctrl.completed)) =
      some ([⟨0, 70⟩], [⟨0, 0⟩], [⟨0, 1⟩]) := by decide +kernel
  have start : (netMachine plainNet ⟨false, 256⟩ netSizes).Reached NetFits idleNet :=
    .start (idleNet_start ⟨false, 256⟩)
  obtain ⟨s, reached, values⟩ := start.evaluate (by decide +kernel) ends
  simp only [Prod.mk.injEq] at values
  exact ⟨s, reached, values.1, values.2.1, values.2.2, (netQueues_settled reached).1⟩

/-- A packet that does not fit in the element that was popped for it is dropped, and the
element with it. -/
theorem receive_loses_element :
    ¬ ∀ (config : NetConfig) (tx : TxConfig) (sizes : NetSizes) (s : NetState),
      (netMachine config tx sizes).Reached Machine.anyAction s →
      NetSettled sizes s ∧ ∀ i, (s.rx i).vq.inuse = 0 := by
  intro always
  have ends : ((netMachine plainNet ⟨false, 256⟩ netSizes).run (receiveInto 20) idleNet).map
      (fun s => ((s.rx 0).vq.inuse, (s.rx 0).popped, (s.rx 0).completed)) =
      some (1, [0], []) := by decide +kernel
  obtain ⟨s, reached, values⟩ := Machine.evaluate_any ends (idleNet_start ⟨false, 256⟩)
  simp only [Prod.mk.injEq] at values
  have none := (always plainNet ⟨false, 256⟩ netSizes s reached).2 0
  rw [values.1] at none
  cases none

end VhostUser.Qemu.Virtio
