import Mathlib.Data.List.Perm.Subperm
import Mathlib.Data.List.Nodup
import VhostUser.Lib.Machine

/-!
Contract: the queue of packets in front of a network client (`net/queue.c`), with the part of
`net/net.c` that delivers a packet.

The receive functions of the client and the callbacks of the senders are unknown code. While one
of them runs it may send, flush and purge itself, and it may change the client; the functions of
the queue that wait for it are on a stack. A packet has a number, the order of the calls that
sent it.

Owns: when packets are delivered in the order they were sent in, and when every callback comes
exactly once.
-/

namespace VhostUser.Qemu.Packets

open VhostUser.Lib

/-! ### The queue -/

/-- `NetPacket`, with its number. -/
structure NetPacket where
  id : Nat
  sender : Nat
  flags : UInt32
  data : List UInt8
  /-- `sent_cb` is there. -/
  sentCb : Bool
deriving DecidableEq, Repr

structure NetQueue where
  nqMaxlen : UInt32
  nqCount : UInt32
  packets : List NetPacket
  delivering : Bool
deriving DecidableEq, Repr

def qemuNewNetQueue : NetQueue := ⟨10000, 0, [], false⟩

/-- `qemu_net_queue_append`, and `qemu_net_queue_append_iov` for a packet that was gathered. -/
def qemuNetQueueAppend (packet : NetPacket) (queue : NetQueue) : NetQueue :=
  if queue.nqMaxlen ≤ queue.nqCount ∧ packet.sentCb = false then queue
  else { queue with nqCount := queue.nqCount + 1, packets := queue.packets ++ [packet] }

/-- A packet that was not taken goes back to the front. -/
def NetQueue.putBack (packet : NetPacket) (queue : NetQueue) : NetQueue :=
  { queue with nqCount := queue.nqCount + 1, packets := packet :: queue.packets }

def qemuNetQueuePurge (sender : Nat) (queue : NetQueue) : NetQueue :=
  { queue with
    packets := queue.packets.filter fun packet => packet.sender ≠ sender
    nqCount := queue.nqCount -
      UInt32.ofNat (queue.packets.countP fun packet => packet.sender = sender) }

/-! ### Delivering -/

structure NetClient where
  linkDown : Bool
  receiveDisabled : Bool
  /-- The answer of `can_receive`; a client without the function can. -/
  canReceive : Bool
  hasReceiveRaw : Bool
  hasReceiveIov : Bool
deriving DecidableEq, Repr

/-- What a sender passes: one buffer, or a list of them. -/
inductive Buffer where
  | flat (data : List UInt8)
  | iov (pieces : List (List UInt8))
deriving DecidableEq, Repr

def Buffer.bytes : Buffer → List UInt8
  | .flat data => data
  | .iov pieces => pieces.flatten

/-- The receive function that is called, with its argument. -/
inductive ReceiveCall where
  | receive (data : List UInt8)
  | receiveRaw (data : List UInt8)
  | receiveIov (pieces : List (List UInt8))
deriving DecidableEq, Repr

def qemuNetPacketFlagRaw : UInt32 := 1

def netBufsize : Nat := 4096 + 65536

def NetClient.receiveCall (nc : NetClient) (flags : UInt32) : Buffer → ReceiveCall
  | .flat data =>
    if flags &&& qemuNetPacketFlagRaw ≠ 0 ∧ nc.hasReceiveRaw then .receiveRaw data
    else .receive data
  | .iov pieces =>
    if nc.hasReceiveIov then .receiveIov pieces
    -- `nc_sendv_compat` gathers what fits in its buffer
    else .receive (pieces.flatten.take netBufsize)

/-- A delivery ends at once, or the receive function decides. -/
inductive Delivery where
  | done (ret : Int)
  | calls (call : ReceiveCall)

/-- `qemu_deliver_packet` and `qemu_deliver_packet_iov`, up to the receive function. -/
def qemuDeliverPacket (nc : NetClient) (flags : UInt32) (buffer : Buffer) : Delivery :=
  if nc.linkDown then .done buffer.bytes.length
  else if nc.receiveDisabled then .done 0
  else .calls (nc.receiveCall flags buffer)

/-- A function that waits for code of the client or of a sender. A flush at the end of a send
knows the packet and what the send will return. -/
inductive Frame where
  | sendReceive (packet : NetPacket) (call : ReceiveCall)
  | flushReceive (packet : NetPacket) (call : ReceiveCall) (caller : Option (NetPacket × Int))
  | flushSent (packet : NetPacket) (caller : Option (NetPacket × Int))

structure Net where
  queue : NetQueue
  nc : NetClient
  /-- The senders whose peer is the client; the others have none. -/
  attached : Nat → Bool
  stack : List Frame
  nextId : Nat
  /-- The packets that a receive function was called for and did not refuse, in order. -/
  handed : List NetPacket
  results : List (NetPacket × Int)
  called : List (NetPacket × Int)

namespace Net

def qemuCanSendPacket (net : Net) (sender : Nat) : Bool :=
  if !net.attached sender then true
  else if net.nc.receiveDisabled then false
  else net.nc.canReceive

def returns (caller : Option (NetPacket × Int)) (net : Net) : Net :=
  { net with results := net.results ++ caller.toList }

/-- The loop of `qemu_net_queue_flush`, up to the next code that it calls. -/
def flushLoop (caller : Option (NetPacket × Int)) : List NetPacket → Net → Net
  | [], net => { net with queue.packets := [] }.returns caller
  | packet :: rest, net =>
    let net := { net with queue.packets := rest, queue.nqCount := net.queue.nqCount - 1 }
    match qemuDeliverPacket net.nc packet.flags (.flat packet.data) with
    | .calls call =>
      { net with
        queue.delivering := true
        handed := net.handed ++ [packet]
        stack := .flushReceive packet call caller :: net.stack }
    | .done ret =>
      let net := { net with queue.delivering := false }
      if ret = 0 then { net with queue := net.queue.putBack packet }.returns caller
      else if packet.sentCb then
        { net with
          called := net.called ++ [(packet, ret)]
          stack := .flushSent packet caller :: net.stack }
      else flushLoop caller rest net

def qemuNetQueueFlush (caller : Option (NetPacket × Int)) (net : Net) : Net :=
  flushLoop caller net.queue.packets net

def keep (packet : NetPacket) (net : Net) : Net :=
  { net with queue := qemuNetQueueAppend packet net.queue }.returns (some (packet, 0))

def qemuNetQueueSend (sender : Nat) (flags : UInt32) (buffer : Buffer) (sentCb : Bool)
    (net : Net) : Net :=
  let packet : NetPacket := ⟨net.nextId, sender, flags, buffer.bytes, sentCb⟩
  let net := { net with nextId := net.nextId + 1 }
  if net.queue.delivering || !net.qemuCanSendPacket sender then net.keep packet
  else
    match qemuDeliverPacket net.nc flags buffer with
    | .calls call =>
      { net with
        queue.delivering := true
        handed := net.handed ++ [packet]
        stack := .sendReceive packet call :: net.stack }
    | .done ret =>
      let net := { net with queue.delivering := false }
      if ret = 0 then net.keep packet else net.qemuNetQueueFlush (some (packet, ret))

/-- The code on top of the stack returns, and the function that waited for it goes on. -/
def resume (ret : Int) (net : Net) : Option Net :=
  match net.stack with
  | [] => none
  | .flushSent _ caller :: stack => some ({ net with stack }.qemuNetQueueFlush caller)
  | .sendReceive packet _ :: stack =>
    let net := { net with stack, queue.delivering := false }
    if ret = 0 then
      some ({ net with
        nc.receiveDisabled := true, handed := net.handed.erase packet }.keep packet)
    else some (net.qemuNetQueueFlush (some (packet, ret)))
  | .flushReceive packet _ caller :: stack =>
    let net := { net with stack, queue.delivering := false }
    if ret = 0 then
      some ({ net with
        nc.receiveDisabled := true
        handed := net.handed.erase packet
        queue := net.queue.putBack packet }.returns caller)
    else if packet.sentCb then
      some { net with
        called := net.called ++ [(packet, ret)]
        stack := .flushSent packet caller :: stack }
    else some (net.qemuNetQueueFlush caller)

/-- `qemu_flush_queued_packets` of a client whose peer is no hub port. -/
def qemuFlushQueuedPackets (net : Net) : Net :=
  { net with nc.receiveDisabled := false }.qemuNetQueueFlush none

end Net

inductive NetAction where
  | send (sender : Nat) (flags : UInt32) (buffer : Buffer) (sentCb : Bool)
  | flush
  | flushQueued
  | purge (sender : Nat)
  | change (nc : NetClient) (attached : Nat → Bool)
  | returns (ret : Int)

/-- Whichever code runs, a callback or the main loop, takes the next action. -/
def packetMachine : Machine Net NetAction where
  start net := net.queue = qemuNewNetQueue ∧ net.stack = [] ∧ net.nextId = 0 ∧ net.handed = [] ∧
    net.results = [] ∧ net.called = []
  step net
    | .send sender flags buffer sentCb => some (net.qemuNetQueueSend sender flags buffer sentCb)
    | .flush => some (net.qemuNetQueueFlush none)
    | .flushQueued => some net.qemuFlushQueuedPackets
    | .purge sender => some { net with queue := qemuNetQueuePurge sender net.queue }
    | .change nc attached => some { net with nc, attached }
    | .returns ret => net.resume ret

/-! ### What a flush does -/

def Net.drop (gone : Nat) (rest : List NetPacket) (delivering : Bool) (net : Net) : Net :=
  { net with
    queue := { net.queue with
      packets := rest
      nqCount := net.queue.nqCount - UInt32.ofNat gone
      delivering } }

/-- While the link is down packets without a callback go. Then the flush is finished, it calls the
receive function, or it calls a callback. -/
inductive Flushed (caller : Option (NetPacket × Int)) (net : Net) : Net → Prop where
  | finished (gone rest : List NetPacket) (delivering : Bool)
      (split : net.queue.packets = gone ++ rest) (silent : ∀ packet ∈ gone, packet.sentCb = false) :
      Flushed caller net ((net.drop gone.length rest delivering).returns caller)
  | receives (gone : List NetPacket) (packet : NetPacket) (rest : List NetPacket)
      (call : ReceiveCall) (split : net.queue.packets = gone ++ packet :: rest)
      (silent : ∀ packet ∈ gone, packet.sentCb = false) :
      Flushed caller net { net.drop (gone.length + 1) rest true with
        handed := net.handed ++ [packet]
        stack := .flushReceive packet call caller :: net.stack }
  | sent (gone : List NetPacket) (packet : NetPacket) (rest : List NetPacket) (ret : Int)
      (split : net.queue.packets = gone ++ packet :: rest)
      (silent : ∀ packet ∈ gone, packet.sentCb = false) (callback : packet.sentCb = true) :
      Flushed caller net { net.drop (gone.length + 1) rest false with
        called := net.called ++ [(packet, ret)]
        stack := .flushSent packet caller :: net.stack }

theorem drop_drop (net : Net) (gone : Nat) (packets rest : List NetPacket) (first last : Bool) :
    (net.drop 1 packets first).drop gone rest last = net.drop (gone + 1) rest last := by
  have count : net.queue.nqCount - UInt32.ofNat 1 - UInt32.ofNat gone =
      net.queue.nqCount - UInt32.ofNat (gone + 1) := by
    rw [UInt32.ofNat_add]
    grind
  simp only [Net.drop, count]

theorem flushLoop_ends (caller : Option (NetPacket × Int)) (packets : List NetPacket) (net : Net)
    (all : net.queue.packets = packets) : Flushed caller net (net.flushLoop caller packets) := by
  induction packets generalizing net with
  | nil =>
    have none : Flushed caller net ((net.drop 0 [] net.queue.delivering).returns caller) :=
      .finished [] [] net.queue.delivering all fun _ member => absurd member List.not_mem_nil
    simpa [Net.drop, Net.flushLoop] using none
  | cons packet rest ih =>
    have nobody : ∀ gone ∈ ([] : List NetPacket), gone.sentCb = false :=
      fun _ member => absurd member List.not_mem_nil
    rw [Net.flushLoop]
    split
    next call _ => exact .receives [] packet rest call all nobody
    next ret _ =>
      split
      · -- the packet is put back, so the queue is as it was
        have same : Flushed caller net ((net.drop 0 (packet :: rest) false).returns caller) :=
          .finished [] (packet :: rest) false all nobody
        simpa [Net.drop, NetQueue.putBack] using same
      split
      next callback => exact .sent [] packet rest ret all nobody callback
      next silent =>
        have later := ih (net.drop 1 rest false) rfl
        have gone : ∀ dropped, (∀ p ∈ dropped, p.sentCb = false) →
            ∀ p ∈ packet :: dropped, p.sentCb = false := fun dropped silentRest p member => by
          obtain rfl | member := List.mem_cons.mp member
          · exact (Bool.not_eq_true _).mp silent
          · exact silentRest p member
        change Flushed caller net ((net.drop 1 rest false).flushLoop caller rest)
        generalize (net.drop 1 rest false).flushLoop caller rest = last at later
        cases later with
        | finished dropped left delivering split silentRest =>
          rw [drop_drop]
          exact .finished (packet :: dropped) left delivering
            (by rw [all]; exact congrArg _ split)
            (gone dropped silentRest)
        | receives dropped next left call split silentRest =>
          rw [drop_drop]
          exact .receives (packet :: dropped) next left call
            (by rw [all]; exact congrArg _ split)
            (gone dropped silentRest)
        | sent dropped next left ret split silentRest callback =>
          rw [drop_drop]
          exact .sent (packet :: dropped) next left ret (by rw [all]; exact congrArg _ split)
            (gone dropped silentRest) callback

theorem flush_ends (caller : Option (NetPacket × Int)) (net : Net) :
    Flushed caller net (net.qemuNetQueueFlush caller) :=
  flushLoop_ends caller net.queue.packets net rfl

/-! ### The order -/

def receiving : List Frame → List NetPacket
  | [] => []
  | .sendReceive packet _ :: stack | .flushReceive packet _ _ :: stack =>
    packet :: receiving stack
  | .flushSent _ _ :: stack => receiving stack

def Net.delivered (net : Net) : List NetPacket :=
  net.handed.filter fun packet => packet ∉ receiving net.stack

/-- Two packets of one sender are in the order of their sends. -/
def SentBefore (first second : NetPacket) : Prop :=
  first.sender = second.sender → first.id < second.id

/-- A packet that is delivered at once finds none of its sender in the queue. A packet that is
refused is the last one of its sender: no later one was handed over meanwhile, and if it goes to
the end of the queue, no later one is there. -/
def KeepsOrder (net : Net) : NetAction → Prop
  | .send sender _ _ _ => net.queue.delivering = false → net.qemuCanSendPacket sender = true →
      ∀ packet ∈ net.queue.packets, packet.sender ≠ sender
  | .returns ret => ret = 0 →
      match net.stack with
      | .sendReceive packet _ :: _ => ∀ other ∈ net.handed ++ net.queue.packets,
          other.sender = packet.sender → other.id ≤ packet.id
      | .flushReceive packet _ _ :: _ => ∀ other ∈ net.handed,
          other.sender = packet.sender → other.id ≤ packet.id
      | _ => True
  | _ => True

/-- The packets that were handed over and those that wait are one line. -/
structure Lined (net : Net) : Prop where
  line : (net.handed ++ net.queue.packets).Pairwise SentBefore
  ids : ((net.handed ++ net.queue.packets).map NetPacket.id).Nodup
  old : ∀ packet ∈ net.handed ++ net.queue.packets, packet.id < net.nextId
  underway : (receiving net.stack).Subperm net.handed

section Order

variable {net next : Net} {packet : NetPacket} {caller : Option (NetPacket × Int)}
  {handed : List NetPacket}

theorem Lined.part (lined : Lined net)
    (fewer : (next.handed ++ next.queue.packets).Sublist (net.handed ++ net.queue.packets))
    (ids : net.nextId ≤ next.nextId) (underway : (receiving next.stack).Subperm next.handed) :
    Lined next :=
  ⟨lined.line.sublist fewer, lined.ids.sublist (fewer.map _),
    fun packet member => Nat.lt_of_lt_of_le (lined.old packet (fewer.subset member)) ids, underway⟩

theorem underway_push {underway : List NetPacket} (before : underway.Subperm handed) :
    (packet :: underway).Subperm (handed ++ [packet]) :=
  ((List.subperm_cons packet).mpr before).trans
    (List.perm_append_singleton packet handed).symm.subperm

theorem line_unique {waiting : List NetPacket}
    (unique : ∀ other ∈ handed ++ waiting, other.id ≠ packet.id)
    (ids : ((handed ++ waiting).map NetPacket.id).Nodup) :
    ((handed ++ [packet] ++ waiting).map NetPacket.id).Nodup := by
  rw [List.append_assoc, List.singleton_append, (List.perm_middle.map NetPacket.id).nodup_iff,
    List.map_cons]
  refine List.nodup_cons.mpr ⟨fun member => ?_, ids⟩
  obtain ⟨other, found, same⟩ := List.mem_map.mp member
  exact unique other found same

section

variable (lined : Lined net)
include lined

theorem Lined.flushed (flushed : Flushed caller net next) : Lined next := by
  cases flushed with
  | finished gone rest delivering split =>
    refine lined.part ?_ (Nat.le_refl _) lined.underway
    rw [split]
    exact (List.sublist_append_right gone rest).append_left net.handed
  | receives gone packet rest call split =>
    refine lined.part ?_ (Nat.le_refl _) ?_
    · rw [split]
      rw [List.append_assoc]
      exact (List.sublist_append_right gone (packet :: rest)).append_left net.handed
    · exact underway_push lined.underway
  | sent gone packet rest ret split =>
    refine lined.part ?_ (Nat.le_refl _) lined.underway
    rw [split]
    refine List.Sublist.append_left ?_ net.handed
    exact (List.sublist_cons_self packet rest).trans (List.sublist_append_right gone _)

theorem Lined.flush (caller : Option (NetPacket × Int)) : Lined (net.qemuNetQueueFlush caller) :=
  lined.flushed (flush_ends caller net)

theorem Lined.keep (new : packet.id < net.nextId)
    (last : ∀ other ∈ net.handed ++ net.queue.packets, SentBefore other packet)
    (unique : ∀ other ∈ net.handed ++ net.queue.packets, other.id ≠ packet.id) :
    Lined (net.keep packet) := by
  unfold Net.keep qemuNetQueueAppend
  split
  · exact { lined with }
  refine ⟨?_, ?_, ?_, lined.underway⟩
  · dsimp only [Net.returns]
    rw [← List.append_assoc]
    refine List.pairwise_append.mpr ⟨lined.line, List.pairwise_singleton _ _, ?_⟩
    intro other member final only
    rw [List.mem_singleton.mp only]
    exact last other member
  · dsimp only [Net.returns]
    rw [← List.append_assoc, List.map_append, List.nodup_append]
    refine ⟨lined.ids, List.nodup_singleton _, ?_⟩
    intro id member final only
    obtain ⟨other, found, rfl⟩ := List.mem_map.mp member
    rw [List.map_singleton, List.mem_singleton] at only
    rw [only]
    exact unique other found
  · intro other member
    dsimp only [Net.returns] at member ⊢
    rw [← List.append_assoc, List.mem_append, List.mem_singleton] at member
    obtain member | rfl := member
    · exact lined.old other member
    · exact new

theorem Lined.send {sender : Nat} {flags : UInt32} {buffer : Buffer}
    {sentCb : Bool} (keeps : KeepsOrder net (.send sender flags buffer sentCb)) :
    Lined (net.qemuNetQueueSend sender flags buffer sentCb) := by
  have later : Lined { net with nextId := net.nextId + 1 } :=
    lined.part (List.Sublist.refl _) (Nat.le_succ _) lined.underway
  have kept : ∀ delivering, Lined (Net.keep ⟨net.nextId, sender, flags, buffer.bytes, sentCb⟩
      { net with nextId := net.nextId + 1, queue.delivering := delivering }) := fun delivering =>
    Lined.keep { later with } (Nat.lt_succ_self _) (fun other member _ => lined.old other member)
      fun other member => Nat.ne_of_lt (lined.old other member)
  unfold Net.qemuNetQueueSend
  dsimp only
  split
  · exact kept net.queue.delivering
  next direct =>
    rw [Bool.or_eq_true, not_or, Bool.not_eq_true, Bool.not_eq_true', Bool.not_eq_false] at direct
    have alone := keeps direct.1 direct.2
    split
    · -- the packet passes the queue, which holds none of its sender
      obtain ⟨handed, waiting, between⟩ := List.pairwise_append.mp lined.line
      refine ⟨?_, ?_, ?_, ?_⟩
      · dsimp only
        rw [List.append_assoc]
        refine List.pairwise_append.mpr ⟨handed, List.pairwise_cons.mpr ⟨?_, waiting⟩, ?_⟩
        · exact fun other member same => absurd same.symm (alone other member)
        intro first member second behind
        obtain rfl | behind := List.mem_cons.mp behind
        · exact fun _ => lined.old first (List.mem_append_left _ member)
        · exact between first member second behind
      · refine line_unique ?_ lined.ids
        exact fun other member => Nat.ne_of_lt (lined.old other member)
      · intro other member
        rw [List.append_assoc, List.singleton_append, List.perm_middle.mem_iff] at member
        obtain rfl | member := List.mem_cons.mp member
        · exact Nat.lt_succ_self _
        · exact Nat.lt_succ_of_lt (lined.old other member)
      · exact underway_push lined.underway
    · split
      · exact kept false
      · refine Lined.flush ?_ _
        exact { later with }

theorem Lined.takenBack {rest : List NetPacket} (underway : (packet :: rest).Subperm net.handed) :
    packet ∈ net.handed ∧ rest.Subperm (net.handed.erase packet) ∧
      ∀ other ∈ net.handed.erase packet ++ net.queue.packets, other.id ≠ packet.id := by
  have there : packet ∈ net.handed := underway.subset List.mem_cons_self
  have erased := underway.erase packet
  rw [List.erase_cons_head] at erased
  have ids := lined.ids
  have order : (net.handed ++ net.queue.packets).Perm
      (packet :: (net.handed.erase packet ++ net.queue.packets)) :=
    (List.perm_cons_erase there).append_right net.queue.packets
  rw [(order.map NetPacket.id).nodup_iff, List.map_cons, List.nodup_cons] at ids
  exact ⟨there, erased, fun other member same => ids.1 (List.mem_map.mpr ⟨other, member, same⟩)⟩

theorem Lined.resume {ret : Int} (keeps : KeepsOrder net (.returns ret))
    (resumed : net.resume ret = some next) : Lined next := by
  have underway := lined.underway
  unfold Net.resume at resumed
  unfold KeepsOrder at keeps
  split at resumed
  · cases resumed
  next packet caller stack stacked =>
    cases resumed
    rw [stacked] at underway
    refine Lined.flush ?_ caller
    exact { lined with underway }
  next packet call stack stacked =>
    rw [stacked] at underway keeps
    obtain ⟨there, rest, unique⟩ := lined.takenBack underway
    split at resumed
    next refused =>
      cases resumed
      have fewer := (List.erase_sublist (l := net.handed) (a := packet)).append_right
        net.queue.packets
      refine Lined.keep (lined.part fewer (Nat.le_refl _) rest) ?_ (fun other member same => ?_)
        unique
      · exact lined.old packet (List.mem_append_left _ there)
      · exact Nat.lt_of_le_of_ne (keeps refused other (fewer.subset member) same)
          (unique other member)
    · cases resumed
      refine Lined.flush ?_ _
      exact { lined with underway := (List.sublist_cons_self packet _).subperm.trans underway }
  next packet call caller stack stacked =>
    rw [stacked] at underway keeps
    obtain ⟨there, rest, unique⟩ := lined.takenBack underway
    have less : (receiving stack).Subperm net.handed :=
      (List.sublist_cons_self packet _).subperm.trans underway
    split at resumed
    next refused =>
      cases resumed
      obtain ⟨handed, waiting, between⟩ := List.pairwise_append.mp lined.line
      have order : (net.handed.erase packet ++ packet :: net.queue.packets).Perm
          (net.handed ++ net.queue.packets) :=
        List.perm_middle.trans ((List.perm_cons_erase there).append_right _).symm
      refine ⟨List.pairwise_append.mpr ⟨handed.sublist List.erase_sublist,
        List.pairwise_cons.mpr ⟨between packet there, waiting⟩, ?_⟩,
        (order.map NetPacket.id).nodup_iff.mpr lined.ids,
        fun other member => lined.old other (order.mem_iff.mp member), rest⟩
      intro other member behind found
      obtain rfl | found := List.mem_cons.mp found
      · exact fun same => Nat.lt_of_le_of_ne
          (keeps refused other (List.mem_of_mem_erase member) same)
          (unique other (List.mem_append_left _ member))
      · exact between other (List.mem_of_mem_erase member) behind found
    · split at resumed
      · cases resumed
        exact { lined with underway := less }
      · cases resumed
        refine Lined.flush ?_ _
        exact { lined with underway := less }

theorem Lined.step {action : NetAction} (keeps : KeepsOrder net action)
    (taken : packetMachine.step net action = some next) : Lined next := by
  cases action with
  | send sender flags buffer sentCb =>
    cases taken
    exact lined.send keeps
  | flush =>
    cases taken
    exact lined.flush none
  | flushQueued =>
    cases taken
    refine Lined.flush ?_ none
    exact { lined with }
  | purge sender =>
    cases taken
    exact lined.part (List.filter_sublist.append_left net.handed) (Nat.le_refl _) lined.underway
  | change nc attached =>
    cases taken
    exact { lined with }
  | returns ret => exact lined.resume keeps taken

end

/-- The packets of each sender that are delivered are delivered in the order of their sends. -/
theorem delivered_inOrder (reached : packetMachine.Reached KeepsOrder net) :
    net.delivered.Pairwise SentBefore := by
  have lined : Lined net := reached.invariant
    (fun state initial => by
      obtain ⟨queue, stack, -, handed, -⟩ := initial
      refine ⟨?_, ?_, ?_, ?_⟩ <;> simp [queue, stack, handed, qemuNewNetQueue, receiving])
    fun _ _ _ lined keeps taken => lined.step keeps taken
  exact (List.pairwise_append.mp lined.line).1.sublist List.filter_sublist

end Order

/-! ### Two packets of one sender -/

def plainClient (canReceive : Bool) : NetClient := ⟨false, false, canReceive, false, false⟩

def emptyNet (canReceive : Bool) : Net :=
  ⟨qemuNewNetQueue, plainClient canReceive, fun _ => true, [], 0, [], [], []⟩

theorem emptyNet_start (canReceive : Bool) : packetMachine.start (emptyNet canReceive) :=
  ⟨rfl, rfl, rfl, rfl, rfl, rfl⟩

instance decidableKeepsOrder (net : Net) (action : NetAction) :
    Decidable (KeepsOrder net action) := by
  cases action <;> dsimp only [KeepsOrder]
  case returns => split <;> infer_instance
  all_goals infer_instance

def sendTwo (flushes : Bool) : List NetAction :=
  [.send 0 0 (.flat [1]) false, .change (plainClient true) fun _ => true] ++
    (if flushes then [.flushQueued] else []) ++
    [.send 0 0 (.flat [2]) false, .returns 1, .returns 1]

theorem delivered_inOrder_flushed :
    ∃ net, packetMachine.Reached KeepsOrder net ∧
      net.delivered.map NetPacket.data = [[1], [2]] ∧ net.delivered.Pairwise SentBefore := by
  have ends : (packetMachine.run (sendTwo true) (emptyNet false)).map
      (fun net => net.delivered.map NetPacket.data) = some [[1], [2]] := by decide +kernel
  have permitted : packetMachine.RunAllowed KeepsOrder (sendTwo true) (emptyNet false) := by
    decide +kernel
  obtain ⟨net, reached, values⟩ :=
    (Machine.Reached.start (emptyNet_start false)).evaluate permitted ends
  exact ⟨net, reached, values, delivered_inOrder reached⟩

/-- A client that became ready and did not flush takes the new packet first. -/
theorem send_overtakes :
    ¬ ∀ net, packetMachine.Reached Machine.anyAction net → net.delivered.Pairwise SentBefore := by
  intro always
  have ends : (packetMachine.run (sendTwo false) (emptyNet false)).map Net.delivered =
      some [⟨1, 0, 0, [2], false⟩, ⟨0, 0, 0, [1], false⟩] := by decide +kernel
  obtain ⟨net, reached, values⟩ := Machine.evaluate_any ends (emptyNet_start false)
  have order := always net reached
  rw [values, List.pairwise_pair] at order
  exact absurd (order rfl) (by decide)

/-! ### The callbacks -/

/-- The packets of the queue that a flush took out and that a receive function looks at. -/
def flushing : List Frame → List NetPacket
  | [] => []
  | .flushReceive packet _ _ :: stack => packet :: flushing stack
  | .sendReceive _ _ :: stack | .flushSent _ _ :: stack => flushing stack

/-- The sends that did not return yet and wait for a flush. -/
def callers : List Frame → List (NetPacket × Int)
  | [] => []
  | .sendReceive _ _ :: stack => callers stack
  | .flushReceive _ _ caller :: stack | .flushSent _ caller :: stack =>
    caller.toList ++ callers stack

def sending : List Frame → List NetPacket
  | [] => []
  | .sendReceive packet _ :: stack => packet :: sending stack
  | .flushReceive _ _ caller :: stack | .flushSent _ caller :: stack =>
    caller.toList.map Prod.fst ++ sending stack

/-- No packet with a callback is purged, and the counter does not wrap. -/
def KeepsCallbacks (net : Net) (action : NetAction) : Prop :=
  net.queue.nqCount ≠ 0xffffffff ∧
    match action with
    | .purge sender => ∀ packet ∈ net.queue.packets, packet.sender = sender → packet.sentCb = false
    | _ => True

def Net.sends (caller : Option (NetPacket × Int)) (net : Net) : List NetPacket :=
  net.results.map Prod.fst ++ (caller.toList.map Prod.fst ++ sending net.stack)

/-- The callbacks of a queue on which the send of `caller` goes on. -/
structure Called (caller : Option (NetPacket × Int)) (net : Net) : Prop where
  count : net.queue.nqCount.toNat = net.queue.packets.length
  calls : ∀ packet, packet.sentCb = true →
    (net.called.map Prod.fst).count packet + net.queue.packets.count packet +
      (flushing net.stack).count packet = net.results.count (packet, 0)
  unique : ((net.sends caller).map NetPacket.id).Nodup
  old : ∀ packet ∈ net.sends caller, packet.id < net.nextId
  taken : ∀ entry ∈ caller.toList ++ callers net.stack, entry.2 ≠ 0

instance decidableKeepsCallbacks (net : Net) (action : NetAction) :
    Decidable (KeepsCallbacks net action) := by
  cases action <;> dsimp only [KeepsCallbacks] <;> infer_instance

section Callbacks

variable {net next : Net} {packet : NetPacket} {caller : Option (NetPacket × Int)}
  {gone : List NetPacket} {queue : NetQueue} {ret : Int}

theorem drop_count {rest : List NetPacket} {dropped : Nat} (delivering : Bool)
    (count : net.queue.nqCount.toNat = net.queue.packets.length)
    (split : net.queue.packets.length = dropped + rest.length) :
    (net.drop dropped rest delivering).queue.nqCount.toNat = rest.length := by
  have bound := net.queue.nqCount.toNat_lt
  simp only [Net.drop]
  rw [UInt32.toNat_sub, UInt32.toNat_ofNat']
  omega

theorem count_silent (silent : ∀ packet ∈ gone, packet.sentCb = false)
    (callback : packet.sentCb = true) : gone.count packet = 0 := by
  refine List.count_eq_zero.mpr fun member => ?_
  rw [silent packet member] at callback
  cases callback

theorem Called.flushed (before : Called caller net) (flushed : Flushed caller net next) :
    Called none next := by
  cases flushed with
  | finished gone rest delivering split silent =>
    have parts : net.queue.packets.length = gone.length + rest.length := by
      rw [split, List.length_append]
    refine ⟨drop_count delivering before.count parts, fun packet callback => ?_, ?_, ?_, ?_⟩
    · have calls := before.calls packet callback
      rw [split, List.count_append, count_silent silent callback] at calls
      have other : caller.toList.count (packet, 0) = 0 :=
        List.count_eq_zero.mpr fun member =>
          before.taken _ (List.mem_append_left _ member) rfl
      simp only [Net.drop, Net.returns, List.count_append, other]
      omega
    · have unique := before.unique
      simpa [Net.sends, Net.returns, Net.drop] using unique
    · have old := before.old
      simpa [Net.sends, Net.returns, Net.drop] using old
    · exact fun entry member => before.taken entry (List.mem_append_right _ member)
  | receives gone packet rest call split silent =>
    refine { before with
      count := drop_count true before.count (by simp [split]; omega)
      calls := fun other callback => ?_ }
    have calls := before.calls other callback
    rw [split, List.count_append, count_silent silent callback, List.count_cons] at calls
    simp only [Net.drop, flushing, List.count_cons]
    omega
  | sent gone packet rest ret split silent callback =>
    refine { before with
      count := drop_count false before.count (by simp [split]; omega)
      calls := fun other otherCallback => ?_ }
    have calls := before.calls other otherCallback
    rw [split, List.count_append, count_silent silent otherCallback, List.count_cons] at calls
    simp only [Net.drop, flushing, List.map_append, List.count_append, List.map_singleton,
      List.count_singleton]
    omega

theorem Called.flush (before : Called caller net) : Called none (net.qemuNetQueueFlush caller) :=
  before.flushed (flush_ends caller net)

theorem count_succ (count : queue.nqCount.toNat = queue.packets.length)
    (room : queue.nqCount ≠ 0xffffffff) : (queue.nqCount + 1).toNat = queue.packets.length + 1 := by
  have bound := queue.nqCount.toNat_lt
  have full : queue.nqCount.toNat ≠ 4294967295 := fun same => room (UInt32.toNat_inj.mp same)
  have one : (1 : UInt32).toNat = 1 := rfl
  rw [UInt32.toNat_add]
  omega

theorem Called.keep (before : Called (some (packet, ret)) net)
    (room : net.queue.nqCount ≠ 0xffffffff) : Called none (net.keep packet) := by
  have sends : Net.sends none (net.keep packet) = net.sends (some (packet, ret)) := by
    simp [Net.sends, Net.keep, Net.returns]
  have unique := before.unique
  have old := before.old
  rw [← sends] at unique old
  unfold Net.keep qemuNetQueueAppend at unique old ⊢
  split
  next full =>
    refine ⟨before.count, fun other callback => ?_, unique, old,
      fun entry member => before.taken entry (List.mem_append_right _ member)⟩
    have different : packet ≠ other := by
      rintro rfl
      rw [full.2] at callback
      cases callback
    have calls := before.calls other callback
    simpa [Net.returns, List.count_singleton, different] using calls
  next queued =>
    refine ⟨?_, fun other callback => ?_, unique, old,
      fun entry member => before.taken entry (List.mem_append_right _ member)⟩
    · have grown := count_succ before.count room
      simpa [Net.returns] using grown
    have calls := before.calls other callback
    have same : ([(packet, (0 : Int))].count (other, 0)) = [packet].count other := by
      simp [List.count_singleton]
    simp only [Net.returns, Option.toList_some, List.count_append, same]
    omega

theorem Called.enter (before : Called none net) (sender : Nat) (flags : UInt32) (data : List UInt8)
    (sentCb delivering : Bool) (taken : ret ≠ 0) :
    Called (some (⟨net.nextId, sender, flags, data, sentCb⟩, ret))
      { net with nextId := net.nextId + 1, queue.delivering := delivering } := by
  refine ⟨before.count, before.calls, ?_, fun packet member => ?_, ?_⟩
  · have new : net.nextId ∉ (net.sends none).map NetPacket.id := fun member => by
      obtain ⟨packet, found, same⟩ := List.mem_map.mp member
      exact absurd (before.old packet found) (by omega)
    have order : (net.results.map Prod.fst ++
        (⟨net.nextId, sender, flags, data, sentCb⟩ :: sending net.stack)).Perm
        (⟨net.nextId, sender, flags, data, sentCb⟩ :: net.sends none) := List.perm_middle
    exact ((order.map NetPacket.id).nodup_iff).mpr (List.nodup_cons.mpr ⟨new, before.unique⟩)
  · obtain rfl | member := List.mem_cons.mp (List.perm_middle.mem_iff.mp member)
    · exact Nat.lt_succ_self _
    · exact Nat.lt_succ_of_lt (before.old packet member)
  · exact List.forall_mem_cons.mpr ⟨taken, before.taken⟩

theorem Called.send (before : Called none net) (room : net.queue.nqCount ≠ 0xffffffff)
    (sender : Nat) (flags : UInt32) (buffer : Buffer) (sentCb : Bool) :
    Called none (net.qemuNetQueueSend sender flags buffer sentCb) := by
  have entered := fun (delivering : Bool) (ret : Int) (taken : ret ≠ 0) =>
    before.enter sender flags buffer.bytes sentCb delivering taken
  unfold Net.qemuNetQueueSend
  dsimp only
  split
  · exact Called.keep (entered net.queue.delivering 1 (by decide)) room
  split
  · have started := entered true 1 (by decide)
    exact { started with taken := before.taken }
  next ret _ =>
    split
    · exact Called.keep (entered false 1 (by decide)) room
    next taken => exact Called.flush (entered false ret taken)

theorem Called.resume (before : Called none net) (room : net.queue.nqCount ≠ 0xffffffff)
    (resumed : net.resume ret = some next) : Called none next := by
  obtain ⟨count, calls, unique, old, taken⟩ := before
  simp only [Net.sends] at unique old
  unfold Net.resume at resumed
  split at resumed
  · cases resumed
  next packet caller stack stacked =>
    cases resumed
    rw [stacked] at calls unique old taken
    exact Called.flush ⟨count, calls, unique, old, taken⟩
  next packet call stack stacked =>
    rw [stacked] at calls unique old taken
    split at resumed
    · cases resumed
      exact @Called.keep _ _ 1 ⟨count, calls, unique, old,
        List.forall_mem_cons.mpr ⟨Int.one_ne_zero, taken⟩⟩ room
    next accepted =>
      cases resumed
      exact Called.flush ⟨count, calls, unique, old, List.forall_mem_cons.mpr ⟨accepted, taken⟩⟩
  next packet call caller stack stacked =>
    rw [stacked] at calls unique old taken
    replace taken : ∀ entry ∈ caller.toList ++ callers stack, entry.2 ≠ 0 := taken
    split at resumed
    · cases resumed
      refine ⟨count_succ count room, fun other callback => ?_, ?_, ?_,
        fun entry member => taken entry (List.mem_append_right _ member)⟩
      · have calls := calls other callback
        have returned : caller.toList.count (other, 0) = 0 :=
          List.count_eq_zero.mpr fun member => taken _ (List.mem_append_left _ member) rfl
        simp only [flushing, List.count_cons] at calls
        simp only [Net.returns, NetQueue.putBack, List.count_append, List.count_cons, returned]
        omega
      · simpa [Net.sends, Net.returns, sending] using unique
      · simpa [Net.sends, Net.returns, sending] using old
    · split at resumed
      next callback =>
        cases resumed
        refine ⟨count, fun other otherCallback => ?_, unique, old, taken⟩
        have calls := calls other otherCallback
        simp only [flushing, List.count_cons] at calls
        simp only [flushing, List.map_append, List.count_append, List.map_singleton,
          List.count_singleton]
        omega
      next silent =>
        cases resumed
        refine Called.flush ⟨count, fun other callback => ?_, unique, old, taken⟩
        have calls := calls other callback
        have different : packet ≠ other := by
          rintro rfl
          exact silent callback
        simpa [flushing, List.count_cons, different] using calls

theorem purge_count (sender : Nat) (count : queue.nqCount.toNat = queue.packets.length) :
    (qemuNetQueuePurge sender queue).nqCount.toNat =
      (qemuNetQueuePurge sender queue).packets.length := by
  have bound := queue.nqCount.toNat_lt
  have parts := queue.packets.length_eq_countP_add_countP fun packet => packet.sender = sender
  have kept : (queue.packets.filter fun packet => packet.sender ≠ sender).length =
      queue.packets.countP fun packet => ¬ decide (packet.sender = sender) = true := by
    rw [← List.countP_eq_length_filter]
    simp
  simp only [qemuNetQueuePurge, kept]
  rw [UInt32.toNat_sub, UInt32.toNat_ofNat']
  omega

theorem Called.step {action : NetAction} (before : Called none net)
    (keeps : KeepsCallbacks net action)
    (taken : packetMachine.step net action = some next) : Called none next := by
  obtain ⟨room, keeps⟩ := keeps
  cases action with
  | send sender flags buffer sentCb =>
    cases taken
    exact before.send room sender flags buffer sentCb
  | flush =>
    cases taken
    exact before.flush
  | flushQueued =>
    cases taken
    exact Called.flush { before with }
  | purge sender =>
    cases taken
    refine { before with
      count := purge_count sender before.count, calls := fun packet callback => ?_ }
    have calls := before.calls packet callback
    by_cases same : packet.sender = sender
    · have waits : packet ∉ net.queue.packets := fun member => by
        rw [keeps packet member same] at callback
        cases callback
      have gone : packet ∉ (qemuNetQueuePurge sender net.queue).packets := fun member =>
        waits (List.mem_of_mem_filter member)
      rw [List.count_eq_zero.mpr waits] at calls
      rw [List.count_eq_zero.mpr gone]
      exact calls
    · have kept : (qemuNetQueuePurge sender net.queue).packets.count packet =
          net.queue.packets.count packet := List.count_filter (by simpa using same)
      rw [kept]
      exact calls
  | change nc attached =>
    cases taken
    exact { before with }
  | returns ret => exact before.resume room taken

/-- A packet with a callback whose send returned 0 is in the queue, or a flush delivers it, or its
callback was called, once. -/
theorem callbacks_exactlyOnce (reached : packetMachine.Reached KeepsCallbacks net) :
    net.queue.nqCount.toNat = net.queue.packets.length ∧
      ∀ packet, packet.sentCb = true → (packet, 0) ∈ net.results →
        (net.called.map Prod.fst).count packet =
          if packet ∈ net.queue.packets ++ flushing net.stack then 0 else 1 := by
  have called : Called none net := reached.invariant
    (fun state initial => by
      obtain ⟨queue, stack, -, -, results, called⟩ := initial
      refine ⟨?_, ?_, ?_, ?_, ?_⟩ <;>
        simp [queue, stack, results, called, qemuNewNetQueue, flushing, callers, sending,
          Net.sends])
    fun _ _ _ before keeps taken => before.step keeps taken
  refine ⟨called.count, fun packet callback returned => ?_⟩
  have calls := called.calls packet callback
  have unique : net.results.Nodup := by
    have ids := called.unique
    rw [Net.sends, List.map_append, List.nodup_append] at ids
    exact List.Nodup.of_map _ (List.Nodup.of_map _ ids.1)
  rw [List.count_eq_one_of_mem unique returned, Nat.add_assoc, ← List.count_append] at calls
  split
  next waits =>
    have positive := List.count_pos_iff.mpr waits
    omega
  next gone =>
    rw [List.count_eq_zero.mpr gone] at calls
    exact calls

end Callbacks

/-- A packet with a callback waits, is flushed, and the sender is told. -/
theorem callbacks_exactlyOnce_flushed :
    ∃ net, packetMachine.Reached KeepsCallbacks net ∧
      net.results = [(⟨0, 0, 0, [1], true⟩, 0)] ∧ net.queue.nqCount.toNat = 0 ∧
      (net.called.map Prod.fst).count ⟨0, 0, 0, [1], true⟩ = 1 := by
  have ends : (packetMachine.run [.send 0 0 (.flat [1]) true,
      .change (plainClient true) fun _ => true, .flushQueued, .returns 1] (emptyNet false)).map
      (fun net => (net.results, net.queue.packets, flushing net.stack)) =
      some ([(⟨0, 0, 0, [1], true⟩, 0)], [], []) := by decide +kernel
  have permitted : packetMachine.RunAllowed KeepsCallbacks [.send 0 0 (.flat [1]) true,
      .change (plainClient true) fun _ => true, .flushQueued, .returns 1] (emptyNet false) := by
    decide +kernel
  obtain ⟨net, reached, values⟩ :=
    (Machine.Reached.start (emptyNet_start false)).evaluate permitted ends
  simp only [Prod.mk.injEq] at values
  obtain ⟨results, packets, stack⟩ := values
  obtain ⟨count, calls⟩ := callbacks_exactlyOnce reached
  have once := calls ⟨0, 0, 0, [1], true⟩ rfl (by rw [results]; exact List.mem_singleton.mpr rfl)
  rw [packets, stack] at once
  exact ⟨net, reached, results, by rw [count, packets]; rfl, once⟩

/-- A purge frees a packet, and its sender waits for the callback. -/
theorem purge_forgets_callback :
    ¬ ∀ net, packetMachine.Reached Machine.anyAction net → ∀ packet, packet.sentCb = true →
      (packet, 0) ∈ net.results → (net.called.map Prod.fst).count packet =
        if packet ∈ net.queue.packets ++ flushing net.stack then 0 else 1 := by
  intro always
  have ends : (packetMachine.run [.send 0 0 (.flat [1]) true, .purge 0] (emptyNet false)).map
      (fun net => (net.results, net.called, net.queue.packets, flushing net.stack)) =
      some ([(⟨0, 0, 0, [1], true⟩, 0)], [], [], []) := by decide +kernel
  obtain ⟨net, reached, values⟩ := Machine.evaluate_any ends (emptyNet_start false)
  simp only [Prod.mk.injEq] at values
  obtain ⟨results, called, packets, stack⟩ := values
  have once := always net reached ⟨0, 0, 0, [1], true⟩ rfl
    (by rw [results]; exact List.mem_singleton.mpr rfl)
  rw [called, packets, stack] at once
  exact absurd once (by decide)

end VhostUser.Qemu.Packets
